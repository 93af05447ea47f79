import IndentMarkup.Proofs.DashLine

/-! Warnings about control words. Code that begins with a control word is always warned
about. The word is looked for behind all dashes of the line, of which only the first is no
part of the code, and its letters are taken without what follows them; so a warning is
wrong where the code begins with a dash or the word goes on with a digit or an underscore. -/
namespace IndentMarkup
open Text

def isWordChar (c : Char) : Bool := c.isAlphanum || c = '_'

/-- The code begins with the word, and with no longer one. -/
def BeginsWith (w source : Text) : Prop := w <+: source ∧ Off isWordChar (source.drop w.length)

instance (w source : Text) : Decidable (BeginsWith w source) :=
  inferInstanceAs (Decidable (w <+: source ∧ Off isWordChar (source.drop w.length)))

def controlWords : List Text :=
  ["if".toList, "foreach".toList, "for".toList, "while".toList, "else".toList,
    "elseif".toList, "switch".toList, "case".toList, "do".toList]

theorem Line.isControlWord_iff {w : Text} : Line.isControlWord w = true ↔ w ∈ controlWords := by
  have known : (Keyword.ofWord? w).isSome = true ↔ w ∈ Keyword.all.map Keyword.word := by
    simp [Keyword.ofWord?]
  rw [Line.isControlWord, Bool.or_eq_true, known, List.contains_iff_mem, ← List.mem_append]
  rfl

theorem isAlpha_of_mem_controlWords : ∀ w ∈ controlWords, ∀ c ∈ w, c.isAlpha = true := by
  have all : controlWords.all (·.all Char.isAlpha) = true := by decide
  simpa only [List.all_eq_true] using all

theorem ne_nil_of_mem_controlWords : ∀ w ∈ controlWords, w ≠ [] := by
  decide

theorem isWordChar_eq_false_iff {c : Char} :
    isWordChar c = false ↔ c.isAlpha = false ∧ ¬ (c.isDigit = true ∨ c = '_') := by
  simp [isWordChar, Char.isAlphanum, and_assoc]

theorem beginsWith_word_iff {s : Text} :
    BeginsWith (word s) s ↔ ¬ ∃ c ∈ (afterWord s).head?, c.isDigit = true ∨ c = '_' := by
  have behind : s.drop (word s).length = afterWord s := by
    conv => lhs; arg 2; rw [← word_append_afterWord s]
    exact List.drop_left
  have start : word s <+: s := ⟨afterWord s, word_append_afterWord s⟩
  have letters : Off Char.isAlpha (afterWord s) := off_dropWhile Char.isAlpha s
  rw [BeginsWith, behind]
  constructor
  · rintro ⟨-, off⟩ ⟨c, first, longer⟩
    exact (isWordChar_eq_false_iff.1 (off c first)).2 longer
  · intro ends
    refine ⟨start, fun c first => isWordChar_eq_false_iff.2 ⟨letters c first, fun longer => ?_⟩⟩
    exact ends ⟨c, first, longer⟩

theorem word_eq_of_beginsWith {w s : Text} (control : w ∈ controlWords) (begins : BeginsWith w s) :
    word s = w := by
  obtain ⟨⟨rest, rfl⟩, off⟩ := begins
  rw [List.drop_left] at off
  have ends : Off Char.isAlpha rest := fun c first => (isWordChar_eq_false_iff.1 (off c first)).1
  exact ends.takeWhile_append (isAlpha_of_mem_controlWords w control)

theorem not_beginsWith_dash {w : Text} (control : w ∈ controlWords) (s : Text) :
    ¬ BeginsWith w ('-' :: s) := by
  intro begins
  have empty : word ('-' :: s) = [] := rfl
  rw [word_eq_of_beginsWith control begins] at empty
  exact ne_nil_of_mem_controlWords w control empty

def behindDashes (content : Text) : Text := trimStart (content.dropWhile (· = '-'))

/-- The word behind all dashes is not what the code begins with: one of the dashes belongs
to the code, or the word goes on. -/
def Misread (content : Text) : Prop :=
  ['-', '-'] <+: content ∨
    ∃ c ∈ (afterWord (behindDashes content)).head?, c.isDigit = true ∨ c = '_'

instance : DecidablePred Misread := fun content =>
  decidable_of_iff (['-', '-'] <+: content ∨
      (afterWord (behindDashes content)).head?.any (fun c => c.isDigit || c = '_') = true)
    (by simp [Misread, Option.any_eq_true])

section
variable {rest : Text}

theorem behindDashes_eq_trim (solid : Solid ('-' :: rest)) (single : Off (· = '-') rest) :
    behindDashes ('-' :: rest) = trim rest := by
  have ending : Solid rest := solid.of_append_right (s := ['-'])
  have dashes : (['-'] ++ rest).dropWhile (· = '-') = rest := single.dropWhile_append (by simp)
  change trimStart ((['-'] ++ rest).dropWhile (· = '-')) = trim rest
  rw [dashes, trim, ending.trimEnd_eq]

theorem trim_of_dash {more : Text} (solid : Solid ('-' :: '-' :: more)) :
    trim ('-' :: more) = '-' :: more :=
  trim_eq (off_cons.2 (by decide)) (solid.of_append_right (s := ['-']))

theorem codeWord_eq_of_beginsWith {w : Text} (solid : Solid ('-' :: rest))
    (control : w ∈ controlWords) (begins : BeginsWith w (trim rest)) :
    Line.codeWord ('-' :: rest) = w := by
  have single : Off (· = '-') rest := by
    refine off_char fun more doubled => ?_
    subst doubled
    rw [trim_of_dash solid] at begins
    exact not_beginsWith_dash control more begins
  change word (behindDashes ('-' :: rest)) = w
  rw [behindDashes_eq_trim solid single]
  exact word_eq_of_beginsWith control begins

theorem beginsWith_codeWord_iff (solid : Solid ('-' :: rest))
    (control : Line.codeWord ('-' :: rest) ∈ controlWords) :
    BeginsWith (Line.codeWord ('-' :: rest)) (trim rest) ↔ ¬ Misread ('-' :: rest) := by
  by_cases doubled : ∃ more, rest = '-' :: more
  · obtain ⟨more, rfl⟩ := doubled
    rw [trim_of_dash solid]
    refine iff_of_false (not_beginsWith_dash control more) (not_not_intro (.inl ?_))
    exact ⟨more, rfl⟩
  · have single : Off (· = '-') rest := off_char fun more same => doubled ⟨more, same⟩
    have first : ¬ ['-', '-'] <+: '-' :: rest := by
      rintro ⟨more, same⟩
      exact doubled ⟨more, (List.cons.inj same).2.symm⟩
    change BeginsWith (word (behindDashes ('-' :: rest))) (trim rest) ↔ _
    rw [Misread, behindDashes_eq_trim solid single, beginsWith_word_iff, not_or]
    exact (and_iff_right first).symm

end

/-- A control word is warned about exactly if the code begins with it, and nothing else is
warned about. -/
structure Line.WarnsExactly (line : Line) (source : Text) : Prop where
  warned : ∀ w, line.fallbackWarning? = some (.unsupportedControl line.number w) ↔
    w ∈ controlWords ∧ BeginsWith w source
  silent : (∀ w ∈ controlWords, ¬ BeginsWith w source) → line.fallbackWarning? = none

namespace Line

section
variable {line : Line} {source : Text}

theorem fallbackWarning?_of_code (coded : line.statement = .code source) :
    line.fallbackWarning? =
      if codeWord line.content ∈ controlWords then
        some (.unsupportedControl line.number (codeWord line.content)) else none := by
  simp only [fallbackWarning?, coded, isControlWord_iff]

theorem warnsExactly_iff_of_code (coded : line.statement = .code source)
    (found : ∀ w ∈ controlWords, BeginsWith w source → codeWord line.content = w) :
    line.WarnsExactly source ↔
      (codeWord line.content ∈ controlWords → BeginsWith (codeWord line.content) source) := by
  have warning := fallbackWarning?_of_code coded
  constructor
  · intro exactly control
    rw [if_pos control] at warning
    exact ((exactly.warned _).1 warning).2
  · intro due
    by_cases control : codeWord line.content ∈ controlWords
    · rw [if_pos control] at warning
      constructor
      case warned =>
        intro w
        rw [warning, Option.some.injEq, Warning.unsupportedControl.injEq]
        constructor
        · rintro ⟨-, rfl⟩
          exact ⟨control, due control⟩
        · exact fun begins => ⟨rfl, found w begins.1 begins.2⟩
      case silent => exact fun none => absurd (due control) (none _ control)
    · rw [if_neg control] at warning
      constructor
      case warned =>
        intro w
        rw [warning]
        refine iff_of_false nofun fun begins => control ?_
        rw [found w begins.1 begins.2]
        exact begins.1
      case silent => exact fun _ => warning

end

theorem render_of_code {line : Line} {source : Text} (coded : line.statement = .code source) :
    line.render = region source := by
  have parts : ("<?php ".toList ++ source ++ " ?".toList) ++ ['>'] = region source :=
    List.append_assoc _ " ?".toList ['>']
  have solid : Solid (region source) := parts ▸ solid_concat (by decide)
  rw [render, coded]
  change trim ([] ++ region source ++ []) = region source
  rw [List.nil_append, List.append_nil]
  exact trim_eq (off_cons.2 (by decide)) solid

end Line

/-- Every warning that is due is given, and the warnings are exact but for the control words
that are misread. -/
theorem warnsExactly_iff_not_misread (number : Nat) (raw source : Text)
    (coded : (Line.read number raw).statement = .code source) :
    let line := Line.read number raw
    (∃ rest, line.content = '-' :: rest ∧ trim rest = source ∧ line.render = region source) ∧
    (∀ w ∈ controlWords, BeginsWith w source →
      line.fallbackWarning? = some (.unsupportedControl number w)) ∧
    (line.WarnsExactly source ↔
      ¬ (Line.codeWord line.content ∈ controlWords ∧ Misread line.content)) := by
  intro line
  obtain ⟨rest, spelled, -, -, rfl, -⟩ := Statement.read_eq_code_iff.1 coded
  have content : line.content = '-' :: rest := spelled
  have solid : Solid ('-' :: rest) := spelled ▸ solid_trim raw
  have found : ∀ w ∈ controlWords, BeginsWith w (trim rest) → Line.codeWord line.content = w := by
    intro w control begins
    rw [content]
    exact codeWord_eq_of_beginsWith solid control begins
  refine ⟨⟨rest, content, rfl, Line.render_of_code coded⟩, ?_, ?_⟩
  · intro w control begins
    rw [Line.fallbackWarning?_of_code coded, found w control begins, if_pos control]
    rfl
  · rw [Line.warnsExactly_iff_of_code coded found, not_and]
    refine forall_congr' fun control => ?_
    rw [content] at control ⊢
    exact beginsWith_codeWord_iff solid control

theorem warnsExactly_iff_not_misread_else :
    (Line.read 1 "- else".toList).statement = .code "else".toList ∧
      (Line.read 1 "- else".toList).fallbackWarning? = some (.unsupportedControl 1 "else".toList) ∧
      (Line.read 1 "- else".toList).WarnsExactly "else".toList := by
  have coded : (Line.read 1 "- else".toList).statement = .code "else".toList := by decide +kernel
  obtain ⟨-, warned, exactly⟩ := warnsExactly_iff_not_misread 1 _ _ coded
  exact ⟨coded, warned _ (by decide) (by decide), exactly.2 (by decide +kernel)⟩

theorem not_warnsExactly_call :
    (Line.read 1 "- for_each($x)".toList).statement = .code "for_each($x)".toList ∧
      (Line.read 1 "- for_each($x)".toList).fallbackWarning? =
        some (.unsupportedControl 1 "for".toList) ∧
      ¬ (Line.read 1 "- for_each($x)".toList).WarnsExactly "for_each($x)".toList ∧
      (Line.read 1 "--do".toList).statement = .code "-do".toList ∧
      (Line.read 1 "--do".toList).fallbackWarning? = some (.unsupportedControl 1 "do".toList) ∧
      ¬ (Line.read 1 "--do".toList).WarnsExactly "-do".toList := by
  have call : (Line.read 1 "- for_each($x)".toList).fallbackWarning? =
      some (.unsupportedControl 1 "for".toList) := by
    decide +kernel
  have dash : (Line.read 1 "--do".toList).fallbackWarning? =
      some (.unsupportedControl 1 "do".toList) := by
    decide +kernel
  refine ⟨by decide +kernel, call, fun exactly => ?_, by decide +kernel, dash, fun exactly => ?_⟩
  · exact absurd ((exactly.warned _).1 call).2 (by decide)
  · exact absurd ((exactly.warned _).1 dash).2 (by decide)

end IndentMarkup
