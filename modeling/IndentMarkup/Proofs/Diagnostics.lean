import IndentMarkup.Proofs.ElementLine
import IndentMarkup.Proofs.Ignored

/-! Warnings of a compilation. They are those of the lines that count, one line after the
other, and each line is warned about for itself: for a tab in front of its content, and for
content that starts as a declaration does but declares nothing. -/
namespace IndentMarkup
open Text

inductive Warning.Kind
  | literalFallback | unsupportedControl | tabIndentation
  deriving DecidableEq, Repr

def Warning.kind : Warning → Kind
  | literalFallback _ _ => .literalFallback
  | unsupportedControl _ _ => .unsupportedControl
  | tabIndentation _ => .tabIndentation

/-- A tab stands before the first character that is not blank. -/
def TabLed (raw : Text) : Prop :=
  ∃ lead c rest, raw = lead ++ c :: rest ∧ (∀ d ∈ lead, isBlank d = true) ∧ isBlank c = false ∧
    '\t' ∈ lead

theorem trimStart_ne_nil_of_trim {raw : Text} (seen : trim raw ≠ []) : trimStart raw ≠ [] := by
  intro empty
  obtain ⟨c, rest, content⟩ := List.exists_cons_of_ne_nil seen
  have off : Off isBlank (c :: rest) := content ▸ off_trim raw
  have member : c ∈ raw := mem_of_mem_trim (content ▸ List.mem_cons_self)
  have whole : margin raw = raw := by simpa [empty] using margin_append_trimStart raw
  rw [← whole] at member
  rw [off_cons, isBlank_of_mem_margin member] at off
  cases off

theorem tabLed_iff {raw : Text} (seen : trim raw ≠ []) : TabLed raw ↔ '\t' ∈ margin raw := by
  constructor
  · rintro ⟨lead, c, rest, rfl, blank, shown, tab⟩
    have off : Off isBlank (c :: rest) := off_cons.2 shown
    rw [margin, off.takeWhile_append blank]
    exact tab
  · intro tab
    obtain ⟨c, rest, content⟩ := List.exists_cons_of_ne_nil (trimStart_ne_nil_of_trim seen)
    have off : Off isBlank (c :: rest) := content ▸ off_dropWhile isBlank raw
    refine ⟨margin raw, c, rest, ?_, fun _ => isBlank_of_mem_margin, off_cons.1 off, tab⟩
    rw [← content, margin_append_trimStart]

/-- Content that starts as a declaration does: with the mark of a tag, or with that of an id
or a class and a letter behind it. -/
def StartsDeclared (content : Text) : Prop :=
  (∃ rest, content = '%' :: rest) ∨
    ∃ mark letter rest, (mark = '#' ∨ mark = '.') ∧ letter.isAlpha = true ∧
      content = mark :: letter :: rest

theorem Line.looksDeclared_iff {content : Text} :
    Line.looksDeclared content = true ↔ StartsDeclared content := by
  unfold looksDeclared
  constructor
  · intro looks
    split at looks
    · exact .inl ⟨_, rfl⟩
    · exact .inr ⟨_, _, _, .inl rfl, looks, rfl⟩
    · exact .inr ⟨_, _, _, .inr rfl, looks, rfl⟩
    · cases looks
  · rintro (⟨rest, rfl⟩ | ⟨mark, letter, rest, rfl | rfl, alpha, rfl⟩)
    · rfl
    · exact alpha
    · exact alpha

theorem startsDeclared_of_isName {mark : Char} (other : mark = '#' ∨ mark = '.') {name : Text}
    (valid : IsName name) (rest : Text) : StartsDeclared (mark :: name ++ rest) := by
  cases name with
  | nil => exact valid.elim
  | cons letter name =>
    exact .inr ⟨mark, letter, name ++ rest, other, (isName_cons_iff.1 valid).1, rfl⟩

theorem Declaration.startsDeclared (d : Declaration) : StartsDeclared d.spelling := by
  unfold spelling afterTag afterId
  cases tag : d.tag with
  | some name => exact .inl ⟨_, rfl⟩
  | none =>
    cases id : d.id with
    | some name => exact startsDeclared_of_isName (.inl rfl) (d.idName name id) _
    | none =>
      cases classes : d.classes with
      | nil => exact absurd ⟨tag, id, classes⟩ d.named
      | cons name names =>
        have valid := d.classNames name (by rw [classes]; exact List.mem_cons_self)
        simp only [spellOptional, spellChain, List.nil_append, List.append_assoc]
        exact startsDeclared_of_isName (.inr rfl) valid _

namespace Statement

theorem read_of_mark {c : Char} (mark : c = '%' ∨ c = '#' ∨ c = '.') (rest : Text) :
    (∃ e body, read (c :: rest) = .element e body) ∨
      read (c :: rest) = .literal (c :: rest) := by
  have origin := origin_read (c :: rest)
  obtain ⟨ignored, doctype, comment⟩ := refuse_of_mark mark rest
  generalize read (c :: rest) = statement at origin ⊢
  cases statement with
  | element e body => exact .inl ⟨e, body, rfl⟩
  | literal text => exact .inr (congrArg literal origin)
  | ignored => cases ignored.symm.trans origin
  | doctype type =>
    obtain ⟨variant, found, -⟩ := origin
    rw [readDoctype?, found] at doctype
    cases doctype
  | comment text =>
    have found : argument? "/".toList (c :: rest) = some text := origin
    rw [readComment?, found] at comment
    cases comment
  | block keyword condition => rcases mark with rfl | rfl | rfl <;> cases origin
  | code source =>
    obtain ⟨behind, same, -⟩ := origin
    rcases mark with rfl | rfl | rfl <;> cases same
  | echo expression =>
    obtain ⟨behind, same, -⟩ := origin
    rcases mark with rfl | rfl | rfl <;> cases same

theorem read_of_startsDeclared {content : Text} (starts : StartsDeclared content) :
    (∃ e body, read content = .element e body) ∨ read content = .literal content := by
  rcases starts with ⟨rest, rfl⟩ | ⟨mark, letter, rest, other, -, rfl⟩
  · exact read_of_mark (.inl rfl) rest
  · exact read_of_mark (.inr other) (letter :: rest)

theorem startsDeclared_of_read_element {content : Text} (solid : Solid content) {e : Element}
    {body : Body} (made : read content = .element e body) : StartsDeclared content := by
  obtain ⟨d, rfl⟩ := Element.exists_declaration_of_read? solid (read?_of_read_eq_element made)
  exact d.startsDeclared

end Statement

namespace Line

variable {line : Line}

theorem eq_of_mem_tabWarning? {w : Warning} (given : w ∈ line.tabWarning?) :
    w = .tabIndentation line.number := by
  unfold tabWarning? at given
  split at given
  · exact (Option.some.inj given).symm
  · cases given

theorem of_mem_fallbackWarning? {w : Warning} (given : w ∈ line.fallbackWarning?) :
    w.line = line.number ∧ w.kind ≠ .tabIndentation := by
  unfold fallbackWarning? at given
  split at given
  · split at given
    · rw [← Option.some.inj given]
      exact ⟨rfl, nofun⟩
    · cases given
  · dsimp only at given
    split at given
    · rw [← Option.some.inj given]
      exact ⟨rfl, nofun⟩
    · cases given
  · cases given

theorem mem_warnings_iff {w : Warning} :
    w ∈ line.warnings ↔ w ∈ line.tabWarning? ∨ w ∈ line.fallbackWarning? := by
  rw [warnings, List.mem_append, Option.mem_toList, Option.mem_toList]
  rfl

theorem line_of_mem_warnings {w : Warning} (given : w ∈ line.warnings) : w.line = line.number := by
  rcases mem_warnings_iff.1 given with tab | fallback
  · rw [eq_of_mem_tabWarning? tab]
    rfl
  · exact (of_mem_fallbackWarning? fallback).1

theorem nodup_kinds_warnings (line : Line) : (line.warnings.map Warning.kind).Nodup := by
  rw [warnings, List.map_append, List.nodup_append]
  refine ⟨?_, ?_, ?_⟩
  · cases line.tabWarning? <;> simp
  · cases line.fallbackWarning? <;> simp
  · intro kind inTab other inFallback same
    obtain ⟨tab, given, rfl⟩ := List.mem_map.1 inTab
    obtain ⟨fallback, given', rfl⟩ := List.mem_map.1 inFallback
    rw [eq_of_mem_tabWarning? (Option.mem_toList.1 given)] at same
    exact (of_mem_fallbackWarning? (Option.mem_toList.1 given')).2 same.symm

theorem tabIndentation_mem_warnings_iff :
    .tabIndentation line.number ∈ line.warnings ↔ '\t' ∈ margin line.raw := by
  rw [mem_warnings_iff]
  constructor
  · rintro (tab | fallback)
    · unfold tabWarning? at tab
      split at tab
      case isTrue found => exact List.contains_iff_mem.1 found
      case isFalse => cases tab
    · exact absurd rfl (of_mem_fallbackWarning? fallback).2
  · intro found
    exact .inl (if_pos (List.contains_iff_mem.2 found))

theorem fallbackWarning?_of_literal {text : Text} (made : line.statement = .literal text) :
    line.fallbackWarning? = if looksDeclared line.content
      then some (.literalFallback line.number line.content) else none := by
  rw [fallbackWarning?, made]

theorem literalFallback_mem_warnings_iff_literal {content : Text} :
    .literalFallback line.number content ∈ line.warnings ↔
      (∃ text, line.statement = .literal text) ∧ content = line.content ∧
        StartsDeclared line.content := by
  rw [mem_warnings_iff, ← looksDeclared_iff]
  constructor
  · rintro (tab | fallback)
    · cases eq_of_mem_tabWarning? tab
    · unfold fallbackWarning? at fallback
      split at fallback
      case h_1 text made =>
        split at fallback
        case isTrue looks =>
          obtain ⟨-, rfl⟩ := Warning.literalFallback.inj (Option.some.inj fallback)
          exact ⟨⟨text, made⟩, rfl, looks⟩
        case isFalse => cases fallback
      case h_2 =>
        dsimp only at fallback
        split at fallback <;> cases fallback
      case h_3 => cases fallback
  · rintro ⟨⟨text, made⟩, rfl, looks⟩
    exact .inr ((fallbackWarning?_of_literal made).trans (if_pos looks))

theorem literalFallback_mem_warnings_iff {number : Nat} {raw content : Text} :
    .literalFallback number content ∈ (read number raw).warnings ↔
      content = trim raw ∧ StartsDeclared (trim raw) ∧
        ¬ ∃ e body, (read number raw).statement = .element e body := by
  refine (@literalFallback_mem_warnings_iff_literal (read number raw) content).trans ?_
  constructor
  · rintro ⟨⟨text, made⟩, same, starts⟩
    refine ⟨same, starts, ?_⟩
    rintro ⟨e, body, other⟩
    cases made.symm.trans other
  · rintro ⟨same, starts, undeclared⟩
    have made := (Statement.read_of_startsDeclared starts).resolve_left undeclared
    exact ⟨⟨trim raw, made⟩, same, starts⟩

end Line

theorem pairwise_number_readLines (first : Nat) (raws : List Text) :
    (readLines first raws).Pairwise (·.number < ·.number) := by
  induction raws generalizing first with
  | nil => exact .nil
  | cons raw raws ih =>
    refine .cons ?_ (ih (first + 1))
    intro line later
    obtain ⟨index, other, -, rfl⟩ := mem_readLines_iff.1 later
    change first < first + 1 + index
    omega

theorem Compilation.warnings_run {lines : List Line} {state : Compilation}
    (reached : ({} : Compilation).run lines = (state, none)) :
    state.warnings.toList = (counted lines).flatMap Line.warnings := by
  refine run_induction (fun history state =>
    state.warnings.toList = history.flatMap Line.warnings) [] ?_ rfl reached
  intro history state line before _ _
  simp [accept, before]

section
variable {raws : List Text} {document : Document} (compiled : compileLines raws = .ok document)
include compiled

theorem warnings_of_compileLines :
    document.warnings = (counted (readLines 1 raws)).flatMap Line.warnings := by
  obtain ⟨state, reached, rfl⟩ := exists_run_of_compileLines compiled
  exact Compilation.warnings_run reached

theorem mem_warnings_of_compileLines {w : Warning} :
    w ∈ document.warnings ↔ ∃ index raw, raws[index]? = some raw ∧
      (Line.read (index + 1) raw).isIgnored = false ∧
      w ∈ (Line.read (index + 1) raw).warnings := by
  rw [warnings_of_compileLines compiled, List.mem_flatMap]
  constructor
  · rintro ⟨line, member, given⟩
    obtain ⟨inside, counts⟩ := List.mem_filter.1 member
    obtain ⟨index, raw, found, rfl⟩ := mem_readLines_iff.1 inside
    rw [Nat.add_comm 1] at counts given
    exact ⟨index, raw, found, by simpa using counts, given⟩
  · rintro ⟨index, raw, found, counts, given⟩
    refine ⟨_, List.mem_filter.2 ⟨mem_readLines_iff.2 ⟨index, raw, found, rfl⟩, ?_⟩, ?_⟩
    · rw [Nat.add_comm 1, counts]
      rfl
    · rwa [Nat.add_comm 1]

theorem mem_warnings_iff_of_line {index : Nat} {raw : Text} (found : raws[index]? = some raw)
    (counts : (Line.read (index + 1) raw).isIgnored = false) {w : Warning}
    (here : w.line = index + 1) :
    w ∈ document.warnings ↔ w ∈ (Line.read (index + 1) raw).warnings := by
  rw [mem_warnings_of_compileLines compiled]
  constructor
  · rintro ⟨other, raw', found', -, given⟩
    have same : index + 1 = other + 1 := here.symm.trans (Line.line_of_mem_warnings given)
    obtain rfl := Nat.add_right_cancel same
    obtain rfl := Option.some.inj (found.symm.trans found')
    exact given
  · exact fun given => ⟨index, raw, found, counts, given⟩

end

theorem pairwise_flatMap_warnings {lines : List Line} {r : Warning → Warning → Prop}
    (apart : lines.Pairwise (·.number < ·.number))
    (within : ∀ line ∈ lines, line.warnings.Pairwise r)
    (across : ∀ w w' : Warning, w.line < w'.line → r w w') :
    (lines.flatMap Line.warnings).Pairwise r := by
  refine List.pairwise_flatMap.2 ⟨within, apart.imp fun before w given w' given' => across w w' ?_⟩
  rw [Line.line_of_mem_warnings given, Line.line_of_mem_warnings given']
  exact before

theorem pairwise_number_counted (raws : List Text) :
    (counted (readLines 1 raws)).Pairwise (·.number < ·.number) :=
  (pairwise_number_readLines 1 raws).filter _

/-- What `warnings` hold about one line. No content that starts as a declaration does is taken
for text unnoticed, and no other text is reported. -/
structure Line.Reported (line : Line) (warnings : List Warning) : Prop where
  tab : .tabIndentation line.number ∈ warnings ↔ TabLed line.raw
  fallback : ∀ content, .literalFallback line.number content ∈ warnings ↔
    content = trim line.raw ∧ StartsDeclared (trim line.raw) ∧
      ¬ ∃ e body, line.statement = .element e body
  declared : StartsDeclared (trim line.raw) →
    (∃ e body, line.statement = .element e body) ∨
      line.statement = .literal (trim line.raw) ∧
        .literalFallback line.number (trim line.raw) ∈ warnings
  element : ∀ e body, line.statement = .element e body → StartsDeclared (trim line.raw)
  plain : ∀ text, line.statement = .literal text → ¬ StartsDeclared (trim line.raw) →
    ∀ w ∈ warnings, w.line = line.number → w = .tabIndentation line.number

theorem Line.reported_of_mem_iff {number : Nat} {raw : Text} {warnings : List Warning}
    (counts : (read number raw).isIgnored = false)
    (own : ∀ w : Warning, w.line = number → (w ∈ warnings ↔ w ∈ (read number raw).warnings)) :
    (read number raw).Reported warnings := by
  have fallback (content : Text) : .literalFallback number content ∈ warnings ↔ _ :=
    (own _ rfl).trans literalFallback_mem_warnings_iff
  refine ⟨?_, fallback, ?_, ?_, ?_⟩
  · have led : TabLed raw ↔ '\t' ∈ margin raw := tabLed_iff (trim_ne_nil_of_not_ignored counts)
    have tab : .tabIndentation number ∈ (read number raw).warnings ↔ '\t' ∈ margin raw :=
      tabIndentation_mem_warnings_iff
    exact (own _ rfl).trans (tab.trans led.symm)
  · intro starts
    by_cases made : ∃ e body, (read number raw).statement = .element e body
    · exact .inl made
    · refine .inr ⟨(Statement.read_of_startsDeclared starts).resolve_left made, ?_⟩
      exact (fallback _).2 ⟨rfl, starts, made⟩
  · intro e body made
    exact Statement.startsDeclared_of_read_element (solid_trim raw) made
  · intro text made other w given here
    rcases mem_warnings_iff.1 ((own w here).1 given) with tab | reported
    · exact eq_of_mem_tabWarning? tab
    · have silent : (read number raw).fallbackWarning? = none :=
        (fallbackWarning?_of_literal made).trans (if_neg (mt looksDeclared_iff.1 other))
      rw [silent] at reported
      cases reported

/-- The warnings of a compilation are those of the lines that count, in their order, for each
line at most one about tabs and then at most one about its content, and they tell of every
line what it is to be warned about. -/
theorem warnings_tell_each_line {raws : List Text} {document : Document}
    (compiled : compileLines raws = .ok document) :
    (document.warnings = (counted (readLines 1 raws)).flatMap fun line =>
      line.tabWarning?.toList ++ line.fallbackWarning?.toList) ∧
    (∀ line ∈ readLines 1 raws,
      (∀ w ∈ line.tabWarning?, w = .tabIndentation line.number) ∧
      ∀ w ∈ line.fallbackWarning?, w.line = line.number ∧ w.kind ≠ .tabIndentation) ∧
    (document.warnings.map Warning.line).Pairwise (· ≤ ·) ∧
    (document.warnings.map fun w => (w.line, w.kind)).Nodup ∧
    (∀ w ∈ document.warnings, ∃ index raw, raws[index]? = some raw ∧
      (Line.read (index + 1) raw).isIgnored = false ∧ w.line = index + 1) ∧
    ∀ index raw, raws[index]? = some raw → (Line.read (index + 1) raw).isIgnored = false →
      (Line.read (index + 1) raw).Reported document.warnings := by
  have all := warnings_of_compileLines compiled
  refine ⟨all, ?_, ?_, ?_, ?_, ?_⟩
  · intro line _
    exact ⟨fun w => Line.eq_of_mem_tabWarning?, fun w => Line.of_mem_fallbackWarning?⟩
  · rw [all, List.pairwise_map]
    refine pairwise_flatMap_warnings (pairwise_number_counted raws) ?_ fun _ _ => Nat.le_of_lt
    intro line _
    refine List.pairwise_of_forall_mem_list fun w given w' given' => Nat.le_of_eq ?_
    rw [Line.line_of_mem_warnings given, Line.line_of_mem_warnings given']
  · rw [all, List.Nodup, List.pairwise_map]
    refine pairwise_flatMap_warnings (pairwise_number_counted raws) ?_ ?_
    · intro line _
      refine (List.pairwise_map.1 line.nodup_kinds_warnings).imp ?_
      intro w w' apart same
      exact apart (congrArg Prod.snd same)
    · intro w w' before same
      exact Nat.ne_of_lt before (congrArg Prod.fst same)
  · intro w given
    obtain ⟨index, raw, found, counts, own⟩ := (mem_warnings_of_compileLines compiled).1 given
    exact ⟨index, raw, found, counts, Line.line_of_mem_warnings own⟩
  · intro index raw found counts
    exact Line.reported_of_mem_iff counts fun w =>
      mem_warnings_iff_of_line compiled found counts

theorem warnings_tell_each_line_list :
    ∃ document,
      compileLines (["%ul", "  -#\tnote", "  \t.a!", "#1"].map String.toList) = .ok document ∧
      document.warnings = [.tabIndentation 3, .literalFallback 3 ".a!".toList] ∧
      (Line.read 3 "  \t.a!".toList).Reported document.warnings ∧
      (Line.read 4 "#1".toList).Reported document.warnings := by
  have compiled : compileLines (["%ul", "  -#\tnote", "  \t.a!", "#1"].map String.toList) =
      .ok _ :=
    compileLines_of_run (Prod.ext rfl (by decide +kernel))
  obtain ⟨all, -, -, -, -, reported⟩ := warnings_tell_each_line compiled
  exact ⟨_, compiled, all.trans (by decide +kernel),
    reported 2 _ rfl (by decide +kernel), reported 3 _ rfl (by decide +kernel)⟩

end IndentMarkup
