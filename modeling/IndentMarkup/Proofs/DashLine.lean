import IndentMarkup.Line
import IndentMarkup.Proofs.Declaration
import IndentMarkup.Proofs.Origin

/-! Lines that start with a dash. Unless a hash follows, such a line is a block if it
spells one, that is a keyword and a condition enclosed from the first parenthesis behind
the keyword to the end of the line; it is code if it does not and there is something
behind the dash. -/
namespace IndentMarkup
open Text

theorem Text.Off.isAlpha {s : Text} (off : Off isNameChar s) : Off Char.isAlpha s := by
  intro c first
  have other := off c first
  cases alpha : c.isAlpha with
  | false => rfl
  | true => rw [isNameChar_of_isAlpha alpha] at other; cases other

theorem Keyword.isAlpha_of_mem_word (keyword : Keyword) :
    ∀ c ∈ keyword.word, c.isAlpha = true := by
  have all : keyword.word.all Char.isAlpha = true := by cases keyword <;> decide
  exact List.all_eq_true.1 all

theorem Keyword.off_word_append (keyword : Keyword) {p : Char → Bool}
    (apart : ∀ c, p c = true → c.isAlpha = false) (rest : Text) : Off p (keyword.word ++ rest) := by
  intro c first
  have letter : c.isAlpha = true := by
    cases keyword <;> exact (Option.some.inj first) ▸ rfl
  cases member : p c with
  | false => rfl
  | true => rw [apart c member] at letter; cases letter

theorem Text.isAlpha_eq_false_of_isBlank {c : Char} (blank : isBlank c = true) :
    c.isAlpha = false := by
  cases alpha : c.isAlpha with
  | false => rfl
  | true =>
    rw [isBlank_eq_false_of_isNameChar (isNameChar_of_isAlpha alpha)] at blank
    cases blank

/-- The parts of a line with a block: blanks, a keyword, blanks, and between parentheses
whatever stands there up to the end. -/
structure BlockLine where
  lead : Gap
  keyword : Keyword
  gap : Gap
  body : Text
  given : trim body ≠ []

namespace BlockLine

def group (b : BlockLine) : Text := '(' :: (b.body ++ [')'])

def spelling (b : BlockLine) : Text :=
  '-' :: (b.lead.val ++ (b.keyword.word ++ (b.gap.val ++ b.group)))

def statement (b : BlockLine) : Statement := .block b.keyword (trim b.body)

end BlockLine

namespace Statement

theorem enclosed?_eq_some_iff {s inside : Text} :
    enclosed? s = some inside ↔ s = '(' :: (inside ++ [')']) := by
  constructor
  · intro found
    unfold enclosed? at found
    split at found
    next rest =>
      split at found
      next closed =>
        obtain ⟨inside', rfl⟩ := List.getLast?_eq_some_iff.1 closed
        rw [← Option.some.inj found, List.dropLast_concat]
      next => cases found
    next => cases found
  · rintro rfl
    simp [enclosed?]

theorem readBlock?_dash {lead gap : Text} (blank : ∀ c ∈ lead, isBlank c = true)
    (apart : ∀ c ∈ gap, isBlank c = true) (keyword : Keyword) {behind : Text}
    (opening : behind.head? = some '(') :
    readBlock? ('-' :: (lead ++ (keyword.word ++ (gap ++ behind)))) =
      ((enclosed? behind).bind fun inside => nonempty? (trim inside)).map (block keyword) := by
  obtain ⟨rest, rfl⟩ := List.head?_eq_some_iff.1 opening
  have start : trimStart (lead ++ (keyword.word ++ (gap ++ '(' :: rest))) =
      keyword.word ++ (gap ++ '(' :: rest) :=
    (keyword.off_word_append (fun _ => isAlpha_eq_false_of_isBlank) _).dropWhile_append blank
  have other : ['('].any isNameChar = false := by decide
  have ends : Off Char.isAlpha (gap ++ '(' :: rest) :=
    ((starts_append apart starts_cons).off_isNameChar other).isAlpha
  have first : word (keyword.word ++ (gap ++ '(' :: rest)) = keyword.word :=
    ends.takeWhile_append keyword.isAlpha_of_mem_word
  have after : afterWord (keyword.word ++ (gap ++ '(' :: rest)) = gap ++ '(' :: rest :=
    ends.dropWhile_append keyword.isAlpha_of_mem_word
  have group : trimStart (gap ++ '(' :: rest) = '(' :: rest :=
    (off_cons.2 (by decide) : Off isBlank ('(' :: rest)).dropWhile_append apart
  simp only [readBlock?, start, first, after, group, Keyword.ofWord?_word, Option.bind_eq_bind,
    Option.bind_some]
  cases enclosed? ('(' :: rest) with
  | none => rfl
  | some inside =>
    rw [Option.bind_some, Option.bind_some]
    cases nonempty? (trim inside) <;> rfl

theorem readBlock?_spelling (b : BlockLine) : readBlock? b.spelling = some b.statement := by
  have found : enclosed? b.group = some b.body := enclosed?_eq_some_iff.2 rfl
  have filled : nonempty? (trim b.body) = some (trim b.body) :=
    nonempty?_eq_some_iff.2 ⟨rfl, b.given⟩
  rw [BlockLine.spelling, readBlock?_dash b.lead.2 b.gap.2 b.keyword rfl, found, Option.bind_some,
    filled]
  rfl

theorem exists_blockLine_of_readBlock? {s : Text} {statement : Statement}
    (found : readBlock? s = some statement) :
    ∃ b : BlockLine, b.spelling = s ∧ b.statement = statement := by
  unfold readBlock? at found
  split at found
  next rest =>
    simp only [Option.bind_eq_bind, Option.bind_eq_some_iff] at found
    obtain ⟨keyword, known, inside, enclosed, condition, filled, made⟩ := found
    obtain ⟨rfl, given⟩ := nonempty?_eq_some_iff.1 filled
    refine ⟨⟨⟨margin rest, fun _ => isBlank_of_mem_margin⟩, keyword,
      ⟨margin (afterWord (trimStart rest)), fun _ => isBlank_of_mem_margin⟩, inside, given⟩,
      ?_, Option.some.inj made⟩
    simp only [BlockLine.spelling, BlockLine.group, ← enclosed?_eq_some_iff.1 enclosed,
      Keyword.word_of_ofWord? known, margin_append_trimStart, word_append_afterWord]
  next => cases found

theorem off_hash_behind_dash {lead : Text} (blank : ∀ c ∈ lead, isBlank c = true)
    (keyword : Keyword) (rest : Text) : Off (· = '#') (lead ++ (keyword.word ++ rest)) := by
  cases lead with
  | nil =>
    refine keyword.off_word_append (fun c hash => ?_) rest
    rw [of_decide_eq_true hash]
    rfl
  | cons c lead =>
    refine off_cons.2 (decide_eq_false ?_)
    rintro rfl
    exact absurd (blank '#' List.mem_cons_self) (by decide)

theorem read_dash {rest : Text} (heard : Off (· = '#') rest) :
    read ('-' :: rest) =
      ((readBlock? ('-' :: rest)).or (readCode? ('-' :: rest))).getD (literal ('-' :: rest)) := by
  have ignored : readIgnored? ('-' :: rest) = none := by
    cases rest with
    | nil => rfl
    | cons c rest =>
      have other : '#' ≠ c := fun same => by simp [← same] at heard
      simp [readIgnored?, other]
  have doctype : readDoctype? ('-' :: rest) = none := rfl
  have comment : readComment? ('-' :: rest) = none := rfl
  have element : readElement? ('-' :: rest) = none := by
    have refused : Element.read? ('-' :: rest) = none := by
      apply Element.read?_eq_none <;> exact off_cons.2 (by decide)
    rw [readElement?, refused]
    rfl
  have echo : readEcho? ('-' :: rest) = none := rfl
  simp only [read, rules, List.findSome?_cons, List.findSome?_nil, ignored, doctype, comment,
    element, echo]
  cases readBlock? ('-' :: rest) with
  | some statement => rfl
  | none => cases readCode? ('-' :: rest) <;> rfl

def isCoded : Statement → Bool
  | block _ _ => true
  | code _ => true
  | _ => false

theorem exists_dash_of_isCoded {s : Text} (coded : (read s).isCoded = true) :
    ∃ rest, s = '-' :: rest ∧ Off (· = '#') rest := by
  have dash : ∃ rest, s = '-' :: rest := by
    have origin := origin_read s
    cases made : read s with
    | block keyword condition =>
      rw [made] at origin
      obtain ⟨b, rfl, -⟩ := exists_blockLine_of_readBlock? origin
      exact ⟨_, rfl⟩
    | code source =>
      rw [made] at origin
      obtain ⟨rest, spelled, -⟩ := origin
      exact ⟨rest, spelled⟩
    | _ =>
      rw [made] at coded
      cases coded
  obtain ⟨rest, rfl⟩ := dash
  refine ⟨rest, rfl, off_char fun comment silent => ?_⟩
  have ignored : read ('-' :: '#' :: comment) = .ignored := rfl
  rw [silent, ignored] at coded
  cases coded

theorem read_eq_block_iff {s : Text} {keyword : Keyword} {condition : Text} :
    read s = .block keyword condition ↔
      ∃ b : BlockLine, b.spelling = s ∧ b.statement = .block keyword condition := by
  constructor
  · intro made
    have coded : (read s).isCoded = true := by rw [made]; rfl
    obtain ⟨rest, rfl, heard⟩ := exists_dash_of_isCoded coded
    rw [read_dash heard] at made
    cases found : readBlock? ('-' :: rest) with
    | some statement =>
      obtain rfl : statement = .block keyword condition := by simpa [found] using made
      exact exists_blockLine_of_readBlock? found
    | none =>
      simp only [found, Option.none_or, readCode?] at made
      cases filled : nonempty? (trim rest) <;> simp [filled] at made
  · rintro ⟨b, rfl, made⟩
    have heard := off_hash_behind_dash b.lead.2 b.keyword (b.gap.val ++ b.group)
    rw [← made, BlockLine.spelling, read_dash heard, ← BlockLine.spelling, readBlock?_spelling]
    rfl

theorem read_eq_code_iff {s source : Text} :
    read s = .code source ↔
      ∃ rest, s = '-' :: rest ∧ Off (· = '#') rest ∧ readBlock? s = none ∧
        trim rest = source ∧ source ≠ [] := by
  constructor
  · intro made
    have coded : (read s).isCoded = true := by rw [made]; rfl
    obtain ⟨rest, rfl, heard⟩ := exists_dash_of_isCoded coded
    refine ⟨rest, rfl, heard, ?_⟩
    rw [read_dash heard] at made
    cases found : readBlock? ('-' :: rest) with
    | some statement =>
      obtain ⟨b, -, rfl⟩ := exists_blockLine_of_readBlock? found
      simp [found, BlockLine.statement] at made
    | none =>
      refine ⟨rfl, ?_⟩
      simp only [found, Option.none_or, readCode?] at made
      cases filled : nonempty? (trim rest) with
      | none => simp [filled] at made
      | some text =>
        simp only [filled, Option.map_some, Option.getD_some, code.injEq] at made
        subst made
        exact nonempty?_eq_some_iff.1 filled
  · rintro ⟨rest, rfl, heard, refused, rfl, given⟩
    have filled : nonempty? (trim rest) = some (trim rest) := nonempty?_eq_some_iff.2 ⟨rfl, given⟩
    rw [read_dash heard, refused, Option.none_or, readCode?, filled]
    rfl

end Statement

end IndentMarkup
