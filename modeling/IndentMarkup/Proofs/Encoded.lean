import IndentMarkup.Line
import IndentMarkup.Proofs.Balance
import IndentMarkup.Proofs.Slice

/-! Lines read from their encoding. Here a line is a string, and what is read from it is
sliced at offsets that come from counting bytes, from sizes of strings and from the places of
characters. A function here is `none` if a slice is refused or a number would fall below
zero, and otherwise gives what the function of the same name for texts gives; that it never
is `none` is proved for one function after the other, up to whole lines and their warnings. -/
namespace IndentMarkup.Encoded

def trimStart (s : String) : String := .ofList (Text.trimStart s.toList)

def trimEnd (s : String) : String := .ofList (Text.trimEnd s.toList)

@[simp] theorem toList_trimStart (s : String) :
    (trimStart s).toList = Text.trimStart s.toList :=
  String.toList_ofList

@[simp] theorem toList_trimEnd (s : String) : (trimEnd s).toList = Text.trimEnd s.toList :=
  String.toList_ofList

def behind? (mark : Char) (s : String) : Option String :=
  match s.toList with
  | c :: rest => if c = mark then some (.ofList rest) else none
  | [] => none

theorem slice?_name (s : String) :
    slice? s 0 (runLength isNameByte s) = some (.ofList (s.toList.takeWhile Text.isNameChar)) := by
  rw [tests_isNameByte.runLength_eq_size]
  exact slice?_takeWhile Text.isNameChar s

theorem slice?_afterName (s : String) :
    slice? s (runLength isNameByte s) s.utf8ByteSize =
      some (.ofList (s.toList.dropWhile Text.isNameChar)) := by
  rw [tests_isNameByte.runLength_eq_size]
  exact slice?_dropWhile Text.isNameChar s

def marked? (mark : Char) (s : String) : Option (Option (Text × String)) :=
  match behind? mark s with
  | none => some none
  | some behind =>
    if behind.toList.head?.any Char.isAlpha then do
      let length := runLength isNameByte behind
      let name ← slice? behind 0 length
      let rest ← slice? behind length behind.utf8ByteSize
      return some (name.toList, rest)
    else some none

theorem marked?_eq (mark : Char) (s : String) :
    marked? mark s = some ((Text.marked? mark s.toList).map (Prod.map id String.ofList)) := by
  rw [marked?, behind?]
  cases s.toList with
  | nil => rfl
  | cons c rest =>
    by_cases same : c = mark
    · subst same
      simp only [if_true, String.toList_ofList, slice?_name, slice?_afterName]
      cases rest with
      | nil => rfl
      | cons first rest =>
        by_cases letter : first.isAlpha = true
        · have name := Text.isNameChar_of_isAlpha letter
          simp [Text.marked?, letter, name]
        · simp [Text.marked?, letter]
    · rw [Text.marked?_eq_none (Text.off_cons.2 (decide_eq_false same))]
      simp [same]

def optional? (mark : Char) (s : String) : Option (Option Text × String) := do
  match ← marked? mark s with
  | some (name, rest) => return (some name, rest)
  | none => return (none, s)

theorem optional?_eq (mark : Char) (s : String) :
    optional? mark s = some (Prod.map id String.ofList (Text.optional mark s.toList)) := by
  rw [optional?, marked?_eq, Text.optional]
  cases Text.marked? mark s.toList with
  | none => simp
  | some found => rfl

theorem length_lt_of_marked? {mark : Char} {s rest : String} {name : Text}
    (found : marked? mark s = some (some (name, rest))) :
    rest.toList.length < s.toList.length := by
  rw [marked?_eq, Option.some.injEq, Option.map_eq_some_iff] at found
  obtain ⟨⟨name, after⟩, marked, made⟩ := found
  obtain ⟨rfl, rfl⟩ := Prod.mk.inj made
  rw [String.toList_ofList]
  exact Text.length_lt_of_marked? marked

def chain? (mark : Char) (s : String) : Option (List Text × String) :=
  match found : marked? mark s with
  | none => none
  | some none => some ([], s)
  | some (some (name, rest)) =>
    have := length_lt_of_marked? found
    (chain? mark rest).map fun (names, after) => (name :: names, after)
termination_by s.toList.length

theorem chain?_ofList (mark : Char) (s : Text) :
    chain? mark (.ofList s) = some (Prod.map id String.ofList (Text.chain mark s)) := by
  -- The induction is on the chain of the text, and the name met first is the same in both.
  fun_induction Text.chain mark s with
  | case1 s name rest marked shorter names after eq ih =>
    have found := marked?_eq mark (.ofList s)
    rw [String.toList_ofList, marked, Option.map_some] at found
    rw [chain?]
    split
    next refused => cases found.symm.trans refused
    next missing => cases found.symm.trans missing
    next here =>
      cases found.symm.trans here
      rw [eq] at ih
      simp [ih]
  | case2 s marked =>
    have found := marked?_eq mark (.ofList s)
    rw [String.toList_ofList, marked, Option.map_none] at found
    rw [chain?]
    split
    next refused => cases found.symm.trans refused
    next => rfl
    next here => cases found.symm.trans here

theorem chain?_eq (mark : Char) (s : String) :
    chain? mark s = some (Prod.map id String.ofList (Text.chain mark s.toList)) := by
  rw [← chain?_ofList, String.ofList_toList]

/-- The offset of the parenthesis that closes the last one open, if the scan comes to it;
`offset` is that of the character the scan stands at. -/
def endFrom? (scan : Scan) (offset : Nat) : Text → Option (Option Nat)
  | [] => some none
  | c :: rest => (scan.step? c).bind fun next =>
    if scan.depth ≠ 0 ∧ next.depth = 0 then some (some offset)
    else endFrom? next (offset + c.utf8Size) rest

def groupEnd? (s : String) : Option (Option Nat) := endFrom? ⟨0, none⟩ 0 s.toList

theorem endFrom?_eq {scan : Scan} (start : scan.depth ≠ 0) (offset : Nat) (s : Text) :
    endFrom? scan offset s =
      some ((scan.splitFrom [] s).map fun (raw, _) =>
        offset + (String.ofList raw).utf8ByteSize) := by
  induction s generalizing scan offset with
  | nil => rfl
  | cons c s ih =>
    have next : scan.step? c = some (scan.step c) := if_neg fun refused => start refused.2.2
    rw [endFrom?, next, Option.bind_some, Scan.splitFrom]
    by_cases here : (scan.step c).depth = 0
    · simp [here, start]
    · rw [if_neg (fun both => here both.2), if_neg here, ih here, Scan.splitFrom_before _ [c]]
      simp [String.ofList_cons, Function.comp_def, Nat.add_assoc]

theorem groupEnd?_eq {s : String} (opens : s.toList.head? = some '(') :
    groupEnd? s =
      some ((splitGroup? s.toList).map fun (raw, _) =>
        (String.ofList ('(' :: raw)).utf8ByteSize) := by
  obtain ⟨rest, spelled⟩ := List.head?_eq_some_iff.1 opens
  have first : endFrom? ⟨0, none⟩ 0 ('(' :: rest) = endFrom? ⟨1, none⟩ 1 rest := rfl
  have size (raw : Text) : 1 + (String.ofList raw).utf8ByteSize =
      (String.ofList ('(' :: raw)).utf8ByteSize := by
    rw [String.ofList_cons, String.utf8ByteSize_append]
    rfl
  rw [groupEnd?, spelled, first, endFrom?_eq Nat.one_ne_zero, splitGroup?, if_pos rfl]
  simp only [size]

theorem groupEnd?_eq_some_iff {s : String} (opens : s.toList.head? = some '(') {last : Nat} :
    groupEnd? s = some (some last) ↔ ∃ raw rest, Parenthesized raw ∧
      s.toList = '(' :: (raw ++ ')' :: rest) ∧
      last = (String.ofList ('(' :: raw)).utf8ByteSize := by
  rw [groupEnd?_eq opens, Option.some.injEq, Option.map_eq_some_iff]
  constructor
  · rintro ⟨⟨raw, rest⟩, found, rfl⟩
    obtain ⟨closes, spelled⟩ := splitGroup?_eq_some_iff.1 found
    exact ⟨raw, rest, encloses_iff_parenthesized.1 closes, spelled, rfl⟩
  · rintro ⟨raw, rest, closes, spelled, rfl⟩
    have found := splitGroup?_eq_some_iff.2 ⟨encloses_iff_parenthesized.2 closes, spelled⟩
    exact ⟨(raw, rest), found, rfl⟩

theorem slice?_group {s : String} {raw rest : Text}
    (spelled : s.toList = '(' :: (raw ++ ')' :: rest)) :
    slice? s 1 (String.ofList ('(' :: raw)).utf8ByteSize = some (.ofList raw) ∧
      slice? s ((String.ofList ('(' :: raw)).utf8ByteSize + 1) s.utf8ByteSize =
        some (.ofList rest) := by
  obtain rfl : s = .ofList ('(' :: (raw ++ ')' :: rest)) := by
    rw [← spelled, String.ofList_toList]
  have parts : '(' :: (raw ++ ')' :: rest) = '(' :: (raw ++ [')']) ++ rest := by simp
  have one : (String.ofList [')']).utf8ByteSize = 1 := rfl
  constructor
  · have cut := slice?_append (.ofList ['(']) (.ofList raw) (.ofList (')' :: rest))
    rwa [← String.ofList_append, ← String.ofList_append] at cut
  · have cut := slice?_back (.ofList ('(' :: raw) ++ .ofList [')']) (.ofList rest)
    rwa [String.utf8ByteSize_append, one, ← String.ofList_append, ← String.ofList_append,
      List.cons_append, ← parts] at cut

def trimmedGroup? (s : String) : Option (Option (Text × String)) := do
  match ← groupEnd? s with
  | none => return none
  | some last =>
    let raw ← slice? s 1 last
    let rest ← slice? s (last + 1) s.utf8ByteSize
    return some (Text.trim raw.toList, rest)

theorem trimmedGroup?_eq {s : String} (opens : s.toList.head? = some '(') :
    trimmedGroup? s =
      some ((IndentMarkup.trimmedGroup? s.toList).map (Prod.map id String.ofList)) := by
  rw [trimmedGroup?, groupEnd?_eq opens, IndentMarkup.trimmedGroup?]
  cases found : splitGroup? s.toList with
  | none => rfl
  | some parts =>
    obtain ⟨inside, after⟩ := slice?_group (splitGroup?_eq_some_iff.1 found).2
    simp only [Option.map_some, Option.bind_eq_bind, Option.bind_some, inside, after]
    rw [String.toList_ofList]
    rfl

example : trimmedGroup? "(é ')')ü" = some (some ("é ')'".toList, "ü")) := by
  decide +kernel

def readAttributes? (s : String) : Option (Option (Option Text × String)) :=
  if s.toList.head? = some '(' then do
    return (← trimmedGroup? s).map fun (inner, rest) => (Text.nonempty? inner, rest)
  else some (some (none, s))

theorem readAttributes?_eq (s : String) :
    readAttributes? s =
      some ((Element.readAttributes? s.toList).map (Prod.map id String.ofList)) := by
  rw [readAttributes?]
  by_cases opens : s.toList.head? = some '('
  · obtain ⟨rest, spelled⟩ := List.head?_eq_some_iff.1 opens
    rw [if_pos opens, trimmedGroup?_eq opens, spelled, readAttributes?_eq_trimmedGroup?]
    simp [Function.comp_def]
  · rw [if_neg opens, Element.readAttributes?, if_neg opens]
    simp

def readElement? (s : String) : Option (Option Statement) := do
  let (tag, afterTag) ← optional? '%' s
  let (id, afterId) ← optional? '#' afterTag
  let (classes, afterClasses) ← chain? '.' afterId
  if tag.isNone && id.isNone && classes.isEmpty then return none
  else match ← readAttributes? afterClasses with
    | none => return none
    | some (attributes, rest) =>
      let e : Element := ⟨tag.getD Element.defaultTag, id, classes, attributes⟩
      return (Body.read? rest.toList).map (.element e)

theorem readElement?_eq (s : String) :
    readElement? s = some (Statement.readElement? s.toList) := by
  rw [readElement?, Statement.readElement?, Element.read?]
  simp only [optional?_eq, chain?_eq, readAttributes?_eq, Option.bind_eq_bind, Option.bind_some,
    Prod.map_fst, Prod.map_snd, id_eq, String.toList_ofList]
  split
  · rfl
  · generalize Element.readAttributes? _ = found
    cases found with
    | none => rfl
    | some parts =>
      simp only [Option.map_some, Option.bind_some, Prod.map_fst, Prod.map_snd, id_eq,
        String.toList_ofList]
      cases Body.read? parts.2 <;> rfl

def word? (code : String) : Option String := slice? code 0 (runLength isLetterByte code)

theorem word?_eq (code : String) : word? code = some (.ofList (Text.word code.toList)) := by
  rw [word?, tests_isLetterByte.runLength_eq_size]
  exact slice?_takeWhile Char.isAlpha code

theorem slice?_afterWord (code : String) :
    slice? code (String.ofList (Text.word code.toList)).utf8ByteSize code.utf8ByteSize =
      some (.ofList (Text.afterWord code.toList)) :=
  slice?_dropWhile Char.isAlpha code

def readBlock? (s : String) : Option (Option Statement) :=
  match behind? '-' s with
  | none => some none
  | some rest => do
    let code := trimStart rest
    let word ← word? code
    match Keyword.ofWord? word.toList with
    | none => return none
    | some keyword =>
      let after ← slice? code word.utf8ByteSize code.utf8ByteSize
      return do
        let condition ← Statement.enclosed? (Text.trimStart after.toList)
        return .block keyword (← Text.nonempty? (Text.trim condition))

theorem readBlock?_eq (s : String) : readBlock? s = some (Statement.readBlock? s.toList) := by
  rw [readBlock?, behind?]
  cases s.toList with
  | nil => rfl
  | cons c rest =>
    by_cases dash : c = '-'
    · subst dash
      have after := slice?_afterWord (trimStart (.ofList rest))
      simp only [toList_trimStart, String.toList_ofList] at after
      simp only [if_true, word?_eq, Option.bind_eq_bind, Option.bind_some, toList_trimStart,
        String.toList_ofList, Statement.readBlock?]
      cases Keyword.ofWord? (Text.trimStart rest).word with
      | none => rfl
      | some keyword =>
        simp only [after, Option.bind_some, String.toList_ofList]
        rfl
    · simp [Statement.readBlock?, dash]

def whole (rule : Text → Option Statement) (s : String) : Option (Option Statement) :=
  some (rule s.toList)

def rules : List (String → Option (Option Statement)) :=
  [whole Statement.readIgnored?, whole Statement.readDoctype?, whole Statement.readComment?,
    readElement?, readBlock?, whole Statement.readCode?, whole Statement.readEcho?]

theorem rules_eq : rules = Statement.rules.map whole := by
  have element : readElement? = whole Statement.readElement? := funext readElement?_eq
  have block : readBlock? = whole Statement.readBlock? := funext readBlock?_eq
  rw [rules, element, block]
  rfl

theorem findSomeM?_whole (rules : List (Text → Option Statement)) (s : String) :
    (rules.map whole).findSomeM? (· s) = some (rules.findSome? (· s.toList)) := by
  induction rules with
  | nil => rfl
  | cons rule rules ih =>
    rw [List.map_cons, List.findSomeM?_cons, List.findSome?_cons, ih, whole]
    cases rule s.toList <;> rfl

def readStatement? (s : String) : Option Statement := do
  return (← rules.findSomeM? (· s)).getD (.literal s.toList)

theorem readStatement?_eq (s : String) : readStatement? s = some (Statement.read s.toList) := by
  rw [readStatement?, rules_eq, findSomeM?_whole]
  rfl

def readLine? (number : Nat) (raw : String) : Option Line := do
  let kept := trimEnd raw
  let content := trimStart kept
  let statement ← readStatement? content
  return {
    number, statement
    raw := raw.toList
    leadingSpaces := runLength isSpaceByte kept
    content := content.toList }

theorem readLine?_eq (number : Nat) (raw : String) :
    readLine? number raw = some (Line.read number raw.toList) := by
  rw [readLine?, readStatement?_eq, tests_isSpaceByte.runLength_eq_length]
  simp only [toList_trimStart, toList_trimEnd]
  rfl

/-- The offset of the content, from the size of the line and the size it has without its
margin. -/
def contentStart? (raw : String) : Option Nat :=
  let rest := trimStart raw
  if rest.utf8ByteSize ≤ raw.utf8ByteSize then some (raw.utf8ByteSize - rest.utf8ByteSize)
  else none

theorem contentStart?_eq (raw : String) :
    contentStart? raw = some (String.ofList (Text.margin raw.toList)).utf8ByteSize := by
  have parts : (String.ofList (Text.margin raw.toList)).utf8ByteSize +
      (trimStart raw).utf8ByteSize = raw.utf8ByteSize := by
    rw [← String.utf8ByteSize_append]
    exact congrArg String.utf8ByteSize (ofList_takeWhile_append Text.isBlank raw)
  rw [contentStart?, if_pos (by omega), ← parts, Nat.add_sub_cancel]

theorem slice?_margin (raw : String) :
    slice? raw 0 (String.ofList (Text.margin raw.toList)).utf8ByteSize =
      some (.ofList (Text.margin raw.toList)) :=
  slice?_takeWhile Text.isBlank raw

def tabWarning? (line : Line) : Option (Option Warning) := do
  let raw := String.ofList line.raw
  let margin ← slice? raw 0 (← contentStart? raw)
  return if margin.toList.contains '\t' then some (.tabIndentation line.number) else none

theorem tabWarning?_eq (line : Line) : tabWarning? line = some line.tabWarning? := by
  rw [tabWarning?, contentStart?_eq]
  simp only [Option.bind_eq_bind, Option.bind_some]
  rw [slice?_margin, Option.bind_some, String.toList_ofList, String.toList_ofList]
  rfl

def fallbackWarning? (line : Line) : Option (Option Warning) :=
  match line.statement with
  | .literal _ =>
    some (if Line.looksDeclared line.content then
      some (.literalFallback line.number line.content) else none)
  | .code _ => do
    let keyword ← word? (trimStart (.ofList (line.content.dropWhile (· = '-'))))
    return if Line.isControlWord keyword.toList then
      some (.unsupportedControl line.number keyword.toList) else none
  | _ => some none

theorem fallbackWarning?_eq (line : Line) :
    fallbackWarning? line = some line.fallbackWarning? := by
  rw [fallbackWarning?, Line.fallbackWarning?]
  cases line.statement with
  | code source =>
    simp only [word?_eq, toList_trimStart, String.toList_ofList, Option.bind_eq_bind,
      Option.bind_some]
    rfl
  | _ => rfl

def warnings? (line : Line) : Option (List Warning) := do
  let tab ← tabWarning? line
  let fallback ← fallbackWarning? line
  return tab.toList ++ fallback.toList

theorem warnings?_eq (line : Line) : warnings? line = some line.warnings := by
  rw [warnings?, tabWarning?_eq, fallbackWarning?_eq]
  rfl

/-- The slices of a string, and the cuts between its characters that they are. -/
structure Cuts (s : String) : Prop where
  slices : ∀ first last part, slice? s first last = some part ↔
    ∃ front back, s = front ++ part ++ back ∧
      first = front.utf8ByteSize ∧ last = (front ++ part).utf8ByteSize
  name : slice? s 0 (runLength isNameByte s) = some (.ofList (s.toList.takeWhile Text.isNameChar))
  afterName : slice? s (runLength isNameByte s) s.utf8ByteSize =
    some (.ofList (s.toList.dropWhile Text.isNameChar))
  word : slice? s 0 (runLength isLetterByte s) = some (.ofList (Text.word s.toList))
  afterWord : slice? s (String.ofList (Text.word s.toList)).utf8ByteSize s.utf8ByteSize =
    some (.ofList (Text.afterWord s.toList))
  group : s.toList.head? = some '(' → ∃ found, groupEnd? s = some found ∧
    ∀ last, found = some last ↔ ∃ raw rest, Parenthesized raw ∧
      s.toList = '(' :: (raw ++ ')' :: rest) ∧
      last = (String.ofList ('(' :: raw)).utf8ByteSize ∧
      slice? s 1 last = some (.ofList raw) ∧
      slice? s (last + 1) s.utf8ByteSize = some (.ofList rest)
  margin : ∃ start, contentStart? s = some start ∧
    slice? s 0 start = some (.ofList (Text.margin s.toList))
  spaces : runLength isSpaceByte s = (s.toList.takeWhile (· = ' ')).length

theorem cuts (s : String) : Cuts s where
  slices _ _ _ := slice?_eq_some_iff
  name := slice?_name s
  afterName := slice?_afterName s
  word := word?_eq s
  afterWord := slice?_afterWord s
  group opens := by
    refine ⟨_, groupEnd?_eq opens, fun last => ?_⟩
    rw [← Option.some.injEq, ← groupEnd?_eq opens, groupEnd?_eq_some_iff opens]
    constructor
    · rintro ⟨raw, rest, closes, spelled, rfl⟩
      exact ⟨raw, rest, closes, spelled, rfl, slice?_group spelled⟩
    · rintro ⟨raw, rest, closes, spelled, size, -⟩
      exact ⟨raw, rest, closes, spelled, size⟩
  margin := ⟨_, contentStart?_eq s, slice?_margin s⟩
  spaces := tests_isSpaceByte.runLength_eq_length s

/-- Every slice that is taken to read a line and then to tell its warnings lies between
characters, so reading the encoding of a line comes to the same as reading its characters. -/
theorem cuts_between_characters :
    (∀ s, Cuts s) ∧
    ∀ (number : Nat) (raw : String),
      readLine? number raw = some (Line.read number raw.toList) ∧
      (readLine? number raw).bind warnings? = some (Line.read number raw.toList).warnings := by
  refine ⟨cuts, fun number raw => ⟨readLine?_eq number raw, ?_⟩⟩
  rw [readLine?_eq, Option.bind_some]
  exact warnings?_eq _

end IndentMarkup.Encoded
