import IndentMarkup.Text.Blank

/-! Words and names. A word is a run of ASCII letters; a name starts with an
ASCII letter and goes on with ASCII letters, digits, `_` and `-`. Both are read
as far as they go. -/
namespace IndentMarkup.Text

def word (s : Text) : Text := s.takeWhile Char.isAlpha

def afterWord (s : Text) : Text := s.dropWhile Char.isAlpha

theorem word_append_afterWord (s : Text) : word s ++ afterWord s = s :=
  List.takeWhile_append_dropWhile

def isNameChar (c : Char) : Bool := c.isAlphanum || c = '_' || c = '-'

/-- A name behind `mark`, and what comes after it. -/
def marked? (mark : Char) : Text → Option (Text × Text)
  | c :: first :: rest =>
    if c = mark ∧ first.isAlpha then
      some (first :: rest.takeWhile isNameChar, rest.dropWhile isNameChar)
    else none
  | _ => none

theorem eq_of_marked? {mark : Char} {s name rest : Text}
    (found : marked? mark s = some (name, rest)) : s = mark :: name ++ rest := by
  unfold marked? at found
  split at found
  · split at found
    next start =>
      simp only [Option.some.injEq, Prod.mk.injEq] at found
      obtain ⟨rfl, rfl⟩ := found
      simp [start.1, List.takeWhile_append_dropWhile]
    next => simp at found
  · simp at found

theorem length_lt_of_marked? {mark : Char} {s name rest : Text}
    (found : marked? mark s = some (name, rest)) : rest.length < s.length := by
  rw [eq_of_marked? found, List.cons_append, List.length_cons, List.length_append]
  omega

def optional (mark : Char) (s : Text) : Option Text × Text :=
  match marked? mark s with
  | some (name, rest) => (some name, rest)
  | none => (none, s)

def chain (mark : Char) (s : Text) : List Text × Text :=
  match found : marked? mark s with
  | some (name, rest) =>
    have := length_lt_of_marked? found
    let (names, after) := chain mark rest
    (name :: names, after)
  | none => ([], s)
termination_by s.length

end IndentMarkup.Text
