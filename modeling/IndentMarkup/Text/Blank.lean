/-! Texts and blank characters. A text is the list of its characters, so that
reading one is recursion on a list; blanks are the characters with the Unicode
property White_Space, wider than the five that `Char.isWhitespace` knows. -/
namespace IndentMarkup

abbrev Text := List Char

namespace Text

/-- The ranges of White_Space in increasing order, both ends included. -/
def blankRanges : List (Nat × Nat) :=
  [(0x09, 0x0D), (0x20, 0x20), (0x85, 0x85), (0xA0, 0xA0), (0x1680, 0x1680),
    (0x2000, 0x200A), (0x2028, 0x2029), (0x202F, 0x202F), (0x205F, 0x205F), (0x3000, 0x3000)]

def isBlank (c : Char) : Bool :=
  blankRanges.any fun (first, last) => first ≤ c.toNat && c.toNat ≤ last

def trimStart (s : Text) : Text := s.dropWhile isBlank

def trimEnd (s : Text) : Text := (s.reverse.dropWhile isBlank).reverse

def trim (s : Text) : Text := trimStart (trimEnd s)

def margin (s : Text) : Text := s.takeWhile isBlank

theorem margin_append_trimStart (s : Text) : margin s ++ trimStart s = s :=
  List.takeWhile_append_dropWhile

def startsBlank : Text → Bool
  | [] => false
  | c :: _ => isBlank c

def nonempty? (s : Text) : Option Text := if s.isEmpty then none else some s

theorem nonempty?_eq_some_iff {s t : Text} : nonempty? s = some t ↔ s = t ∧ t ≠ [] := by
  cases s with
  | nil => simp [nonempty?]
  | cons c s => simp [nonempty?]; rintro rfl; simp

end Text

end IndentMarkup
