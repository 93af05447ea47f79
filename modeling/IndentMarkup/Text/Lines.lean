import IndentMarkup.Text.Blank

/-! Division of a text into lines. A newline ends a line, together with one
carriage return directly before it; no other character does, and what follows
the last newline is a line only if something is there. -/
namespace IndentMarkup.Text

/-- The line read so far is kept in reverse, so its last character is in front. -/
def endLine : Text → Text
  | '\r' :: current => current.reverse
  | current => current.reverse

def linesFrom (current : Text) : Text → List Text
  | [] => if current.isEmpty then [] else [current.reverse]
  | c :: rest =>
    if c = '\n' then endLine current :: linesFrom [] rest else linesFrom (c :: current) rest

def lines (s : Text) : List Text := linesFrom [] s

@[simp] theorem lines_nil : lines [] = [] := rfl

theorem linesFrom_append {line : Text} (plain : '\n' ∉ line) (current rest : Text) :
    linesFrom current (line ++ rest) = linesFrom (line.reverse ++ current) rest := by
  induction line generalizing current with
  | nil => rfl
  | cons c line ih =>
    have other : c ≠ '\n' := fun h => plain (h ▸ List.mem_cons_self)
    have tail : '\n' ∉ line := fun h => plain (List.mem_cons_of_mem c h)
    simp [linesFrom, other, ih tail]

theorem lines_newline {line : Text} (plain : '\n' ∉ line) (rest : Text) :
    lines (line ++ '\n' :: rest) = endLine line.reverse :: lines rest := by
  simp [lines, linesFrom_append plain, linesFrom]

def unlines (ls : List Text) : Text := ['\n'].intercalate ls

end IndentMarkup.Text
