import IndentMarkup.Text.Lines

/-! Entries of an assembled document: one piece of markup and the level it
stands at. A document is written one entry to a line, two spaces to a level. -/
namespace IndentMarkup

structure Entry where
  level : Nat
  text : Text
  deriving DecidableEq, Repr

namespace Entry

def line (entry : Entry) : Text := List.replicate (2 * entry.level) ' ' ++ entry.text

def render (entries : List Entry) : Text := Text.unlines (entries.map line)

@[simp] theorem render_nil : render [] = [] := rfl

@[simp] theorem render_singleton (entry : Entry) : render [entry] = entry.line := by
  simp [render, Text.unlines]

theorem render_cons_cons (first second : Entry) (rest : List Entry) :
    render (first :: second :: rest) = first.line ++ '\n' :: render (second :: rest) := by
  simp [render, Text.unlines, List.intercalate]

end Entry

end IndentMarkup
