import IndentMarkup.Proofs.Text
import IndentMarkup.Text.Lines

/-! Lines and the text they are joined to. No line holds a newline, and lines that
hold none come back from the text they are joined to, unless they are cut short:
at the end of a line a carriage return can fall away, and an empty line at the end
of the text does. -/
namespace IndentMarkup.Text

theorem endLine_reverse (line : Text) :
    endLine line.reverse = line ∨ endLine line.reverse ++ ['\r'] = line := by
  unfold endLine
  split
  next current cut =>
    right
    rw [← List.reverse_cons, ← cut, List.reverse_reverse]
  next => exact .inl line.reverse_reverse

theorem Solid.endLine_eq {line : Text} (solid : Solid line) : endLine line.reverse = line := by
  rcases endLine_reverse line with whole | cut
  · exact whole
  · have last : line.getLast? = some '\r' := by rw [← cut, List.getLast?_concat]
    have shown := solid '\r' last
    simp [show isBlank '\r' = true by decide] at shown

theorem not_mem_endLine {current : Text} (plain : '\n' ∉ current) : '\n' ∉ endLine current := by
  unfold endLine
  split <;> simp_all

theorem not_mem_of_mem_linesFrom {s current line : Text} (plain : '\n' ∉ current)
    (member : line ∈ linesFrom current s) : '\n' ∉ line := by
  induction s generalizing current with
  | nil =>
    rw [linesFrom] at member
    split at member
    · cases member
    · rw [List.mem_singleton.1 member]
      simpa using plain
  | cons c s ih =>
    rw [linesFrom] at member
    split at member
    · rcases List.mem_cons.1 member with rfl | later
      · exact not_mem_endLine plain
      · exact ih List.not_mem_nil later
    next other =>
      refine ih ?_ member
      simp [plain, Ne.symm other]

theorem not_mem_of_mem_lines {s line : Text} (member : line ∈ lines s) : '\n' ∉ line :=
  not_mem_of_mem_linesFrom List.not_mem_nil member

theorem lines_of_plain {line : Text} (plain : '\n' ∉ line) :
    lines line = if line = [] then [] else [line] := by
  have whole := linesFrom_append plain [] []
  simp only [List.append_nil] at whole
  simp [lines, whole, linesFrom]

@[simp] theorem unlines_singleton (line : Text) : unlines [line] = line := by
  simp [unlines]

theorem unlines_cons_cons (first second : Text) (rest : List Text) :
    unlines (first :: second :: rest) = first ++ '\n' :: unlines (second :: rest) := by
  simp [unlines, List.intercalate]

theorem lines_unlines {ls : List Text} (plain : ∀ line ∈ ls, '\n' ∉ line)
    (solid : ∀ line ∈ ls, line ≠ [] ∧ Solid line) : lines (unlines ls) = ls := by
  induction ls with
  | nil => rfl
  | cons first ls ih =>
    obtain ⟨firstPlain, plain⟩ := List.forall_mem_cons.1 plain
    obtain ⟨⟨given, firstSolid⟩, solid⟩ := List.forall_mem_cons.1 solid
    cases ls with
    | nil => rw [unlines_singleton, lines_of_plain firstPlain, if_neg given]
    | cons second ls =>
      rw [unlines_cons_cons, lines_newline firstPlain, firstSolid.endLine_eq, ih plain solid]

end IndentMarkup.Text
