import IndentMarkup.Proofs.Emission

/-! Templates after each other. The first line of a template that counts stands at
level zero and closes whatever is open before it, so templates that compile also
compile after each other, to their documents after each other. -/
namespace IndentMarkup

theorem Entry.render_append {first second : List Entry} (given : first ≠ [])
    (given' : second ≠ []) :
    render (first ++ second) = render first ++ '\n' :: render second := by
  induction first with
  | nil => contradiction
  | cons entry first ih =>
    cases first with
    | nil =>
      obtain ⟨next, rest, rfl⟩ := List.exists_cons_of_ne_nil given'
      simp [render_cons_cons]
    | cons next first => simp [render_cons_cons, ← ih]

theorem Assembly.add_eq_flush_add (assembly : Assembly) {line : Line}
    (outermost : line.indent = 0) : assembly.add line = assembly.flush.add line := by
  have settled : assembly.closeTo 0 = assembly.flush.closeTo 0 := by
    simp [closeTo_zero, flush]
  simp only [add, outermost, settled]

theorem readLines_add (first shift : Nat) (raws : List Text) :
    readLines (first + shift) raws = (readLines first raws).map (Line.move (· + shift) 0) := by
  induction raws generalizing first with
  | nil => rfl
  | cons raw raws ih =>
    have next : first + shift + 1 = first + 1 + shift := by omega
    rw [readLines, readLines, next, ih]
    rfl

namespace Compilation

theorem embedded_after (state : Compilation) (f : Nat → Nat) {line : Line}
    (outermost : line.indent = 0) :
    Embedded f 0 [] state.finish.entries state.finish.warnings
      (({} : Compilation).accept line) (state.accept (line.move f 0)) where
  assembly := by
    have flushed : Assembly.Embedded 0 [] state.assembly.flush.entries.toList
        {} state.assembly.flush := ⟨by simp, rfl, by simp⟩
    have moved : (line.move f 0).indent = 0 := by rw [Line.indent_move, outermost]
    have joined := flushed.add f line
    rw [← Assembly.add_eq_flush_add _ moved] at joined
    exact joined
  warnings := by simp [accept, finish, Line.warnings_move]
  limit := Line.limit_move f 0 line

theorem run_after (state : Compilation) (f : Nat → Nat) {lines : List Line} {final : Compilation}
    (reached : ({} : Compilation).run lines = (final, none)) :
    ∃ joint, state.run (lines.map (Line.move f 0)) = (joint, none) ∧
      joint.finish = ⟨state.finish.entries ++ final.finish.entries,
        state.finish.warnings ++ final.finish.warnings.map (Warning.renumber f)⟩ := by
  induction lines with
  | nil =>
    obtain ⟨rfl, -⟩ := Prod.mk.inj reached
    exact ⟨state, rfl, by simp [finish]⟩
  | cons line lines ih =>
    rw [List.map_cons]
    rcases run_cons_cases {} line with
      ⟨ignored, next⟩ | ⟨counts, right, next⟩ | ⟨fault, -, -, next⟩
    · rw [next] at reached
      rw [run_ignored state (by simpa using ignored)]
      exact ih reached
    · -- The first line that counts stands at level zero, which is right after any line.
      rw [next] at reached
      obtain ⟨even, bound⟩ := Line.fault?_eq_none_iff.1 right
      have outermost : line.indent = 0 := Nat.le_zero.1 bound
      have right' : (line.move f 0).fault? state.previous = none := by
        rw [Line.fault?_eq_none_iff, Line.indent_move, outermost]
        exact ⟨even, Nat.zero_le _⟩
      obtain ⟨joint, ran, embedded⟩ := (state.embedded_after f outermost).run lines
      rw [reached] at ran embedded
      rw [run_accept state (by simpa using counts) right']
      exact ⟨joint, ran, by simp [embedded.finish]⟩
    · rw [next] at reached
      cases reached

end Compilation

/-- Templates that compile compile after each other: to the code of the first, a
newline and the code of the second, where neither is empty, with the warnings of
both, those of the second numbered on. A code is empty if no line counts. -/
theorem compileLines_append {first second : List Text} {document document' : Document}
    (compiled : compileLines first = .ok document)
    (compiled' : compileLines second = .ok document') :
    (∃ joint, compileLines (first ++ second) = .ok joint ∧
      joint.code =
        (if document.code = [] then document'.code
        else if document'.code = [] then document.code
        else document.code ++ '\n' :: document'.code) ∧
      joint.warnings =
        document.warnings ++ document'.warnings.map (Warning.renumber (· + first.length))) ∧
    (document.code = [] ↔ counted (readLines 1 first) = []) ∧
    (document'.code = [] ↔ counted (readLines 1 second) = []) := by
  obtain ⟨state, reached, rfl⟩ := exists_run_of_compileLines compiled
  obtain ⟨state', reached', rfl⟩ := exists_run_of_compileLines compiled'
  obtain ⟨joint, ran, finished⟩ := state.run_after (· + first.length) reached'
  have whole : compileLines (first ++ second) = .ok joint.finish := by
    apply compileLines_of_run
    rw [readLines_append, Compilation.run_append reached, readLines_add, ran]
  refine ⟨⟨joint.finish, whole, ?_, ?_⟩, code_eq_nil_iff compiled, code_eq_nil_iff compiled'⟩
  · simp only [code_eq_nil_iff_entries compiled, code_eq_nil_iff_entries compiled']
    rw [finished, Document.code]
    by_cases empty : state.finish.entries = []
    · simp [empty, Document.code]
    · by_cases empty' : state'.finish.entries = []
      · simp [empty, empty', Document.code]
      · simp [empty, empty', Document.code, Entry.render_append]
  · rw [finished]

theorem compileLines_append_list :
    ∃ document document' joint,
      compileLines (["%ul", "  %li one", "-# open"].map String.toList) = .ok document ∧
      compileLines (["", "%p!bad"].map String.toList) = .ok document' ∧
      compileLines (["%ul", "  %li one", "-# open"].map String.toList ++
        ["", "%p!bad"].map String.toList) = .ok joint ∧
      joint.code = document.code ++ '\n' :: document'.code ∧
      joint.warnings = [.literalFallback 5 "%p!bad".toList] := by
  have compiled : compileLines (["%ul", "  %li one", "-# open"].map String.toList) = .ok _ :=
    compileLines_of_run (Prod.ext rfl (by decide +kernel))
  have compiled' : compileLines (["", "%p!bad"].map String.toList) = .ok _ :=
    compileLines_of_run (Prod.ext rfl (by decide +kernel))
  obtain ⟨⟨joint, whole, code, warnings⟩, -⟩ := compileLines_append compiled compiled'
  exact ⟨_, _, joint, compiled, compiled', whole, code.trans (by decide +kernel),
    warnings.trans (by decide +kernel)⟩

end IndentMarkup
