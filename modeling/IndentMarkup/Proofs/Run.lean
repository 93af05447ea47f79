import IndentMarkup.Compilation

/-! Runs of a compilation over lists of lines. A run over two lists after each
other goes through the state reached between them, and a property that every
accepted line keeps holds of the state at the end. -/
namespace IndentMarkup

/-- The lines that count, in order: all but the ignored ones. -/
def counted (lines : List Line) : List Line := lines.filter fun line => !line.isIgnored

@[simp] theorem counted_nil : counted [] = [] := rfl

theorem counted_cons_ignored {line : Line} (ignored : line.isIgnored = true) (rest : List Line) :
    counted (line :: rest) = counted rest := by
  simp [counted, ignored]

theorem counted_cons {line : Line} (counts : line.isIgnored = false) (rest : List Line) :
    counted (line :: rest) = line :: counted rest := by
  simp [counted, counts]

theorem mem_readLines_iff {first : Nat} {raws : List Text} {line : Line} :
    line ∈ readLines first raws ↔
      ∃ index raw, raws[index]? = some raw ∧ line = Line.read (first + index) raw := by
  induction raws generalizing first with
  | nil => simp [readLines]
  | cons raw raws ih =>
    rw [readLines, List.mem_cons, ih]
    constructor
    · rintro (rfl | ⟨index, other, found, rfl⟩)
      · exact ⟨0, raw, rfl, rfl⟩
      · refine ⟨index + 1, other, found, ?_⟩
        rw [Nat.add_assoc, Nat.add_comm 1]
    · rintro ⟨_ | index, other, found, rfl⟩
      · exact .inl (congrArg _ (Option.some.inj found).symm)
      · refine .inr ⟨index, other, found, ?_⟩
        rw [Nat.add_assoc, Nat.add_comm 1]

theorem readLines_append (first : Nat) (before after : List Text) :
    readLines first (before ++ after) =
      readLines first before ++ readLines (first + before.length) after := by
  induction before generalizing first with
  | nil => rfl
  | cons raw before ih =>
    have shift : first + 1 + before.length = first + (raw :: before).length := by
      rw [List.length_cons]
      omega
    rw [List.cons_append, readLines, ih, shift, readLines, List.cons_append]

namespace Compilation

theorem run_cons_cases (state : Compilation) (line : Line) :
    (line.isIgnored = true ∧ ∀ rest, state.run (line :: rest) = state.run rest) ∨
    (line.isIgnored = false ∧ line.fault? state.previous = none ∧
      ∀ rest, state.run (line :: rest) = (state.accept line).run rest) ∨
    (∃ fault, line.isIgnored = false ∧ line.fault? state.previous = some fault ∧
      ∀ rest, state.run (line :: rest) = (state, some fault)) := by
  cases counts : line.isIgnored with
  | true => exact .inl ⟨rfl, run_ignored state counts⟩
  | false =>
    cases wrong : line.fault? state.previous with
    | none => exact .inr (.inl ⟨rfl, rfl, run_accept state counts wrong⟩)
    | some fault => exact .inr (.inr ⟨fault, rfl, rfl, run_fault state counts wrong⟩)

theorem run_append {state middle : Compilation} {before : List Line}
    (reached : state.run before = (middle, none)) (after : List Line) :
    state.run (before ++ after) = middle.run after := by
  induction before generalizing state with
  | nil =>
    obtain ⟨rfl, -⟩ := Prod.mk.inj reached
    rfl
  | cons line before ih =>
    rw [List.cons_append]
    rcases run_cons_cases state line with ⟨-, next⟩ | ⟨-, -, next⟩ | ⟨fault, -, -, next⟩
    · rw [next] at reached ⊢
      exact ih reached
    · rw [next] at reached ⊢
      exact ih reached
    · rw [next] at reached
      cases reached

theorem run_append_of_fault {state final : Compilation} {fault : Fault} {before : List Line}
    (stopped : state.run before = (final, some fault)) (after : List Line) :
    state.run (before ++ after) = (final, some fault) := by
  induction before generalizing state with
  | nil => cases stopped
  | cons line before ih =>
    rw [List.cons_append]
    rcases run_cons_cases state line with ⟨-, next⟩ | ⟨-, -, next⟩ | ⟨fault, -, -, next⟩
    · rw [next] at stopped ⊢
      exact ih stopped
    · rw [next] at stopped ⊢
      exact ih stopped
    · rw [next] at stopped ⊢
      exact stopped

/-- What the start satisfies and every accepted line keeps is satisfied at the
end; `history` holds the lines accepted so far. -/
theorem run_induction (invariant : List Line → Compilation → Prop) (history : List Line)
    (kept : ∀ history state line, invariant history state → line.isIgnored = false →
      line.fault? state.previous = none → invariant (history ++ [line]) (state.accept line))
    {state final : Compilation} {lines : List Line}
    (start : invariant history state) (reached : state.run lines = (final, none)) :
    invariant (history ++ counted lines) final := by
  induction lines generalizing history state with
  | nil =>
    obtain ⟨rfl, -⟩ := Prod.mk.inj reached
    simpa using start
  | cons line lines ih =>
    rcases run_cons_cases state line with
      ⟨ignored, next⟩ | ⟨counts, right, next⟩ | ⟨fault, -, -, next⟩
    · rw [next] at reached
      rw [counted_cons_ignored ignored]
      exact ih history start reached
    · rw [next] at reached
      rw [counted_cons counts, List.append_cons]
      exact ih (history ++ [line]) (kept history state line start counts right) reached
    · rw [next] at reached
      cases reached

theorem previous_run {state : Compilation} {lines : List Line}
    (reached : ({} : Compilation).run lines = (state, none)) :
    state.previous = (counted lines).getLast? := by
  refine run_induction (fun history state => state.previous = history.getLast?) [] ?_ rfl reached
  intro history state line _ _ _
  rw [List.getLast?_append]
  rfl

end Compilation

theorem compileLines_of_run {raws : List Text} {state : Compilation}
    (reached : ({} : Compilation).run (readLines 1 raws) = (state, none)) :
    compileLines raws = .ok state.finish := by
  rw [compileLines, compileLogged, reached]

theorem compileLines_of_run_fault {raws : List Text} {state : Compilation} {fault : Fault}
    (stopped : ({} : Compilation).run (readLines 1 raws) = (state, some fault)) :
    compileLines raws = .error fault := by
  rw [compileLines, compileLogged, stopped]

theorem exists_run_of_compileLines {raws : List Text} {document : Document}
    (compiled : compileLines raws = .ok document) :
    ∃ state : Compilation, ({} : Compilation).run (readLines 1 raws) = (state, none) ∧
      document = state.finish := by
  rcases ran : ({} : Compilation).run (readLines 1 raws) with ⟨state, _ | fault⟩
  · rw [compileLines_of_run ran] at compiled
    exact ⟨state, rfl, (Except.ok.inj compiled).symm⟩
  · rw [compileLines_of_run_fault ran] at compiled
    cases compiled

end IndentMarkup
