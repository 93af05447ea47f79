import IndentMarkup.Proofs.Run

/-! Agreement of the frames with the line accepted last. Indentation is checked
against that line alone and nesting follows the frames alone; between any two
lines of a compilation both give the same depth, and there is one open frame at
each level below it. -/
namespace IndentMarkup

/-- Each frame stands at the level that the frames around it make. -/
def Stacked : List Frame → Prop
  | [] => True
  | frame :: frames => frame.level = frames.length ∧ Stacked frames

theorem Stacked.levels {frames : List Frame} (stacked : Stacked frames) :
    frames.reverse.map Frame.level = List.range frames.length := by
  induction frames with
  | nil => rfl
  | cons frame frames ih =>
    rw [List.reverse_cons, List.map_append, ih stacked.2, List.length_cons, List.range_succ,
      ← stacked.1]
    rfl

theorem Stacked.dropWhile {frames : List Frame} (stacked : Stacked frames) {level : Nat}
    (bound : level ≤ frames.length) :
    Stacked (frames.dropWhile (level ≤ ·.level)) ∧
      (frames.dropWhile (level ≤ ·.level)).length = level := by
  induction frames with
  | nil => exact ⟨trivial, (Nat.le_zero.1 bound).symm⟩
  | cons frame frames ih =>
    have outer : frame.level = frames.length := stacked.1
    by_cases stale : level ≤ frame.level
    · rw [List.dropWhile_cons_of_pos (by simpa using stale)]
      exact ih stacked.2 (outer ▸ stale)
    · rw [List.dropWhile_cons_of_neg (by simpa using stale)]
      rw [List.length_cons] at bound ⊢
      exact ⟨stacked, by omega⟩

namespace Assembly

theorem stacked_closeTo {assembly : Assembly} {level : Nat} (stacked : Stacked assembly.frames)
    (bound : level ≤ assembly.frames.length) :
    Stacked (assembly.closeTo level).frames ∧
      (assembly.closeTo level).frames.length = level :=
  stacked.dropWhile bound

theorem stacked_add {assembly : Assembly} {line : Line} (stacked : Stacked assembly.frames)
    (bound : line.indent ≤ assembly.frames.length) :
    Stacked (assembly.add line).frames ∧
      (assembly.add line).frames.length = Line.limit (some line) := by
  obtain ⟨settled, depth⟩ := stacked_closeTo stacked bound
  cases opens : line.opensLevel with
  | true =>
    simp only [add, opens, if_true, Line.limit]
    exact ⟨⟨depth.symm, settled⟩, by rw [List.length_cons, depth]⟩
  | false =>
    simp only [add, opens, Bool.false_eq_true, if_false, Line.limit]
    exact ⟨settled, depth⟩

/-- Closing a frame trades it for an entry, and a line that opens a level owes a
second entry, so entries written and entries owed grow with the lines alone. -/
theorem entries_owed_add (assembly : Assembly) (line : Line) :
    (assembly.add line).entries.size + (assembly.add line).frames.length =
      assembly.entries.size + assembly.frames.length + (1 + if line.opensLevel then 1 else 0) := by
  have moved := congrArg List.length (stale_append_frames_closeTo assembly line.indent)
  rw [List.length_append] at moved
  have settled : (assembly.closeTo line.indent).entries.size =
      assembly.entries.size + (assembly.stale line.indent).length := by
    rw [← Array.length_toList, entries_closeTo, List.length_append, List.length_map,
      Array.length_toList]
  simp only [add, Array.size_push]
  split
  · rw [List.length_cons]
    omega
  · omega

theorem size_flush (assembly : Assembly) :
    assembly.flush.entries.size = assembly.entries.size + assembly.frames.length := by
  rw [← Array.length_toList, entries_flush, List.length_append, List.length_map,
    Array.length_toList]

end Assembly

namespace Compilation

structure Aligned (state : Compilation) : Prop where
  stacked : Stacked state.assembly.frames
  depth : state.assembly.frames.length = Line.limit state.previous

theorem aligned_start : Aligned {} := ⟨trivial, rfl⟩

theorem Aligned.accept {state : Compilation} {line : Line} (aligned : state.Aligned)
    (right : line.fault? state.previous = none) : (state.accept line).Aligned := by
  have bound : line.indent ≤ state.assembly.frames.length := by
    rw [aligned.depth]
    exact (Line.fault?_eq_none_iff.1 right).2
  obtain ⟨stacked, depth⟩ := Assembly.stacked_add aligned.stacked bound
  exact ⟨stacked, depth⟩

theorem Aligned.run {state final : Compilation} {lines : List Line} (aligned : state.Aligned)
    (reached : state.run lines = (final, none)) : final.Aligned :=
  run_induction (fun _ state => state.Aligned) []
    (fun _ _ _ aligned _ right => aligned.accept right) aligned reached

theorem Aligned.fault?_eq_none_iff {state : Compilation} {line : Line} (aligned : state.Aligned)
    (even : line.leadingSpaces % 2 = 0) :
    line.fault? state.previous = none ↔ line.indent ≤ state.assembly.frames.length := by
  rw [Line.fault?_eq_none_iff, aligned.depth]
  exact ⟨fun h => h.2, fun h => ⟨even, h⟩⟩

theorem Aligned.ancestors {state : Compilation} {line : Line} (aligned : state.Aligned)
    (right : line.fault? state.previous = none) :
    Stacked (state.assembly.closeTo line.indent).frames ∧
      (state.assembly.closeTo line.indent).frames.length = line.indent := by
  apply Assembly.stacked_closeTo aligned.stacked
  rw [aligned.depth]
  exact (Line.fault?_eq_none_iff.1 right).2

theorem entries_owed_run {state : Compilation} {lines : List Line}
    (reached : ({} : Compilation).run lines = (state, none)) :
    state.assembly.entries.size + state.assembly.frames.length =
      (counted lines).length + ((counted lines).filter Line.opensLevel).length := by
  refine run_induction (fun history state =>
    state.assembly.entries.size + state.assembly.frames.length =
      history.length + (history.filter Line.opensLevel).length) [] ?_ rfl reached
  intro history state line owed _ _
  have step := Assembly.entries_owed_add state.assembly line
  rw [owed] at step
  simp only [accept, step, List.filter_append, List.length_append, List.filter_cons,
    List.filter_nil, List.length_cons, List.length_nil]
  split <;> simp only [List.length_cons, List.length_nil] <;> omega

/-- Wherever a compilation stands between two lines, the frames have the levels
below the limit that the previous line sets, once each from the outside in. So
the check against the previous line tells whether enough frames are open, every
entry is written under as many frames as its level says, the end closes as many
frames as the last line leaves open, and the entries are counted by the lines. -/
theorem frames_agree_with_limit {raws : List Text} {before after : List Line} {state : Compilation}
    (split : readLines 1 raws = before ++ after)
    (reached : ({} : Compilation).run before = (state, none)) :
    ({} : Compilation).run (readLines 1 raws) = state.run after ∧
    state.previous = (counted before).getLast? ∧
    state.assembly.frames.length = Line.limit state.previous ∧
    state.assembly.frames.reverse.map Frame.level = List.range (Line.limit state.previous) ∧
    (∀ line : Line, line.leadingSpaces % 2 = 0 →
      (line.fault? state.previous = none ↔ line.indent ≤ state.assembly.frames.length)) ∧
    (∀ line : Line, line.fault? state.previous = none →
      (state.accept line).assembly.entries =
        (state.assembly.closeTo line.indent).entries.push line.entry ∧
      line.entry.level = line.indent ∧
      (state.assembly.closeTo line.indent).frames.reverse.map Frame.level =
        List.range line.indent) ∧
    (after = [] → compileLines raws = .ok state.finish ∧
      state.assembly.flush.frames = [] ∧
      state.assembly.flush.entries.size =
        state.assembly.entries.size + Line.limit (counted (readLines 1 raws)).getLast? ∧
      state.finish.entries.length = (counted (readLines 1 raws)).length +
        ((counted (readLines 1 raws)).filter Line.opensLevel).length) := by
  have aligned : state.Aligned := aligned_start.run reached
  have last : state.previous = (counted before).getLast? := previous_run reached
  refine ⟨?_, last, aligned.depth, ?_, ?_, ?_, ?_⟩
  · rw [split, run_append reached]
  · rw [aligned.stacked.levels, aligned.depth]
  · intro line even
    exact aligned.fault?_eq_none_iff even
  · intro line right
    obtain ⟨stacked, depth⟩ := aligned.ancestors right
    refine ⟨rfl, ?_, ?_⟩
    · unfold Line.entry
      split <;> rfl
    · rw [stacked.levels, depth]
  · intro complete
    rw [complete, List.append_nil] at split
    rw [split]
    refine ⟨compileLines_of_run (split ▸ reached), rfl, ?_, ?_⟩
    · rw [Assembly.size_flush, aligned.depth, last]
    · rw [finish, Array.length_toList, Assembly.size_flush, entries_owed_run reached]

theorem frames_agree_with_limit_list :
    ∃ state : Compilation,
      ({} : Compilation).run (readLines 1 (["%ul", "     -# note", "  %li"].map String.toList)) =
        (state, none) ∧
      state.assembly.frames.reverse.map Frame.level = [0, 1] ∧
      state.finish.entries.length = 4 := by
  have reached : ({} : Compilation).run
      (readLines 1 (["%ul", "     -# note", "  %li"].map String.toList)) = (_, none) :=
    Prod.ext rfl (by decide +kernel)
  obtain ⟨-, -, -, levels, -, -, complete⟩ :=
    frames_agree_with_limit (List.append_nil _).symm reached
  obtain ⟨-, -, -, entries⟩ := complete rfl
  exact ⟨_, reached, levels.trans (by decide +kernel), entries.trans (by decide +kernel)⟩

end Compilation

end IndentMarkup
