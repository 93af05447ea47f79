import IndentMarkup.Proofs.Alignment

/-! Documents as forests. The lines that count form an ordered forest, in which
each stands as deep as it is indented, and a document is that forest written
out: around what stands below it, a line that opens a level puts its opening and
its closing piece. The forest is fixed by the lines before any of it is written. -/
namespace IndentMarkup

/-- An ordered forest of lines, taken apart into its first tree, which is a line
and the forest below that line, and the trees that come after it. -/
inductive Forest
  | empty
  | node (line : Line) (below after : Forest)

namespace Forest

def preorder : Forest → List Line
  | empty => []
  | node line below after => line :: (below.preorder ++ after.preorder)

/-- Every line is indented as deep as it stands, with roots standing at `level`. -/
def Leveled (level : Nat) : Forest → Prop
  | empty => True
  | node line below after =>
    line.indent = level ∧ below.Leveled (level + 1) ∧ after.Leveled level

/-- Nothing stands below a line that opens no level. -/
def Nested : Forest → Prop
  | empty => True
  | node line below after =>
    (line.opensLevel = false → below = empty) ∧ below.Nested ∧ after.Nested

def entries : Forest → List Entry
  | empty => []
  | node line below after =>
    if line.opensLevel then
      ⟨line.indent, Text.trim (line.statement.opening?.getD [])⟩ :: below.entries ++
        ⟨line.indent, Text.trim (line.statement.closing?.getD [])⟩ :: after.entries
    else ⟨line.indent, line.render⟩ :: after.entries

def EndsAt (level : Nat) (rest : List Line) : Prop := ∀ line ∈ rest.head?, line.indent < level

theorem EndsAt.preorder_append {after : Forest} {level : Nat} {rest : List Line}
    (leveled : after.Leveled level) (ends : EndsAt level rest) :
    EndsAt (level + 1) (after.preorder ++ rest) := by
  intro line first
  cases after with
  | empty => exact Nat.lt_succ_of_lt (ends line first)
  | node root below after =>
    obtain rfl : root = line := Option.some.inj first
    rw [leveled.1]
    exact Nat.lt_succ_self level

theorem eq_of_preorder_append {first second : Forest} {level : Nat} {rest rest' : List Line}
    (leveled : first.Leveled level) (leveled' : second.Leveled level)
    (ends : EndsAt level rest) (ends' : EndsAt level rest')
    (same : first.preorder ++ rest = second.preorder ++ rest') :
    first = second ∧ rest = rest' := by
  induction first generalizing second level rest rest' with
  | empty =>
    cases second with
    | empty => exact ⟨rfl, same⟩
    | node line below after =>
      have further := ends line (by rw [show rest = _ from same]; rfl)
      have here := leveled'.1
      omega
  | node line below after belowInduction afterInduction =>
    cases second with
    | empty =>
      have further := ends' line (by rw [show rest' = _ from same.symm]; rfl)
      have here := leveled.1
      omega
    | node line' below' after' =>
      simp only [preorder, List.cons_append, List.append_assoc] at same
      obtain ⟨rfl, lines⟩ := List.cons.inj same
      obtain ⟨rfl, others⟩ := belowInduction leveled.2.1 leveled'.2.1
        (ends.preorder_append leveled.2.2) (ends'.preorder_append leveled'.2.2) lines
      obtain ⟨rfl, remaining⟩ := afterInduction leveled.2.2 leveled'.2.2 ends ends' others
      exact ⟨rfl, remaining⟩

theorem eq_of_preorder_eq {first second : Forest} {level : Nat}
    (leveled : first.Leveled level) (leveled' : second.Leveled level)
    (same : first.preorder = second.preorder) : first = second := by
  have ends : EndsAt level [] := fun _ missing => nomatch missing
  have both : first.preorder ++ [] = second.preorder ++ [] := congrArg (· ++ []) same
  exact (eq_of_preorder_append leveled leveled' ends ends both).1

theorem entries_root {line : Line} (opens : line.opensLevel = true) (below after : Forest) :
    (node line below after).entries =
      line.entry :: (below.entries ++ line.frame.entry :: after.entries) := by
  have written : line.entry = ⟨line.indent, Text.trim (line.statement.opening?.getD [])⟩ := by
    rw [Line.entry, if_pos opens]
  rw [entries, if_pos opens, written]
  rfl

theorem entries_leaf {line : Line} (shut : line.opensLevel = false) (below after : Forest) :
    (node line below after).entries = line.entry :: after.entries := by
  have written : line.entry = ⟨line.indent, line.render⟩ := by simp [Line.entry, shut]
  simp [entries, shut, written]

end Forest

/-- What can come after the innermost forest: each frame is closed in turn, and
behind it stand the trees beside the one that it belongs to. -/
inductive Closes : List Frame → List Line → List Entry → Prop
  | none : Closes [] [] []
  | frame {frame : Frame} {frames : List Frame} {lines : List Line} {entries : List Entry}
      (beside : Forest) (leveled : beside.Leveled frames.length) (nested : beside.Nested)
      (around : Closes frames lines entries) :
      Closes (frame :: frames) (beside.preorder ++ lines)
        (frame.entry :: (beside.entries ++ entries))

/-- Lines still to come, and the entries they lead to, complete what is open: the
first of them form a forest inside all frames. -/
inductive Completes (frames : List Frame) : List Line → List Entry → Prop
  | intro {lines : List Line} {entries : List Entry} (inside : Forest)
      (leveled : inside.Leveled frames.length) (nested : inside.Nested)
      (around : Closes frames lines entries) :
      Completes frames (inside.preorder ++ lines) (inside.entries ++ entries)

namespace Completes

theorem close {frame : Frame} {frames : List Frame} {lines : List Line} {entries : List Entry}
    (rest : Completes frames lines entries) :
    Completes (frame :: frames) lines (frame.entry :: entries) := by
  obtain ⟨beside, leveled, nested, around⟩ := rest
  exact intro .empty trivial trivial (.frame beside leveled nested around)

theorem closeAll {kept : List Frame} {lines : List Line} {entries : List Entry}
    (rest : Completes kept lines entries) (stale : List Frame) :
    Completes (stale ++ kept) lines (stale.map Frame.entry ++ entries) := by
  induction stale with
  | nil => exact rest
  | cons frame stale ih => exact ih.close

theorem finish (frames : List Frame) : Completes frames [] (frames.map Frame.entry) := by
  have nothing : Completes [] [] [] := intro .empty trivial trivial .none
  simpa using nothing.closeAll frames

theorem leaf {line : Line} {frames : List Frame} {lines : List Line} {entries : List Entry}
    (shut : line.opensLevel = false) (level : line.indent = frames.length)
    (rest : Completes frames lines entries) :
    Completes frames (line :: lines) (line.entry :: entries) := by
  obtain ⟨inside, leveled, nested, around⟩ := rest
  have extended := intro (.node line .empty inside) ⟨level, trivial, leveled⟩
    ⟨fun _ => rfl, trivial, nested⟩ around
  rw [Forest.entries_leaf shut] at extended
  exact extended

theorem root {line : Line} {frames : List Frame} {lines : List Line} {entries : List Entry}
    (opens : line.opensLevel = true) (level : line.indent = frames.length)
    (rest : Completes (line.frame :: frames) lines entries) :
    Completes frames (line :: lines) (line.entry :: entries) := by
  obtain ⟨below, leveledBelow, nestedBelow, closing⟩ := rest
  cases closing with
  | frame beside leveled nested around =>
    have parent : line.opensLevel = false → below = .empty := fun shut => by simp [opens] at shut
    have extended := intro (.node line below beside) ⟨level, leveledBelow, leveled⟩
      ⟨parent, nestedBelow, nested⟩ around
    rw [Forest.entries_root opens, Forest.preorder] at extended
    simpa only [List.cons_append, List.append_assoc] using extended

end Completes

namespace Compilation

/-- The state between two lines does not hold the forest, only the frames on the
way to its last line; the lines to come complete it whatever they are. -/
theorem Aligned.completes {state final : Compilation} {lines : List Line}
    (aligned : state.Aligned) (reached : state.run lines = (final, none)) :
    ∃ entries, Completes state.assembly.frames (counted lines) entries ∧
      final.finish.entries = state.assembly.entries.toList ++ entries := by
  induction lines generalizing state with
  | nil =>
    obtain ⟨rfl, -⟩ := Prod.mk.inj reached
    exact ⟨_, .finish state.assembly.frames, Assembly.entries_flush state.assembly⟩
  | cons line lines ih =>
    rcases run_cons_cases state line with
      ⟨ignored, next⟩ | ⟨counts, right, next⟩ | ⟨fault, -, -, next⟩
    · rw [next] at reached
      rw [counted_cons_ignored ignored]
      exact ih aligned reached
    · rw [next] at reached
      -- What the line leaves open is completed by the lines after it; the line goes in
      -- front as a root or a leaf, and the frames it has closed go in front of that.
      obtain ⟨entries, rest, written⟩ := ih (aligned.accept right) reached
      obtain ⟨-, level⟩ := aligned.ancestors right
      have settled : Completes (state.assembly.closeTo line.indent).frames
          (line :: counted lines) (line.entry :: entries) := by
        cases opens : line.opensLevel with
        | true =>
          rw [Compilation.accept, Assembly.add, if_pos opens] at rest
          exact rest.root opens level.symm
        | false =>
          rw [Compilation.accept, Assembly.add, if_neg (by simp [opens])] at rest
          exact rest.leaf opens level.symm
      have complete := settled.closeAll (state.assembly.stale line.indent)
      rw [Assembly.stale_append_frames_closeTo] at complete
      rw [counted_cons counts]
      refine ⟨_, complete, ?_⟩
      rw [written, Compilation.accept, Assembly.entries_add]
      simp only [List.append_assoc, List.singleton_append]
    · rw [next] at reached
      cases reached

end Compilation

/-- A compiled document is the one forest of its lines, written out. -/
theorem compileLines_forest {raws : List Text} {document : Document}
    (compiled : compileLines raws = .ok document) :
    ∃ forest : Forest,
      forest.preorder = counted (readLines 1 raws) ∧ forest.Leveled 0 ∧
      (∀ other : Forest, other.preorder = counted (readLines 1 raws) → other.Leveled 0 →
        other = forest) ∧
      forest.Nested ∧
      document.entries = forest.entries ∧
      document.code = ['\n'].intercalate
        (forest.entries.map fun entry => List.replicate (2 * entry.level) ' ' ++ entry.text) := by
  obtain ⟨state, reached, rfl⟩ := exists_run_of_compileLines compiled
  obtain ⟨entries, complete, written⟩ := Compilation.aligned_start.completes reached
  generalize known : counted (readLines 1 raws) = lines at complete ⊢
  obtain ⟨forest, leveled, nested, around⟩ := complete
  cases around with
  | none =>
    rw [List.append_nil] at written ⊢
    have flat : state.finish.entries = forest.entries := written
    refine ⟨forest, rfl, leveled, ?_, nested, flat, ?_⟩
    · intro other same leveled'
      exact Forest.eq_of_preorder_eq leveled' leveled same
    · rw [Document.code, flat]
      rfl

theorem compileLines_forest_list :
    ∃ document : Document,
      compileLines (["%ul", "  %li", "    one", "", "  %li two", "%hr/"].map String.toList) =
        .ok document ∧
      document.code =
        "<ul>\n  <li>\n    one\n  </li>\n  <li>two</li>\n</ul>\n<hr />".toList ∧
      ∃ forest : Forest, forest.Leveled 0 ∧ forest.preorder.map Line.number = [1, 2, 3, 5, 6] ∧
        document.entries = forest.entries := by
  have compiled : compileLines
      (["%ul", "  %li", "    one", "", "  %li two", "%hr/"].map String.toList) = .ok _ :=
    compileLines_of_run (Prod.ext rfl (by decide +kernel))
  obtain ⟨forest, lines, leveled, -, -, entries, -⟩ := compileLines_forest compiled
  have numbers : forest.preorder.map Line.number = [1, 2, 3, 5, 6] := by
    rw [lines]
    decide +kernel
  exact ⟨_, compiled, by decide +kernel, forest, leveled, numbers, entries⟩

end IndentMarkup
