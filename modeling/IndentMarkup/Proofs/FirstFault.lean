import IndentMarkup.Proofs.Run
import Mathlib.Data.Nat.Find

/-! The line at which a compilation stops. Whether a line is indented wrongly is
said of the template as a whole, without a run; a compilation fails exactly at
the first such line, and nothing behind that line has a part in it. Positions
count from zero and all lines, lines are numbered from one. -/
namespace IndentMarkup

/-- The line that the one at `index` is measured against: the nearest before it
that is not ignored. -/
def precedent (raws : List Text) (index : Nat) : Option Line :=
  (counted (readLines 1 (raws.take index))).getLast?

/-- How deep a line may be that is measured against this one: as deep as it is, and one
level deeper if it opens one. The first line that counts is not indented. -/
def allowance : Option Line → Nat
  | none => 0
  | some line => if line.opensLevel then line.indent + 1 else line.indent

theorem Line.limit_eq_allowance (previous : Option Line) : limit previous = allowance previous := by
  cases previous with
  | none => rfl
  | some line => cases opens : line.opensLevel <;> simp [limit, allowance, opens]

def Misindented (raws : List Text) (index : Nat) : Prop :=
  ∃ raw ∈ raws[index]?,
    (Line.read (index + 1) raw).isIgnored = false ∧
    ((Line.read (index + 1) raw).leadingSpaces % 2 = 1 ∨
      allowance (precedent raws index) < (Line.read (index + 1) raw).indent)

instance (raws : List Text) (index : Nat) : Decidable (Misindented raws index) :=
  inferInstanceAs (Decidable (∃ raw ∈ raws[index]?, _))

def complaint (number spaces : Nat) : Fault :=
  if spaces % 2 = 1 then .oddIndentation number spaces else .tooDeep number

theorem Line.fault?_eq_some_iff {previous : Option Line} {line : Line} {fault : Fault} :
    line.fault? previous = some fault ↔
      (line.leadingSpaces % 2 = 1 ∨ allowance previous < line.indent) ∧
        fault = complaint line.number line.leadingSpaces := by
  rw [← limit_eq_allowance]
  unfold fault? complaint
  by_cases odd : line.leadingSpaces % 2 = 1
  · simp [odd, eq_comm]
  · have even : ¬line.leadingSpaces % 2 ≠ 0 := by omega
    by_cases deep : limit previous < line.indent
    · simp [odd, even, deep, eq_comm]
    · simp [odd, even, deep]

theorem misindented_iff {raws : List Text} {index : Nat} {raw : Text}
    (found : raws[index]? = some raw) :
    Misindented raws index ↔ (Line.read (index + 1) raw).isIgnored = false ∧
      ∃ fault, (Line.read (index + 1) raw).fault? (precedent raws index) = some fault := by
  simp only [Misindented, found, Option.mem_def, Option.some.injEq, exists_eq_left',
    Line.fault?_eq_some_iff, exists_and_left, exists_eq, and_true]

theorem readLines_take_succ {raws : List Text} {index : Nat} {raw : Text}
    (found : raws[index]? = some raw) :
    readLines 1 (raws.take (index + 1)) =
      readLines 1 (raws.take index) ++ [Line.read (index + 1) raw] := by
  obtain ⟨inside, -⟩ := List.getElem?_eq_some_iff.1 found
  have number : 1 + (raws.take index).length = index + 1 := by
    rw [List.length_take]
    omega
  rw [List.take_add_one, found, readLines_append, number]
  rfl

namespace Compilation

theorem run_take_succ {raws : List Text} {index : Nat} {raw : Text} {state : Compilation}
    (found : raws[index]? = some raw)
    (reached : ({} : Compilation).run (readLines 1 (raws.take index)) = (state, none)) :
    (¬Misindented raws index →
      ∃ next, ({} : Compilation).run (readLines 1 (raws.take (index + 1))) = (next, none)) ∧
    (Misindented raws index →
      ({} : Compilation).run (readLines 1 (raws.take (index + 1))) =
        (state, some (complaint (index + 1) (Line.read (index + 1) raw).leadingSpaces))) := by
  have last : state.previous = precedent raws index := previous_run reached
  rw [readLines_take_succ found, run_append reached, misindented_iff found, ← last]
  rcases run_cons_cases state (Line.read (index + 1) raw) with
    ⟨ignored, next⟩ | ⟨counts, right, next⟩ | ⟨fault, counts, wrong, next⟩
  · rw [next]
    refine ⟨fun _ => ⟨state, rfl⟩, fun bad => ?_⟩
    rw [ignored] at bad
    exact absurd bad.1 (by decide)
  · rw [next]
    refine ⟨fun _ => ⟨_, rfl⟩, fun bad => ?_⟩
    rw [right] at bad
    obtain ⟨-, fault, impossible⟩ := bad
    cases impossible
  · rw [next]
    refine ⟨fun good => absurd ⟨counts, fault, wrong⟩ good, fun _ => ?_⟩
    rw [(Line.fault?_eq_some_iff.1 wrong).2]
    rfl

theorem exists_run_take {raws : List Text} {index : Nat}
    (good : ∀ earlier < index, ¬Misindented raws earlier) :
    ∃ state, ({} : Compilation).run (readLines 1 (raws.take index)) = (state, none) := by
  induction index with
  | zero => exact ⟨{}, rfl⟩
  | succ index ih =>
    obtain ⟨state, reached⟩ := ih fun earlier before => good earlier (Nat.lt_succ_of_lt before)
    cases found : raws[index]? with
    | none =>
      rw [List.take_add_one, found, Option.toList_none, List.append_nil]
      exact ⟨state, reached⟩
    | some raw => exact (run_take_succ found reached).1 (good index (Nat.lt_succ_self index))

end Compilation

theorem compileLines_take_ok {raws : List Text} {index : Nat}
    (good : ∀ earlier < index, ¬Misindented raws earlier) :
    ∃ document, compileLines (raws.take index) = .ok document := by
  obtain ⟨state, reached⟩ := Compilation.exists_run_take good
  exact ⟨state.finish, compileLines_of_run reached⟩

theorem compileLines_shorter_ok {raws shorter : List Text} {index : Nat}
    (good : ∀ earlier < index, ¬Misindented raws earlier)
    (start : shorter <+: raws.take (index + 1)) (proper : shorter ≠ raws.take (index + 1)) :
    ∃ document, compileLines shorter = .ok document := by
  have less : shorter.length < (raws.take (index + 1)).length := by
    refine Nat.lt_of_le_of_ne start.length_le fun same => proper ?_
    exact start.eq_of_length same
  have length : shorter.length ≤ index := by
    rw [List.length_take] at less
    omega
  have cut : shorter = raws.take shorter.length :=
    List.prefix_iff_eq_take.1 (start.trans (List.take_prefix _ raws))
  rw [cut]
  exact compileLines_take_ok fun earlier before => good earlier (by omega)

theorem compileLines_of_first {raws longer : List Text} {index : Nat} {raw : Text}
    (found : raws[index]? = some raw) (bad : Misindented raws index)
    (good : ∀ earlier < index, ¬Misindented raws earlier)
    (extended : raws.take (index + 1) <+: longer) :
    compileLines longer =
      .error (complaint (index + 1) (Line.read (index + 1) raw).leadingSpaces) := by
  obtain ⟨state, reached⟩ := Compilation.exists_run_take good
  have stopped := (Compilation.run_take_succ found reached).2 bad
  obtain ⟨more, rfl⟩ := extended
  apply compileLines_of_run_fault
  rw [readLines_append]
  exact Compilation.run_append_of_fault stopped _

/-- Compilation fails if and only if some line is indented wrongly, and what it
reports is the first of them: an odd number of spaces before a depth. Whatever
follows that line, the same is reported, and what ends before it compiles. -/
theorem compileLines_stops_at_first_misindented (raws : List Text) :
    ((∃ fault, compileLines raws = .error fault) ↔ ∃ index, Misindented raws index) ∧
    ∀ index raw, raws[index]? = some raw → Misindented raws index →
      (∀ earlier < index, ¬Misindented raws earlier) →
      compileLines raws =
        .error (complaint (index + 1) (Line.read (index + 1) raw).leadingSpaces) ∧
      (∀ longer, raws.take (index + 1) <+: longer → compileLines longer =
        .error (complaint (index + 1) (Line.read (index + 1) raw).leadingSpaces)) ∧
      (∀ shorter, shorter <+: raws.take (index + 1) → shorter ≠ raws.take (index + 1) →
        ∃ document, compileLines shorter = .ok document) := by
  refine ⟨⟨?_, ?_⟩, ?_⟩
  · rintro ⟨fault, failed⟩
    by_contra good
    have all : ∀ index < raws.length, ¬Misindented raws index :=
      fun index _ bad => good ⟨index, bad⟩
    obtain ⟨document, compiled⟩ := compileLines_take_ok all
    rw [List.take_length, failed] at compiled
    cases compiled
  · intro wrong
    have bad : Misindented raws (Nat.find wrong) := Nat.find_spec wrong
    have good : ∀ earlier < Nat.find wrong, ¬Misindented raws earlier :=
      fun _ before => Nat.find_min wrong before
    obtain ⟨raw, found, -⟩ := Nat.find_spec wrong
    exact ⟨_, compileLines_of_first found bad good (List.take_prefix _ raws)⟩
  · intro index raw found bad good
    refine ⟨compileLines_of_first found bad good (List.take_prefix _ raws), ?_, ?_⟩
    · intro longer extended
      exact compileLines_of_first found bad good extended
    · intro shorter start proper
      exact compileLines_shorter_ok good start proper

theorem compileLines_stops_at_first_misindented_list :
    let crooked := ["%ul", "", "   %li one", "      deep"].map String.toList
    let deep := ["%ul", "  %li one", " -# note", "    two", "%p"].map String.toList
    compileLines crooked = .error (.oddIndentation 3 3) ∧
      compileLines (["%ul", "", "   %li one", "  %li", "two"].map String.toList) =
        .error (.oddIndentation 3 3) ∧
      compileLines deep = .error (.tooDeep 4) ∧
      (∃ document, compileLines (deep.take 3) = .ok document) ∧
      (compileLines (deep.take 2)).map Document.code =
        .ok "<ul>\n  <li>one</li>\n</ul>".toList := by
  intro crooked deep
  obtain ⟨failed, extended, -⟩ := (compileLines_stops_at_first_misindented crooked).2 2
    "   %li one".toList rfl (by decide +kernel) (by decide +kernel)
  obtain ⟨failed', -, compiled⟩ := (compileLines_stops_at_first_misindented deep).2 3
    "    two".toList rfl (by decide +kernel) (by decide +kernel)
  exact ⟨failed, extended _ (by decide +kernel), failed',
    compiled _ (by decide +kernel) (by decide +kernel), by decide +kernel⟩

end IndentMarkup
