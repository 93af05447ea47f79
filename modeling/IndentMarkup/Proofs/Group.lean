import IndentMarkup.Element.Group

/-! Groups and the scan that finds their end. The end of a group is the first
place behind its parenthesis where no parenthesis is open, so a text has at most
one beginning that is a group. -/
namespace IndentMarkup

/-- The text fills a group: followed from the opening parenthesis on, some
parenthesis stays open all along it, and none behind one more closing one. -/
def Encloses (raw : Text) : Prop :=
  (∀ part, part <+: raw → (Scan.after ⟨1, none⟩ part).depth ≠ 0) ∧
    (Scan.after ⟨1, none⟩ (raw ++ [')'])).depth = 0

namespace Scan

theorem eq_of_depth_step {scan : Scan} {c : Char} (inside : scan.depth ≠ 0)
    (closed : (scan.step c).depth = 0) : c = ')' := by
  unfold step at closed
  split at closed
  · split at closed <;> exact absurd closed inside
  · split at closed
    · exact absurd closed inside
    · split at closed
      · exact absurd closed (Nat.succ_ne_zero _)
      · split at closed
        next closing => exact closing
        next => exact absurd closed inside

theorem splitFrom_append {scan : Scan} {raw : Text} (before rest : Text)
    (inside : ∀ part, part <+: raw → (scan.after part).depth ≠ 0)
    (closed : (scan.after (raw ++ [')'])).depth = 0) :
    scan.splitFrom before (raw ++ ')' :: rest) = some (before.reverse ++ raw, rest) := by
  induction raw generalizing scan before with
  | nil =>
    have here : (scan.step ')').depth = 0 := closed
    rw [List.nil_append, splitFrom, if_pos here, List.append_nil]
  | cons c raw ih =>
    have here : (scan.step c).depth ≠ 0 := inside [c] ⟨raw, rfl⟩
    have further : ∀ part, part <+: raw → ((scan.step c).after part).depth ≠ 0 := by
      rintro part ⟨more, rfl⟩
      exact inside (c :: part) ⟨more, rfl⟩
    rw [List.cons_append, splitFrom, if_neg here, ih (c :: before) further closed]
    simp

theorem exists_of_splitFrom {scan : Scan} {before s inner rest : Text}
    (start : scan.depth ≠ 0) (found : scan.splitFrom before s = some (inner, rest)) :
    ∃ raw, inner = before.reverse ++ raw ∧ s = raw ++ ')' :: rest ∧
      (∀ part, part <+: raw → (scan.after part).depth ≠ 0) ∧
      (scan.after (raw ++ [')'])).depth = 0 := by
  induction s generalizing scan before with
  | nil => cases found
  | cons c s ih =>
    rw [splitFrom] at found
    by_cases here : (scan.step c).depth = 0
    · rw [if_pos here] at found
      obtain ⟨rfl, rfl⟩ := Prod.mk.inj (Option.some.inj found)
      obtain rfl := eq_of_depth_step start here
      refine ⟨[], (List.append_nil _).symm, rfl, ?_, here⟩
      intro part empty
      rw [List.prefix_nil.1 empty]
      exact start
    · rw [if_neg here] at found
      obtain ⟨raw, rfl, rfl, inside, closed⟩ := ih here found
      refine ⟨c :: raw, by simp, rfl, ?_, closed⟩
      intro part begins
      cases part with
      | nil => exact start
      | cons d part =>
        obtain ⟨rfl, shorter⟩ := List.cons_prefix_cons.1 begins
        exact inside part shorter

end Scan

theorem splitGroup?_eq_some_iff {s raw rest : Text} :
    splitGroup? s = some (raw, rest) ↔ Encloses raw ∧ s = '(' :: (raw ++ ')' :: rest) := by
  constructor
  · intro found
    cases s with
    | nil => cases found
    | cons c s =>
      by_cases opening : c = '('
      · subst opening
        rw [splitGroup?, if_pos rfl] at found
        obtain ⟨raw, rfl, rfl, inside, closed⟩ := Scan.exists_of_splitFrom Nat.one_ne_zero found
        exact ⟨⟨inside, closed⟩, rfl⟩
      · rw [splitGroup?, if_neg opening] at found
        cases found
  · rintro ⟨⟨inside, closed⟩, rfl⟩
    rw [splitGroup?, if_pos rfl]
    exact Scan.splitFrom_append [] rest inside closed

instance (raw : Text) : Decidable (Encloses raw) :=
  decidable_of_iff (splitGroup? ('(' :: (raw ++ [')'])) = some (raw, []))
    (splitGroup?_eq_some_iff.trans (and_iff_left rfl))

end IndentMarkup
