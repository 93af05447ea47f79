import IndentMarkup.Proofs.Balance
import IndentMarkup.Proofs.DashLine

/-! Conditions of blocks. A condition reaches to the last parenthesis of its line, whether
or not that is the one which closes the first. Where no quotation mark stands on the line,
it is so exactly if the parentheses inside the condition match up; a line on which they do
not is a block all the same. -/
namespace IndentMarkup
open Text

/-- No parenthesis is closed that is not open, and none is open in the end. -/
structure Matched (s : Text) : Prop where
  within : ∀ part, part <+: s → part.count ')' ≤ part.count '('
  even : s.count ')' = s.count '('

def Unquoted (s : Text) : Prop := '"' ∉ s ∧ '\'' ∉ s

instance : DecidablePred Unquoted := fun s => inferInstanceAs (Decidable ('"' ∉ s ∧ '\'' ∉ s))

theorem unquoted_cons {c : Char} {s : Text} :
    Unquoted (c :: s) ↔ (c ≠ '"' ∧ c ≠ '\'') ∧ Unquoted s := by
  simp only [Unquoted, List.mem_cons, not_or, ne_eq, eq_comm (a := c)]
  exact and_and_and_comm

theorem Unquoted.of_subset {s t : Text} (plain : Unquoted t) (inside : s ⊆ t) : Unquoted s :=
  ⟨fun member => plain.1 (inside member), fun member => plain.2 (inside member)⟩

theorem openQuote_of_unquoted {s : Text} (plain : Unquoted s) : openQuote none s = none := by
  induction s with
  | nil => rfl
  | cons c s ih =>
    obtain ⟨here, plain⟩ := unquoted_cons.1 plain
    have next : turn none c = none := if_neg (not_or.2 here)
    rw [openQuote_cons, next, ih plain]

theorem balance_of_unquoted {s : Text} (plain : Unquoted s) :
    balance none s = s.count '(' - s.count ')' := by
  induction s with
  | nil => rfl
  | cons c s ih =>
    obtain ⟨here, plain⟩ := unquoted_cons.1 plain
    have next : turn none c = none := if_neg (not_or.2 here)
    rw [balance_cons, next, ih plain]
    by_cases opening : c = '('
    · subst opening; simp [weight]; omega
    · by_cases closing : c = ')'
      · subst closing; simp [weight]; omega
      · simp [weight, opening, closing]

theorem encloses_iff_matched {raw : Text} (plain : Unquoted raw) : Encloses raw ↔ Matched raw := by
  have stays : (∀ part, part <+: raw → (Scan.after ⟨1, none⟩ part).depth ≠ 0) ↔
      ∀ part, part <+: raw → part.count ')' ≤ part.count '(' := by
    refine Scan.open_iff_balance.trans (forall₂_congr fun part begins => ?_)
    rw [balance_of_unquoted (plain.of_subset begins.subset)]
    change 0 < 1 + _ ↔ _
    omega
  have closing (inside : ∀ part, part <+: raw → (Scan.after ⟨1, none⟩ part).depth ≠ 0) :
      ((Scan.after ⟨1, none⟩ (raw ++ [')'])).depth : Int) = raw.count '(' - raw.count ')' := by
    rw [Scan.depth_concat inside, openQuote_of_unquoted plain, balance_of_unquoted plain]
    change 1 + _ + -1 = _
    omega
  constructor
  · rintro ⟨inside, closed⟩
    have even := closing inside
    exact ⟨stays.1 inside, by omega⟩
  · rintro ⟨within, even⟩
    have inside := stays.2 within
    have closed := closing inside
    exact ⟨inside, by omega⟩

namespace Matched

theorem append {s t : Text} (left : Matched s) (right : Matched t) : Matched (s ++ t) where
  within part begins := by
    rcases List.prefix_or_prefix_of_prefix begins (List.prefix_append s t) with shorter | longer
    · exact left.within part shorter
    · obtain ⟨rest, rfl⟩ := longer
      have more := right.within rest ((List.prefix_append_right_inj s).1 begins)
      rw [List.count_append, List.count_append, left.even]
      omega
  even := by rw [List.count_append, List.count_append, left.even, right.even]

theorem of_append_left {s t : Text} (whole : Matched (s ++ t)) (right : Matched t) :
    Matched s where
  within part begins := whole.within part (begins.trans (List.prefix_append s t))
  even := by
    have total := whole.even
    rw [List.count_append, List.count_append, right.even] at total
    exact Nat.add_right_cancel total

theorem of_append_right {s t : Text} (whole : Matched (s ++ t)) (left : Matched s) :
    Matched t where
  within part begins := by
    have longer := whole.within (s ++ part) ((List.prefix_append_right_inj s).2 begins)
    rw [List.count_append, List.count_append, left.even] at longer
    exact Nat.le_of_add_le_add_left longer
  even := by
    have total := whole.even
    rw [List.count_append, List.count_append, left.even] at total
    exact Nat.add_left_cancel total

end Matched

theorem matched_of_blank {gap : Text} (blank : ∀ c ∈ gap, isBlank c = true) : Matched gap := by
  have none {c : Char} (shown : isBlank c = false) {part : Text} (begins : part <+: gap) :
      part.count c = 0 := by
    refine List.count_eq_zero.2 fun member => ?_
    rw [blank c (begins.subset member)] at shown
    cases shown
  constructor
  · intro part begins
    rw [none (by decide : isBlank ')' = false) begins]
    exact Nat.zero_le _
  · rw [none (by decide : isBlank ')' = false) List.prefix_rfl,
      none (by decide : isBlank '(' = false) List.prefix_rfl]

theorem matched_trim_iff {s : Text} : Matched (trim s) ↔ Matched s := by
  obtain ⟨gap, blank, parts⟩ := exists_trimEnd_append s
  have trail := matched_of_blank blank
  have lead : Matched (margin (trimEnd s)) := matched_of_blank fun _ => isBlank_of_mem_margin
  have ending : margin (trimEnd s) ++ trim s = trimEnd s := margin_append_trimStart _
  constructor
  · intro core
    rw [← parts, ← ending]
    exact (lead.append core).append trail
  · intro whole
    rw [← parts] at whole
    have start := whole.of_append_left trail
    rw [← ending] at start
    exact start.of_append_right lead

def IsGroup (s : Text) : Prop := ∃ inside, splitGroup? s = some (inside, [])

theorem isGroup_iff_encloses {body : Text} : IsGroup ('(' :: (body ++ [')'])) ↔ Encloses body := by
  constructor
  · rintro ⟨inside, found⟩
    obtain ⟨encloses, same⟩ := splitGroup?_eq_some_iff.1 found
    rwa [List.append_cancel_right (List.cons.inj same).2]
  · exact fun encloses => ⟨body, splitGroup?_eq_some_iff.2 ⟨encloses, rfl⟩⟩

/-- A line is a block only if its condition is matched, and if what stands behind a keyword
and starts with a parenthesis is not one group up to the end, the line is code. -/
structure Line.KeepsGroups (line : Line) : Prop where
  matched : ∀ keyword condition, line.statement = .block keyword condition → Matched condition
  code : ∀ (lead gap : Gap) (keyword : Keyword) (behind : Text),
    line.content = '-' :: (lead.val ++ (keyword.word ++ (gap.val ++ '(' :: behind))) →
    ¬ IsGroup ('(' :: behind) → ∃ source, line.statement = .code source

theorem BlockLine.body_subset (b : BlockLine) : b.body ⊆ b.spelling := by
  intro c member
  simp [spelling, group, member]

theorem BlockLine.isGroup_iff_matched {b : BlockLine} (plain : Unquoted b.spelling) :
    IsGroup b.group ↔ Matched b.body :=
  isGroup_iff_encloses.trans (encloses_iff_matched (plain.of_subset b.body_subset))

theorem readBlock?_eq_none_of_not_isGroup {s : Text} (plain : Unquoted s) {lead gap : Gap}
    {keyword : Keyword} {behind : Text}
    (spelled : s = '-' :: (lead.val ++ (keyword.word ++ (gap.val ++ '(' :: behind))))
    (matched : ∀ b : BlockLine, b.spelling = s → Matched b.body)
    (other : ¬ IsGroup ('(' :: behind)) : Statement.readBlock? s = none := by
  rw [spelled, Statement.readBlock?_dash lead.2 gap.2 keyword rfl]
  cases enclosed : Statement.enclosed? ('(' :: behind) with
  | none => rfl
  | some inside =>
    have parts := Statement.enclosed?_eq_some_iff.1 enclosed
    rw [Option.bind_some]
    cases filled : nonempty? (trim inside) with
    | none => rfl
    | some condition =>
      obtain ⟨rfl, given⟩ := nonempty?_eq_some_iff.1 filled
      let b : BlockLine := ⟨lead, keyword, gap, inside, given⟩
      have same : b.spelling = s := by
        rw [spelled, parts]
        rfl
      have group : IsGroup b.group :=
        (BlockLine.isGroup_iff_matched (same ▸ plain)).2 (matched b same)
      exact absurd (parts ▸ group) other

theorem exists_code_of_not_isGroup {s : Text} (plain : Unquoted s) {lead gap : Gap}
    {keyword : Keyword} {behind : Text}
    (spelled : s = '-' :: (lead.val ++ (keyword.word ++ (gap.val ++ '(' :: behind))))
    (matched : ∀ b : BlockLine, b.spelling = s → Matched b.body)
    (other : ¬ IsGroup ('(' :: behind)) : ∃ source, Statement.read s = .code source := by
  have parenthesis : '(' ∈ lead.val ++ (keyword.word ++ (gap.val ++ '(' :: behind)) := by simp
  refine ⟨_, Statement.read_eq_code_iff.2 ⟨_, spelled,
    Statement.off_hash_behind_dash lead.2 keyword _, ?_, rfl, ?_⟩⟩
  · exact readBlock?_eq_none_of_not_isGroup plain spelled matched other
  · exact trim_ne_nil parenthesis (by decide)

/-- Blocks are told by the last character of a line and not by the parenthesis that closes
the first, so the lines on which groups are kept are those without a mismatch between them. -/
theorem keepsGroups_iff_matched (number : Nat) (raw : Text) (plain : Unquoted raw) :
    (∀ keyword condition, (Line.read number raw).statement = .block keyword condition ↔
      ∃ b : BlockLine, b.spelling = trim raw ∧ b.statement = .block keyword condition) ∧
    (∀ b : BlockLine, b.spelling = trim raw → (IsGroup b.group ↔ Matched (trim b.body))) ∧
    ((Line.read number raw).KeepsGroups ↔
      ∀ b : BlockLine, b.spelling = trim raw → Matched b.body) := by
  have plain : Unquoted (trim raw) := plain.of_subset fun _ => mem_of_mem_trim
  refine ⟨fun _ _ => Statement.read_eq_block_iff, ?_, ?_, ?_⟩
  · intro b spelled
    rw [matched_trim_iff]
    exact BlockLine.isGroup_iff_matched (spelled ▸ plain)
  · intro keeps b spelled
    have made : (Line.read number raw).statement = b.statement :=
      Statement.read_eq_block_iff.2 ⟨b, spelled, rfl⟩
    exact matched_trim_iff.1 (keeps.matched _ _ made)
  · intro matched
    constructor
    case matched =>
      intro keyword condition made
      obtain ⟨b, spelled, same⟩ := Statement.read_eq_block_iff.1 made
      obtain ⟨-, rfl⟩ := Statement.block.inj same
      exact matched_trim_iff.2 (matched b spelled)
    case code =>
      intro lead gap keyword behind spelled other
      exact exists_code_of_not_isGroup plain spelled matched other

theorem keepsGroups_iff_matched_nested :
    Unquoted "- if(f($a))".toList ∧ (Line.read 1 "- if(f($a))".toList).KeepsGroups := by
  obtain ⟨-, -, keeps⟩ := keepsGroups_iff_matched 1 "- if(f($a))".toList (by decide)
  refine ⟨by decide, keeps.2 fun b spelled => matched_trim_iff.1 ?_⟩
  have made : Statement.read (trim "- if(f($a))".toList) = b.statement :=
    Statement.read_eq_block_iff.2 ⟨b, spelled, rfl⟩
  have read : Statement.read (trim "- if(f($a))".toList) = .block .ifBlock "f($a)".toList := by
    decide +kernel
  obtain ⟨-, same⟩ := Statement.block.inj (made.symm.trans read)
  rw [same]
  exact (encloses_iff_matched (by decide)).1 (by decide)

theorem not_keepsGroups_call :
    Unquoted "- if($a) f($b)".toList ∧
      (Line.read 1 "- if($a) f($b)".toList).statement = .block .ifBlock "$a) f($b".toList ∧
      ¬ (Line.read 1 "- if($a) f($b)".toList).KeepsGroups := by
  have made : (Line.read 1 "- if($a) f($b)".toList).statement =
      .block .ifBlock "$a) f($b".toList := by
    decide +kernel
  refine ⟨by decide, made, fun keeps => ?_⟩
  have early := (keeps.matched _ _ made).within "$a)".toList (by decide)
  exact absurd early (by decide)

end IndentMarkup
