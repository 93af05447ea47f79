import IndentMarkup.Element.Declaration
import IndentMarkup.Proofs.Group
import Mathlib.Tactic.SplitIfs

/-! Where groups end. The quotation a text leaves open and the balance of its parentheses
outside quotations are said without a scan; a balance can fall below zero, the depth of a
scan cannot. From inside a parenthesis a scan keeps to the balance until it is zero, so it
never counts down from zero, and the group ends at the first beginning that is balanced. -/
namespace IndentMarkup
open Text

/-- The quotation that is open behind one more character. Either mark begins one, and the
mark that began it ends it. -/
def turn (quote : Option Char) (c : Char) : Option Char :=
  match quote with
  | some mark => if c = mark then none else some mark
  | none => if c = '"' ∨ c = '\'' then some c else none

def openQuote (quote : Option Char) (s : Text) : Option Char := s.foldl turn quote

def weight (quote : Option Char) (c : Char) : Int :=
  match quote with
  | some _ => 0
  | none => if c = '(' then 1 else if c = ')' then -1 else 0

/-- How many more parentheses a text opens than it closes, if it starts in `quote`. -/
def balance (quote : Option Char) : Text → Int
  | [] => 0
  | c :: s => weight quote c + balance (turn quote c) s

@[simp] theorem openQuote_nil (quote : Option Char) : openQuote quote [] = quote := rfl

@[simp] theorem openQuote_cons (quote : Option Char) (c : Char) (s : Text) :
    openQuote quote (c :: s) = openQuote (turn quote c) s := rfl

theorem openQuote_append (quote : Option Char) (s t : Text) :
    openQuote quote (s ++ t) = openQuote (openQuote quote s) t :=
  List.foldl_append

@[simp] theorem balance_nil (quote : Option Char) : balance quote [] = 0 := rfl

@[simp] theorem balance_cons (quote : Option Char) (c : Char) (s : Text) :
    balance quote (c :: s) = weight quote c + balance (turn quote c) s := rfl

theorem balance_append (quote : Option Char) (s t : Text) :
    balance quote (s ++ t) = balance quote s + balance (openQuote quote s) t := by
  induction s generalizing quote with
  | nil => simp
  | cons c s ih => simp [ih, Int.add_assoc]

theorem neg_one_le_weight (quote : Option Char) (c : Char) : -1 ≤ weight quote c := by
  unfold weight
  split
  · omega
  · split_ifs <;> omega

theorem forall_prefix_cons {c : Char} {s : Text} {p : Text → Prop} :
    (∀ part, part <+: c :: s → p part) ↔ p [] ∧ ∀ part, part <+: s → p (c :: part) := by
  constructor
  · exact fun all => ⟨all [] (List.nil_prefix), fun part shorter =>
      all (c :: part) (List.cons_prefix_cons.2 ⟨rfl, shorter⟩)⟩
  · rintro ⟨empty, longer⟩ part begins
    rcases List.prefix_cons_iff.1 begins with rfl | ⟨rest, rfl, shorter⟩
    · exact empty
    · exact longer rest shorter

namespace Scan

theorem after_append (scan : Scan) (s t : Text) : scan.after (s ++ t) = (scan.after s).after t :=
  List.foldl_append

theorem step_eq (scan : Scan) (c : Char) :
    scan.step c = ⟨(scan.depth + weight scan.quote c).toNat, turn scan.quote c⟩ := by
  obtain ⟨depth, _ | mark⟩ := scan
  · by_cases quote : c = '"' ∨ c = '\''
    · have other : weight none c = 0 := by rcases quote with rfl | rfl <;> rfl
      simp [step, turn, quote, other]
    · simp only [step, turn, weight, quote, if_false]
      split_ifs
      · rfl
      · simp; omega
      · simp
  · simp only [step, turn, weight]
    split_ifs <;> simp

theorem quote_step (scan : Scan) (c : Char) : (scan.step c).quote = turn scan.quote c := by
  rw [step_eq]

theorem depth_step {scan : Scan} (inside : scan.depth ≠ 0) (c : Char) :
    ((scan.step c).depth : Int) = scan.depth + weight scan.quote c := by
  have least := neg_one_le_weight scan.quote c
  rw [step_eq]
  exact Int.toNat_of_nonneg (by omega)

theorem quote_after (scan : Scan) (s : Text) :
    (scan.after s).quote = openQuote scan.quote s := by
  induction s generalizing scan with
  | nil => rfl
  | cons c s ih => rw [after_cons, ih, quote_step, openQuote_cons]

theorem open_iff_balance {scan : Scan} {s : Text} :
    (∀ part, part <+: s → (scan.after part).depth ≠ 0) ↔
      ∀ part, part <+: s → 0 < scan.depth + balance scan.quote part := by
  induction s generalizing scan with
  | nil => simp [Nat.pos_iff_ne_zero]
  | cons c s ih =>
    rw [forall_prefix_cons, forall_prefix_cons]
    simp only [after_nil, after_cons, ih, balance_nil, balance_cons, quote_step]
    have start : scan.depth ≠ 0 ↔ 0 < (scan.depth : Int) + 0 := by omega
    rw [← start]
    refine and_congr_right fun inside => forall₂_congr fun part _ => ?_
    rw [depth_step inside, Int.add_assoc]

theorem depth_after {scan : Scan} {s : Text}
    (inside : ∀ part, part <+: s → (scan.after part).depth ≠ 0) :
    ((scan.after s).depth : Int) = scan.depth + balance scan.quote s := by
  induction s generalizing scan with
  | nil => simp
  | cons c s ih =>
    obtain ⟨start, inside⟩ := forall_prefix_cons.1 inside
    rw [after_nil] at start
    rw [after_cons, ih inside, depth_step start, quote_step, balance_cons, Int.add_assoc]

theorem splitFrom_eq_none_iff {scan : Scan} (start : scan.depth ≠ 0) {before s : Text} :
    scan.splitFrom before s = none ↔
      ∀ part, part <+: s → scan.depth + balance scan.quote part ≠ 0 := by
  induction s generalizing scan before with
  | nil => simpa [splitFrom] using start
  | cons c s ih =>
    have counts := depth_step start c
    rw [forall_prefix_cons]
    by_cases here : (scan.step c).depth = 0
    · rw [splitFrom, if_pos here]
      refine iff_of_false (Option.some_ne_none _) fun all => all.2 [] List.nil_prefix ?_
      simp only [balance_cons, balance_nil]
      omega
    · rw [splitFrom, if_neg here, ih here, quote_step, counts]
      simp only [balance_nil, balance_cons, ← Int.add_assoc]
      exact (and_iff_right (by omega)).symm

theorem depth_concat {raw : Text}
    (inside : ∀ part, part <+: raw → (after ⟨1, none⟩ part).depth ≠ 0) :
    ((after ⟨1, none⟩ (raw ++ [')'])).depth : Int) =
      1 + balance none raw + weight (openQuote none raw) ')' := by
  have start : (after ⟨1, none⟩ raw).depth ≠ 0 := inside raw List.prefix_rfl
  rw [after_append, after_cons, after_nil, depth_step start, depth_after inside, quote_after]
  rfl

def step? (scan : Scan) (c : Char) : Option Scan :=
  if scan.quote = none ∧ c = ')' ∧ scan.depth = 0 then none else some (scan.step c)

/-- The search for the end of a group by such steps; `none` if one of them is refused. -/
def splitGuarded (scan : Scan) (before : Text) : Text → Option (Option (Text × Text))
  | [] => some none
  | c :: rest => (scan.step? c).bind fun next =>
    if next.depth = 0 then some (some (before.reverse, rest))
    else next.splitGuarded (c :: before) rest

theorem splitGuarded_eq_splitFrom {scan : Scan} (start : scan.depth ≠ 0) (before s : Text) :
    scan.splitGuarded before s = some (scan.splitFrom before s) := by
  induction s generalizing scan before with
  | nil => rfl
  | cons c s ih =>
    have next : scan.step? c = some (scan.step c) := if_neg fun refused => start refused.2.2
    rw [splitGuarded, next, Option.bind_some, splitFrom]
    by_cases here : (scan.step c).depth = 0
    · rw [if_pos here, if_pos here]
    · rw [if_neg here, if_neg here, ih here]

theorem splitFrom_before (scan : Scan) (before s : Text) :
    scan.splitFrom before s =
      (scan.splitFrom [] s).map fun (raw, rest) => (before.reverse ++ raw, rest) := by
  induction s generalizing scan before with
  | nil => rfl
  | cons c s ih =>
    rw [splitFrom, splitFrom]
    by_cases here : (scan.step c).depth = 0
    · simp [here]
    · rw [if_neg here, if_neg here, ih _ (c :: before), ih _ [c], Option.map_map]
      simp [Function.comp_def]

end Scan

/-- The text between parentheses makes a group: outside quotations the last parenthesis
closes the first, and some parenthesis is open everywhere between them. -/
structure Parenthesized (raw : Text) : Prop where
  even : balance none ('(' :: (raw ++ [')'])) = 0
  outside : openQuote none ('(' :: (raw ++ [')'])) = none
  within : ∀ part, part <+: '(' :: (raw ++ [')']) → part ≠ [] → part ≠ '(' :: (raw ++ [')']) →
    1 ≤ balance none part

theorem forall_within_group {raw : Text} {p : Text → Prop} :
    (∀ part, part <+: '(' :: (raw ++ [')']) → part ≠ [] → part ≠ '(' :: (raw ++ [')']) →
      p part) ↔ ∀ part, part <+: raw → p ('(' :: part) := by
  constructor
  · intro all part begins
    refine all ('(' :: part) ?_ (List.cons_ne_nil _ _) ?_
    · exact List.cons_prefix_cons.2 ⟨rfl, begins.trans (List.prefix_append _ _)⟩
    · intro same
      have longer := begins.length_le
      rw [(List.cons.inj same).2, List.length_append, List.length_singleton] at longer
      omega
  · intro all part begins given shorter
    rcases List.prefix_cons_iff.1 begins with empty | ⟨rest, rfl, behind⟩
    · exact absurd empty given
    · rcases List.prefix_concat_iff.1 behind with whole | inside
      · exact absurd (congrArg _ whole) shorter
      · exact all rest inside

theorem encloses_iff_parenthesized {raw : Text} : Encloses raw ↔ Parenthesized raw := by
  have total : balance none ('(' :: (raw ++ [')'])) =
      1 + balance none raw + weight (openQuote none raw) ')' := by
    rw [balance_cons, balance_append, balance_cons, balance_nil, Int.add_zero, ← Int.add_assoc]
    rfl
  have last : openQuote none ('(' :: (raw ++ [')'])) = turn (openQuote none raw) ')' := by
    rw [openQuote_cons, openQuote_append]
    rfl
  have inside : (∀ part, part <+: raw → (Scan.after ⟨1, none⟩ part).depth ≠ 0) ↔
      ∀ part, part <+: raw → 1 ≤ balance none ('(' :: part) := Scan.open_iff_balance
  rw [Encloses]
  constructor
  · rintro ⟨stays, closed⟩
    have counts := Scan.depth_concat stays
    rw [closed] at counts
    have open' := Scan.open_iff_balance.1 stays raw List.prefix_rfl
    refine ⟨total.trans counts.symm, last.trans ?_, forall_within_group.2 (inside.1 stays)⟩
    cases quote : openQuote none raw with
    | none => rfl
    | some mark =>
      simp only [quote, weight] at counts
      simp at open'
      omega
  · rintro ⟨even, -, within⟩
    have stays := inside.2 (forall_within_group.1 within)
    have counts := Scan.depth_concat stays
    exact ⟨stays, by omega⟩

def trimmedGroup? (s : Text) : Option (Text × Text) :=
  (splitGroup? s).map fun (raw, rest) => (trim raw, rest)

theorem readAttributes?_eq_trimmedGroup? (t : Text) :
    Element.readAttributes? ('(' :: t) =
      (trimmedGroup? ('(' :: t)).map fun (inner, rest) => (nonempty? inner, rest) := by
  rw [Element.readAttributes?, if_pos List.head?_cons, trimmedGroup?, Option.map_map]
  rfl

theorem splitGroup?_eq_some_iff_parenthesized {t raw rest : Text} :
    splitGroup? ('(' :: t) = some (raw, rest) ↔ Parenthesized raw ∧ t = raw ++ ')' :: rest := by
  rw [splitGroup?_eq_some_iff, encloses_iff_parenthesized, List.cons.injEq, and_iff_right rfl]

theorem trimmedGroup?_eq_some_iff {t inner rest : Text} :
    trimmedGroup? ('(' :: t) = some (inner, rest) ↔
      ∃ raw, Parenthesized raw ∧ t = raw ++ ')' :: rest ∧ inner = trim raw := by
  rw [trimmedGroup?, Option.map_eq_some_iff]
  constructor
  · rintro ⟨⟨raw, after⟩, found, made⟩
    obtain ⟨rfl, rfl⟩ := Prod.mk.inj made
    obtain ⟨closes, parts⟩ := splitGroup?_eq_some_iff_parenthesized.1 found
    exact ⟨raw, closes, parts, rfl⟩
  · rintro ⟨raw, closes, parts, rfl⟩
    exact ⟨(raw, rest), splitGroup?_eq_some_iff_parenthesized.2 ⟨closes, parts⟩, rfl⟩

theorem splitGroup?_eq_none_iff {t : Text} :
    splitGroup? ('(' :: t) = none ↔
      ∀ part, part <+: '(' :: t → part ≠ [] → balance none part ≠ 0 := by
  rw [splitGroup?, if_pos rfl, Scan.splitFrom_eq_none_iff Nat.one_ne_zero, forall_prefix_cons]
  refine ⟨fun all => ⟨fun empty => absurd rfl empty, fun part begins _ => all part begins⟩, ?_⟩
  exact fun all part begins => all.2 part begins (List.cons_ne_nil _ _)

theorem splitGuarded_eq_splitGroup? (t : Text) :
    Scan.splitGuarded ⟨0, none⟩ [] ('(' :: t) =
      some ((splitGroup? ('(' :: t)).map fun (raw, rest) => ('(' :: raw, rest)) := by
  have first : Scan.splitGuarded ⟨0, none⟩ [] ('(' :: t) =
      Scan.splitGuarded ⟨1, none⟩ ['('] t := rfl
  rw [first, Scan.splitGuarded_eq_splitFrom Nat.one_ne_zero, Scan.splitFrom_before, splitGroup?,
    if_pos rfl]
  rfl

/-- The group that a text starts with ends at its first beginning that is balanced outside
quotations, if there is one. Only blanks are taken off it, nothing is ever counted down from
zero, and what follows the group has no part in it. -/
theorem trimmedGroup?_ends_at_balance (t : Text) :
    (∀ inner rest, trimmedGroup? ('(' :: t) = some (inner, rest) ↔
      ∃ raw, Parenthesized raw ∧ '(' :: t = '(' :: (raw ++ ')' :: rest) ∧ inner = trim raw) ∧
    (∀ raw raw' rest rest', Parenthesized raw → Parenthesized raw' →
      '(' :: t = '(' :: (raw ++ ')' :: rest) → '(' :: t = '(' :: (raw' ++ ')' :: rest') →
      raw = raw') ∧
    (trimmedGroup? ('(' :: t) = none ↔
      ∀ part, part <+: '(' :: t → part ≠ [] → balance none part ≠ 0) ∧
    Scan.splitGuarded ⟨0, none⟩ [] ('(' :: t) =
      some ((splitGroup? ('(' :: t)).map fun (raw, rest) => ('(' :: raw, rest)) ∧
    (∀ inner rest following, trimmedGroup? ('(' :: t) = some (inner, rest) →
      trimmedGroup? ('(' :: t ++ following) = some (inner, rest ++ following)) ∧
    Element.readAttributes? ('(' :: t) =
      (trimmedGroup? ('(' :: t)).map fun (inner, rest) => (nonempty? inner, rest) := by
  simp only [List.cons.injEq, true_and, List.cons_append]
  refine ⟨fun _ _ => trimmedGroup?_eq_some_iff, ?_, ?_, splitGuarded_eq_splitGroup? t, ?_,
    readAttributes?_eq_trimmedGroup? t⟩
  · intro raw raw' rest rest' closes closes' parts parts'
    have found := splitGroup?_eq_some_iff_parenthesized.2 ⟨closes, parts⟩
    have found' := splitGroup?_eq_some_iff_parenthesized.2 ⟨closes', parts'⟩
    exact (Prod.mk.inj (Option.some.inj (found.symm.trans found'))).1
  · rw [trimmedGroup?, Option.map_eq_none_iff]
    exact splitGroup?_eq_none_iff
  · intro inner rest following found
    obtain ⟨raw, closes, rfl, same⟩ := trimmedGroup?_eq_some_iff.1 found
    exact trimmedGroup?_eq_some_iff.2 ⟨raw, closes, by simp, same⟩

example : trimmedGroup? "( a=')' b=\"'(\" (c) ) d".toList =
    some ("a=')' b=\"'(\" (c)".toList, " d".toList) := by
  decide +kernel

end IndentMarkup
