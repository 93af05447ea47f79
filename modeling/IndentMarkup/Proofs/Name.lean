import IndentMarkup.Proofs.Text

/-! Names behind marks. Reading a marked name, one that may be missing or several
in a row gives back exactly what was written, whenever the text behind it can
neither go on with the name nor start another. -/
namespace IndentMarkup.Text

def IsLetter (c : Char) : Prop := ('a' ≤ c ∧ c ≤ 'z') ∨ ('A' ≤ c ∧ c ≤ 'Z')

def ContinuesName (c : Char) : Prop := IsLetter c ∨ ('0' ≤ c ∧ c ≤ '9') ∨ c = '_' ∨ c = '-'

def IsName : Text → Prop
  | [] => False
  | first :: rest => IsLetter first ∧ ∀ c ∈ rest, ContinuesName c

def spellOptional (mark : Char) : Option Text → Text
  | none => []
  | some name => mark :: name

def spellChain (mark : Char) : List Text → Text
  | [] => []
  | name :: names => mark :: name ++ spellChain mark names

theorem isLetter_iff {c : Char} : IsLetter c ↔ c.isAlpha = true := by
  change _ ↔ (decide ('A' ≤ c ∧ c ≤ 'Z') || decide ('a' ≤ c) && decide (c ≤ 'z')) = true
  simp only [IsLetter, Bool.or_eq_true, Bool.and_eq_true, decide_eq_true_eq]
  exact Or.comm

theorem continuesName_iff {c : Char} : ContinuesName c ↔ isNameChar c = true := by
  have digit : ('0' ≤ c ∧ c ≤ '9') ↔ c.isDigit = true := by
    change _ ↔ (decide ('0' ≤ c) && decide (c ≤ '9')) = true
    rw [Bool.and_eq_true, decide_eq_true_eq, decide_eq_true_eq]
  simp only [ContinuesName, isLetter_iff, digit, isNameChar, Char.isAlphanum, Bool.or_eq_true,
    decide_eq_true_eq, or_assoc]

theorem isName_cons_iff {first : Char} {rest : Text} :
    IsName (first :: rest) ↔ first.isAlpha = true ∧ ∀ c ∈ rest, isNameChar c = true := by
  simp only [IsName, isLetter_iff, continuesName_iff]

theorem isNameChar_of_isAlpha {c : Char} (alpha : c.isAlpha = true) : isNameChar c = true := by
  simp [isNameChar, Char.isAlphanum, alpha]

theorem IsName.isNameChar {s : Text} (name : IsName s) : ∀ c ∈ s, isNameChar c = true := by
  cases s with
  | nil => exact name.elim
  | cons first rest =>
    obtain ⟨letter, others⟩ := isName_cons_iff.1 name
    exact List.forall_mem_cons.2 ⟨isNameChar_of_isAlpha letter, others⟩

instance : DecidablePred IsName
  | [] => .isFalse id
  | first :: rest => decidable_of_iff (first.isAlpha = true ∧ rest.all isNameChar = true)
      ((and_congr_right' List.all_eq_true).trans isName_cons_iff.symm)

theorem IsName.solid_cons {name : Text} (valid : IsName name) (mark : Char) :
    Solid (mark :: name) := by
  have shown : Solid name :=
    solid_of_forall fun c member => isBlank_eq_false_of_isNameChar (valid.isNameChar c member)
  exact shown.cons (fun missing => (missing ▸ valid : IsName [])) mark

theorem solid_spellOptional {mark : Char} {name : Option Text} (valid : ∀ s ∈ name, IsName s) :
    Solid (spellOptional mark name) := by
  cases name with
  | none => exact solid_nil
  | some name => exact (valid name rfl).solid_cons mark

theorem solid_spellChain {mark : Char} {names : List Text} (valid : ∀ s ∈ names, IsName s) :
    Solid (spellChain mark names) := by
  induction names with
  | nil => exact solid_nil
  | cons name names ih =>
    obtain ⟨first, others⟩ := List.forall_mem_cons.1 valid
    exact (first.solid_cons mark).append (ih others)

theorem marked?_append {mark : Char} {name rest : Text} (valid : IsName name)
    (ends : Off isNameChar rest) : marked? mark (mark :: name ++ rest) = some (name, rest) := by
  cases name with
  | nil => exact valid.elim
  | cons first name =>
    obtain ⟨letter, others⟩ := isName_cons_iff.1 valid
    rw [List.cons_append, List.cons_append, marked?, if_pos ⟨rfl, letter⟩,
      ends.takeWhile_append others, ends.dropWhile_append others]

theorem marked?_eq_none {mark : Char} {s : Text} (off : Off (· = mark) s) :
    marked? mark s = none := by
  unfold marked?
  split
  · rw [if_neg]
    rintro ⟨rfl, -⟩
    simp at off
  · rfl

theorem chain_eq_nil {mark : Char} {s : Text} (off : Off (· = mark) s) :
    chain mark s = ([], s) := by
  rw [chain]
  split
  next found => simp [marked?_eq_none off] at found
  next => rfl

theorem isName_of_marked? {mark : Char} {s name rest : Text}
    (found : marked? mark s = some (name, rest)) : IsName name := by
  unfold marked? at found
  split at found
  · split at found
    next start =>
      obtain ⟨rfl, rfl⟩ := Prod.mk.inj (Option.some.inj found)
      exact isName_cons_iff.2
        ⟨start.2, fun c member => List.all_eq_true.1 List.all_takeWhile c member⟩
    next => cases found
  · cases found

theorem optional_append {mark : Char} {name : Option Text} {rest : Text}
    (valid : ∀ s ∈ name, IsName s) (ends : Off isNameChar rest) (other : Off (· = mark) rest) :
    optional mark (spellOptional mark name ++ rest) = (name, rest) := by
  cases name with
  | none => simp [optional, spellOptional, marked?_eq_none other]
  | some name => simp only [optional, spellOptional, marked?_append (valid name rfl) ends]

theorem spellOptional_of_optional {mark : Char} {s rest : Text} {name : Option Text}
    (read : optional mark s = (name, rest)) :
    (∀ s ∈ name, IsName s) ∧ s = spellOptional mark name ++ rest := by
  unfold optional at read
  split at read
  next found after marked =>
    obtain ⟨rfl, rfl⟩ := Prod.mk.inj read
    refine ⟨?_, eq_of_marked? marked⟩
    intro name member
    exact Option.some.inj member ▸ isName_of_marked? marked
  next =>
    obtain ⟨rfl, rfl⟩ := Prod.mk.inj read
    exact ⟨by simp, rfl⟩

theorem chain_append {mark : Char} {names : List Text} {rest : Text}
    (valid : ∀ s ∈ names, IsName s) (apart : isNameChar mark = false)
    (ends : Off isNameChar rest) (other : Off (· = mark) rest) :
    chain mark (spellChain mark names ++ rest) = (names, rest) := by
  induction names with
  | nil => exact chain_eq_nil other
  | cons name names ih =>
    obtain ⟨first, others⟩ := List.forall_mem_cons.1 valid
    have next : Off isNameChar (spellChain mark names ++ rest) := by
      cases names with
      | nil => exact ends
      | cons => exact off_cons.2 apart
    have found : marked? mark (mark :: name ++ (spellChain mark names ++ rest)) = some (name, _) :=
      marked?_append first next
    rw [spellChain, List.append_assoc, chain]
    split
    next marked =>
      obtain ⟨rfl, rfl⟩ := Prod.mk.inj (Option.some.inj (found.symm.trans marked))
      simp only [ih others]
    next marked => cases found.symm.trans marked

theorem spellChain_of_chain {mark : Char} {s rest : Text} {names : List Text}
    (read : chain mark s = (names, rest)) :
    (∀ s ∈ names, IsName s) ∧ s = spellChain mark names ++ rest := by
  fun_induction chain mark s generalizing names rest with
  | case1 s name after marked shorter others final eq ih =>
    obtain ⟨rfl, rfl⟩ := Prod.mk.inj read
    obtain ⟨valid, spelled⟩ := ih eq
    refine ⟨List.forall_mem_cons.2 ⟨isName_of_marked? marked, valid⟩, ?_⟩
    rw [eq_of_marked? marked, spelled, spellChain, List.append_assoc]
  | case2 s marked =>
    obtain ⟨rfl, rfl⟩ := Prod.mk.inj read
    exact ⟨by simp, rfl⟩

end IndentMarkup.Text
