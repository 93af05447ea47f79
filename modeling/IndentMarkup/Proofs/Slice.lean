import IndentMarkup.Proofs.Name

/-! Slices of encoded texts. A string is the UTF-8 encoding of its characters, and offsets
into it count bytes. A slice is refused where an offset lies outside the string or inside a
character. No byte of a character beyond ASCII is an ASCII byte, so a run of ASCII bytes ends
where the run of the characters they encode does, and slices taken there are cuts between
characters. -/
namespace IndentMarkup.Encoded

/-- The offset lies in the string, and not inside one of its characters. -/
def Between (s : String) (offset : Nat) : Prop := (⟨offset⟩ : String.Pos.Raw).IsValid s

instance (s : String) (offset : Nat) : Decidable (Between s offset) :=
  inferInstanceAs (Decidable ((⟨offset⟩ : String.Pos.Raw).IsValid s))

theorem between_size (front back : String) : Between (front ++ back) front.utf8ByteSize :=
  String.Pos.Raw.isValid_iff_exists_append.2 ⟨front, back, rfl, rfl⟩

theorem isValidUTF8_extract {s : String} {first last : Nat}
    (within : first ≤ last ∧ Between s first ∧ Between s last) :
    (s.toByteArray.extract first last).IsValidUTF8 :=
  (String.Pos.Raw.isValidUTF8_extract_iff ⟨first⟩ ⟨last⟩ within.1 within.2.2.le_rawEndPos).2
    (.inr within.2)

def slice? (s : String) (first last : Nat) : Option String :=
  if within : first ≤ last ∧ Between s first ∧ Between s last then
    some (.fromUTF8 (s.toByteArray.extract first last) (isValidUTF8_extract within))
  else none

theorem slice?_append (front s back : String) :
    slice? (front ++ s ++ back) front.utf8ByteSize (front ++ s).utf8ByteSize = some s := by
  have order : front.utf8ByteSize ≤ (front ++ s).utf8ByteSize := by simp
  have start : Between (front ++ s ++ back) front.utf8ByteSize := by
    rw [String.append_assoc]
    exact between_size front (s ++ back)
  rw [slice?, dif_pos ⟨order, start, between_size (front ++ s) back⟩]
  refine congrArg some (String.toByteArray_inj.1 ?_)
  calc (front ++ s ++ back).toByteArray.extract front.utf8ByteSize (front ++ s).utf8ByteSize
      = (front ++ s).toByteArray.extract front.utf8ByteSize (front ++ s).utf8ByteSize :=
        ByteArray.extract_append_size_left
    _ = s.toByteArray := ByteArray.extract_append_eq_right rfl String.utf8ByteSize_append

/-- A slice is a stretch of the characters of a string; its offsets are the sizes of what
comes before its start and before its end. -/
theorem slice?_eq_some_iff {s part : String} {first last : Nat} :
    slice? s first last = some part ↔ ∃ front back, s = front ++ part ++ back ∧
      first = front.utf8ByteSize ∧ last = (front ++ part).utf8ByteSize := by
  constructor
  · intro taken
    by_cases within : first ≤ last ∧ Between s first ∧ Between s last
    · rw [slice?, dif_pos within] at taken
      obtain rfl := Option.some.inj taken
      have range : last ≤ s.utf8ByteSize := within.2.2.le_utf8ByteSize
      refine ⟨.fromUTF8 _ within.2.1.isValidUTF8_extract_zero,
        .fromUTF8 _ within.2.2.isValidUTF8_extract_utf8ByteSize, String.toByteArray_inj.1 ?_,
        ?_, ?_⟩
      · have parts : s.toByteArray = s.toByteArray.extract 0 first ++
            s.toByteArray.extract first last ++ s.toByteArray.extract last s.utf8ByteSize := by
          rw [← ByteArray.extract_eq_extract_append_extract first (Nat.zero_le _) within.1,
            ← ByteArray.extract_eq_extract_append_extract last (Nat.zero_le _) range]
          exact ByteArray.extract_zero_size.symm
        exact parts
      · simp only [String.fromUTF8, String.utf8ByteSize_ofByteArray, ByteArray.size_extract,
          String.size_toByteArray]
        omega
      · simp only [String.fromUTF8, String.utf8ByteSize_append, String.utf8ByteSize_ofByteArray,
          ByteArray.size_extract, String.size_toByteArray]
        omega
    · rw [slice?, dif_neg within] at taken
      cases taken
  · rintro ⟨front, back, rfl, rfl, rfl⟩
    exact slice?_append front part back

example : slice? "é(" 0 1 = none ∧ slice? "é(" 0 2 = some "é" ∧ slice? "é(" 0 4 = none := by
  decide +kernel

theorem slice?_front (front back : String) :
    slice? (front ++ back) 0 front.utf8ByteSize = some front := by
  simpa using slice?_append "" front back

theorem slice?_back (front back : String) :
    slice? (front ++ back) front.utf8ByteSize (front ++ back).utf8ByteSize = some back := by
  simpa using slice?_append front back ""

def bytes (s : String) : List UInt8 := s.toByteArray.data.toList

theorem bytes_ofList (s : Text) : bytes (.ofList s) = s.flatMap String.utf8EncodeChar := by
  rw [bytes, String.toByteArray_ofList, List.utf8Encode, List.toList_data_toByteArray]

theorem utf8EncodeChar_of_lt {c : Char} (ascii : c.toNat < 128) :
    String.utf8EncodeChar c = [c.toUInt8] := by
  have one : c.val.toNat ≤ 127 := Nat.le_of_lt_succ ascii
  rw [String.utf8EncodeChar, if_pos one]
  rfl

theorem flatMap_utf8EncodeChar_of_lt {s : Text} (ascii : ∀ c ∈ s, c.toNat < 128) :
    s.flatMap String.utf8EncodeChar = s.map Char.toUInt8 := by
  induction s with
  | nil => rfl
  | cons c s ih =>
    obtain ⟨first, others⟩ := List.forall_mem_cons.1 ascii
    rw [List.flatMap_cons, utf8EncodeChar_of_lt first, ih others, List.map_cons,
      List.singleton_append]

theorem le_of_mem_utf8EncodeChar {c : Char} (wide : 128 ≤ c.toNat) :
    ∀ b ∈ String.utf8EncodeChar c, 128 ≤ b.toNat := by
  have high {n : Nat} (least : 128 ≤ n) (most : n < 256) : 128 ≤ (UInt8.ofNat n).toNat := by
    rwa [UInt8.toNat_ofNat_of_lt' most]
  have value : c.val.toNat = c.toNat := rfl
  fun_cases String.utf8EncodeChar with
  | case1 v one => omega
  | case2 v =>
    simp only [List.forall_mem_cons]
    refine ⟨high ?_ ?_, high ?_ ?_, List.forall_mem_nil _⟩ <;> omega
  | case3 v =>
    simp only [List.forall_mem_cons]
    refine ⟨high ?_ ?_, high ?_ ?_, high ?_ ?_, List.forall_mem_nil _⟩ <;> omega
  | case4 v =>
    simp only [List.forall_mem_cons]
    refine ⟨high ?_ ?_, high ?_ ?_, high ?_ ?_, high ?_ ?_, List.forall_mem_nil _⟩ <;> omega

def runLength (onByte : UInt8 → Bool) (s : String) : Nat := ((bytes s).takeWhile onByte).length

/-- A test of bytes that stands for one of characters: both pass ASCII only, and agree there. -/
structure Tests (onByte : UInt8 → Bool) (onChar : Char → Bool) : Prop where
  byte_lt : ∀ b, onByte b = true → b.toNat < 128
  char_lt : ∀ c, onChar c = true → c.toNat < 128
  agrees : ∀ c, c.toNat < 128 → onByte c.toUInt8 = onChar c

namespace Tests
variable {onByte : UInt8 → Bool} {onChar : Char → Bool}

theorem takeWhile_flatMap (tests : Tests onByte onChar) (s : Text) :
    (s.flatMap String.utf8EncodeChar).takeWhile onByte =
      (s.takeWhile onChar).flatMap String.utf8EncodeChar := by
  induction s with
  | nil => rfl
  | cons c s ih =>
    rw [List.flatMap_cons]
    by_cases ascii : c.toNat < 128
    · have same := tests.agrees c ascii
      rw [utf8EncodeChar_of_lt ascii, List.singleton_append]
      cases passed : onChar c with
      | false =>
        rw [passed] at same
        rw [List.takeWhile_cons_of_neg (by simp [same]),
          List.takeWhile_cons_of_neg (by simp [passed]), List.flatMap_nil]
      | true =>
        rw [passed] at same
        rw [List.takeWhile_cons_of_pos same, List.takeWhile_cons_of_pos passed, ih,
          List.flatMap_cons, utf8EncodeChar_of_lt ascii, List.singleton_append]
    · -- Here the character fails, and the first of its bytes ends the run as well.
      have failed : ¬ onChar c = true := fun passed => ascii (tests.char_lt c passed)
      rw [List.takeWhile_cons_of_neg failed, List.flatMap_nil]
      cases encoded : String.utf8EncodeChar c with
      | nil => exact absurd encoded String.utf8EncodeChar_ne_nil
      | cons b more =>
        have high : 128 ≤ b.toNat :=
          le_of_mem_utf8EncodeChar (Nat.le_of_not_lt ascii) b (encoded ▸ List.mem_cons_self)
        have outside : ¬ onByte b = true := fun passed =>
          Nat.not_lt_of_le high (tests.byte_lt b passed)
        rw [List.cons_append, List.takeWhile_cons_of_neg outside]

theorem takeWhile_bytes (tests : Tests onByte onChar) (s : String) :
    (bytes s).takeWhile onByte = bytes (.ofList (s.toList.takeWhile onChar)) := by
  rw [bytes_ofList, ← tests.takeWhile_flatMap, ← bytes_ofList, String.ofList_toList]

theorem runLength_eq_length (tests : Tests onByte onChar) (s : String) :
    runLength onByte s = (s.toList.takeWhile onChar).length := by
  have ascii : ∀ c ∈ s.toList.takeWhile onChar, c.toNat < 128 := fun c member =>
    tests.char_lt c (List.all_eq_true.1 List.all_takeWhile c member)
  rw [runLength, tests.takeWhile_bytes, bytes_ofList, flatMap_utf8EncodeChar_of_lt ascii,
    List.length_map]

theorem runLength_eq_size (tests : Tests onByte onChar) (s : String) :
    runLength onByte s = (String.ofList (s.toList.takeWhile onChar)).utf8ByteSize := by
  rw [runLength, tests.takeWhile_bytes, bytes, Array.length_toList]
  rfl

end Tests

theorem ofList_takeWhile_append (onChar : Char → Bool) (s : String) :
    String.ofList (s.toList.takeWhile onChar) ++ String.ofList (s.toList.dropWhile onChar) = s := by
  rw [← String.ofList_append, List.takeWhile_append_dropWhile, String.ofList_toList]

theorem slice?_takeWhile (onChar : Char → Bool) (s : String) :
    slice? s 0 (String.ofList (s.toList.takeWhile onChar)).utf8ByteSize =
      some (.ofList (s.toList.takeWhile onChar)) := by
  have cut := slice?_front (.ofList (s.toList.takeWhile onChar))
    (.ofList (s.toList.dropWhile onChar))
  rwa [ofList_takeWhile_append] at cut

theorem slice?_dropWhile (onChar : Char → Bool) (s : String) :
    slice? s (String.ofList (s.toList.takeWhile onChar)).utf8ByteSize s.utf8ByteSize =
      some (.ofList (s.toList.dropWhile onChar)) := by
  have cut := slice?_back (.ofList (s.toList.takeWhile onChar))
    (.ofList (s.toList.dropWhile onChar))
  rwa [ofList_takeWhile_append] at cut

def isLetterByte (b : UInt8) : Bool := (65 ≤ b && b ≤ 90) || (97 ≤ b && b ≤ 122)

def isNameByte (b : UInt8) : Bool := isLetterByte b || (48 ≤ b && b ≤ 57) || b = 95 || b = 45

def isSpaceByte (b : UInt8) : Bool := b = 32

theorem forall_ascii {p : Char → Prop} (all : ∀ n < 128, p (Char.ofNat n)) :
    ∀ c, c.toNat < 128 → p c := by
  intro c ascii
  have here := all c.toNat ascii
  rwa [Char.ofNat_toNat] at here

theorem tests_isNameByte : Tests isNameByte Text.isNameChar where
  byte_lt b name := by
    simp only [isNameByte, isLetterByte, Bool.or_eq_true, Bool.and_eq_true, decide_eq_true_eq,
      UInt8.le_iff_toNat_le, ← UInt8.toNat_inj, UInt8.reduceToNat] at name
    omega
  char_lt c name := by
    have code := Text.toNat_of_isNameChar name
    omega
  agrees := forall_ascii (by decide)

theorem tests_isLetterByte : Tests isLetterByte Char.isAlpha where
  byte_lt b letter := tests_isNameByte.byte_lt b (by simp [isNameByte, letter])
  char_lt c letter := tests_isNameByte.char_lt c (Text.isNameChar_of_isAlpha letter)
  agrees := forall_ascii (by decide)

theorem tests_isSpaceByte : Tests isSpaceByte (· = ' ') where
  byte_lt b space := by
    rw [of_decide_eq_true space]
    decide
  char_lt c space := by
    rw [of_decide_eq_true space]
    decide
  agrees := forall_ascii (by decide)

end IndentMarkup.Encoded
