import IndentMarkup.Text.Name

/-! Where runs of characters end. A run that is read as far as it goes is followed
by a text that is off its class, and trimming leaves a text that is off blanks at
both ends. -/
namespace IndentMarkup.Text

/-- The text does not start with a character of the class. -/
def Off (p : Char → Bool) (s : Text) : Prop := ∀ c ∈ s.head?, p c = false

/-- The text does not end with a blank. -/
def Solid (s : Text) : Prop := ∀ c ∈ s.getLast?, isBlank c = false

theorem off_nil (p : Char → Bool) : Off p [] := fun _ missing => nomatch missing

@[simp] theorem off_cons {p : Char → Bool} {c : Char} {s : Text} :
    Off p (c :: s) ↔ p c = false := by
  simp [Off]

instance (p : Char → Bool) : DecidablePred (Off p)
  | [] => .isTrue (off_nil p)
  | c :: _ => decidable_of_iff (p c = false) off_cons.symm

theorem off_char {mark : Char} {s : Text} (differs : ∀ rest, s ≠ mark :: rest) :
    Off (· = mark) s := by
  cases s with
  | nil => exact off_nil _
  | cons c rest =>
    have other : c ≠ mark := fun same => differs rest (by rw [same])
    exact off_cons.2 (decide_eq_false other)

theorem Off.takeWhile_append {p : Char → Bool} {run rest : Text} (off : Off p rest)
    (inside : ∀ c ∈ run, p c = true) : (run ++ rest).takeWhile p = run := by
  have stop : rest.takeWhile p = [] := by
    cases rest with
    | nil => rfl
    | cons c rest => rw [List.takeWhile_cons_of_neg (by simp [off_cons.1 off])]
  rw [List.takeWhile_append_of_pos inside, stop, List.append_nil]

theorem Off.dropWhile_append {p : Char → Bool} {run rest : Text} (off : Off p rest)
    (inside : ∀ c ∈ run, p c = true) : (run ++ rest).dropWhile p = rest := by
  rw [List.dropWhile_append_of_pos inside]
  cases rest with
  | nil => rfl
  | cons c rest => rw [List.dropWhile_cons_of_neg (by simp [off_cons.1 off])]

theorem off_dropWhile (p : Char → Bool) (s : Text) : Off p (s.dropWhile p) := by
  intro c first
  have stop := List.head?_dropWhile_not p s
  rw [Option.mem_def.1 first] at stop
  exact stop

theorem Off.trimStart_eq {s : Text} (off : Off isBlank s) : trimStart s = s := by
  change ([] ++ s).dropWhile isBlank = s
  exact off.dropWhile_append fun _ member => nomatch member

theorem solid_nil : Solid [] := fun _ missing => nomatch missing

theorem solid_concat {s : Text} {c : Char} (shown : isBlank c = false) : Solid (s ++ [c]) := by
  intro d last
  rw [List.getLast?_concat] at last
  exact Option.some.inj last ▸ shown

theorem Solid.append {s t : Text} (left : Solid s) (right : Solid t) : Solid (s ++ t) := by
  intro c last
  rw [List.getLast?_append, Option.mem_def, Option.or_eq_some_iff] at last
  rcases last with last | ⟨-, last⟩
  · exact right c last
  · exact left c last

theorem Solid.cons {s : Text} (solid : Solid s) (given : s ≠ []) (c : Char) :
    Solid (c :: s) := by
  intro d last
  rw [List.getLast?_cons_of_ne_nil given] at last
  exact solid d last

theorem Solid.of_append_right {s t : Text} (solid : Solid (s ++ t)) : Solid t := by
  intro c last
  apply solid c
  rw [List.getLast?_append, Option.mem_def.1 last]
  rfl

theorem solid_of_forall {s : Text} (shown : ∀ c ∈ s, isBlank c = false) : Solid s :=
  fun c last => shown c (List.mem_of_getLast? last)

theorem solid_trimEnd (s : Text) : Solid (trimEnd s) := by
  intro c last
  rw [trimEnd, List.getLast?_reverse] at last
  exact off_dropWhile isBlank s.reverse c last

theorem exists_trimEnd_append (s : Text) :
    ∃ gap, (∀ c ∈ gap, isBlank c = true) ∧ trimEnd s ++ gap = s := by
  refine ⟨(s.reverse.takeWhile isBlank).reverse, ?_, ?_⟩
  · intro c member
    exact List.all_eq_true.1 List.all_takeWhile c (List.mem_reverse.1 member)
  · rw [trimEnd, ← List.reverse_append, List.takeWhile_append_dropWhile, List.reverse_reverse]

theorem Solid.trimEnd_eq {s : Text} (solid : Solid s) : trimEnd s = s := by
  have off : Off isBlank s.reverse := by
    intro c first
    rw [List.head?_reverse] at first
    exact solid c first
  rw [trimEnd]
  exact (congrArg List.reverse off.trimStart_eq).trans s.reverse_reverse

theorem solid_trim (s : Text) : Solid (trim s) := by
  have whole : Solid (margin (trimEnd s) ++ trim s) := by
    rw [trim, margin_append_trimStart]
    exact solid_trimEnd s
  exact whole.of_append_right

theorem trim_eq {s : Text} (off : Off isBlank s) (solid : Solid s) : trim s = s := by
  rw [trim, solid.trimEnd_eq, off.trimStart_eq]

theorem isBlank_of_mem_margin {s : Text} {c : Char} (member : c ∈ margin s) :
    isBlank c = true :=
  List.all_eq_true.1 List.all_takeWhile c member

theorem margin_ne_nil {s : Text} (starts : startsBlank s = true) : margin s ≠ [] := by
  cases s with
  | nil => cases starts
  | cons c s =>
    have first : isBlank c = true := starts
    rw [margin, List.takeWhile_cons_of_pos first]
    exact List.cons_ne_nil _ _

theorem Solid.trimStart_ne_nil {s : Text} (solid : Solid s) (given : s ≠ []) :
    trimStart s ≠ [] := by
  intro missing
  have blank : margin s = s := by
    have parts := margin_append_trimStart s
    rwa [missing, List.append_nil] at parts
  have last : s.getLast given ∈ margin s := by
    rw [blank]
    exact List.getLast_mem given
  have shown := solid _ (List.getLast?_eq_some_getLast given)
  rw [isBlank_of_mem_margin last] at shown
  cases shown

theorem trim_ne_nil {s : Text} {c : Char} (member : c ∈ s) (shown : isBlank c = false) :
    trim s ≠ [] := by
  have ending : trimEnd s ≠ [] := by
    intro blank
    have rest : trimStart s.reverse = [] := by simpa [trimEnd, trimStart] using blank
    have whole : margin s.reverse = s.reverse := by
      simpa [rest] using margin_append_trimStart s.reverse
    have inside : c ∈ margin s.reverse := by simpa [whole] using member
    simp [isBlank_of_mem_margin inside] at shown
  exact (solid_trimEnd s).trimStart_ne_nil ending

theorem off_trim (s : Text) : Off isBlank (trim s) := off_dropWhile isBlank (trimEnd s)

theorem trim_trim (s : Text) : trim (trim s) = trim s := trim_eq (off_trim s) (solid_trim s)

theorem mem_of_mem_trim {s : Text} {c : Char} (member : c ∈ trim s) : c ∈ s := by
  have inside : c ∈ trimEnd s := List.dropWhile_subset _ member
  have reversed : c ∈ s.reverse.dropWhile isBlank := List.mem_reverse.1 inside
  exact List.mem_reverse.1 (List.dropWhile_subset _ reversed)

theorem toNat_bounds {c : Char} {first last : UInt32}
    (within : (decide (c.val ≥ first) && decide (c.val ≤ last)) = true) :
    first.toNat ≤ c.toNat ∧ c.toNat ≤ last.toNat := by
  have bounds := Bool.and_eq_true_iff.1 within
  exact ⟨of_decide_eq_true bounds.1, of_decide_eq_true bounds.2⟩

theorem toNat_of_isNameChar {c : Char} (name : isNameChar c = true) :
    (65 ≤ c.toNat ∧ c.toNat ≤ 90) ∨ (97 ≤ c.toNat ∧ c.toNat ≤ 122) ∨
      (48 ≤ c.toNat ∧ c.toNat ≤ 57) ∨ c.toNat = 95 ∨ c.toNat = 45 := by
  simp only [isNameChar, Char.isAlphanum, Bool.or_eq_true, decide_eq_true_eq] at name
  rcases name with (((alpha | digit) | rfl) | rfl)
  · have letter : (c.isUpper || c.isLower) = true := alpha
    rcases Bool.or_eq_true_iff.1 letter with upper | lower
    · exact .inl (of_decide_eq_true upper)
    · exact .inr (.inl (toNat_bounds lower))
  · exact .inr (.inr (.inl (toNat_bounds digit)))
  · decide
  · decide

theorem isBlank_eq_false_of_isNameChar {c : Char} (name : isNameChar c = true) :
    isBlank c = false := by
  have code := toNat_of_isNameChar name
  simp only [isBlank, blankRanges, List.any_cons, List.any_nil, Bool.or_false,
    Bool.or_eq_false_iff, Bool.and_eq_false_iff, decide_eq_false_iff_not]
  omega

/-- The text starts with a blank or one of the marks, if with anything. -/
def Starts (marks : List Char) (s : Text) : Prop := ∀ c ∈ s.head?, isBlank c = true ∨ c ∈ marks

theorem Starts.cons {marks : List Char} {s : Text} (starts : Starts marks s) (mark : Char) :
    Starts (mark :: marks) s :=
  fun c first => (starts c first).imp_right (List.mem_cons_of_mem mark)

theorem starts_cons {marks : List Char} {mark : Char} {s : Text} :
    Starts (mark :: marks) (mark :: s) := by
  intro c first
  obtain rfl := Option.some.inj first
  exact .inr List.mem_cons_self

theorem starts_append {marks : List Char} {gap s : Text} (blank : ∀ c ∈ gap, isBlank c = true)
    (starts : Starts marks s) : Starts marks (gap ++ s) := by
  cases gap with
  | nil => exact starts
  | cons d gap =>
    intro c first
    obtain rfl := Option.some.inj first
    exact .inl (blank d List.mem_cons_self)

theorem starts_of_startsBlank {s : Text} (blank : startsBlank s = true) (marks : List Char) :
    Starts marks s := by
  cases s with
  | nil => cases blank
  | cons d s =>
    intro c first
    obtain rfl := Option.some.inj first
    exact .inl blank

theorem Starts.off_isNameChar {marks : List Char} {s : Text} (starts : Starts marks s)
    (apart : marks.any isNameChar = false) : Off isNameChar s := by
  intro c first
  rcases starts c first with blank | mark
  · cases name : isNameChar c with
    | false => rfl
    | true => simp [isBlank_eq_false_of_isNameChar name] at blank
  · exact Bool.eq_false_iff.2 (List.any_eq_false.1 apart c mark)

theorem Starts.off_char {marks : List Char} {s : Text} (starts : Starts marks s) {mark : Char}
    (shown : isBlank mark = false) (other : mark ∉ marks) : Off (· = mark) s := by
  intro c first
  apply decide_eq_false
  rintro rfl
  rcases starts c first with blank | member
  · simp [shown] at blank
  · exact other member

end IndentMarkup.Text
