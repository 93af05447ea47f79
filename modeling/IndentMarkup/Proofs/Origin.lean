import IndentMarkup.Statement.Reader

/-! Where statements come from. A statement tells which rule made it, so what holds of a
statement that was read is known from what its own rule found, with no look at the others. -/
namespace IndentMarkup.Statement
open Text

/-- What was found in the text that the statement was read from. -/
def Origin (s : Text) : Statement → Prop
  | ignored => readIgnored? s = some ignored
  | doctype type => ∃ variant, argument? "!!!".toList s = some variant ∧ type = .ofVariant variant
  | comment text => argument? "/".toList s = some text
  | element e body => Element.read? s = some (e, body)
  | block keyword condition => readBlock? s = some (block keyword condition)
  | code source => ∃ rest, s = '-' :: rest ∧ nonempty? (trim rest) = some source
  | echo expression => ∃ rest, s = '=' :: rest ∧ nonempty? (trim rest) = some expression
  | literal text => text = s

theorem origin_of_mem_rules {rule : Text → Option Statement} (member : rule ∈ rules) {s : Text}
    {statement : Statement} (made : rule s = some statement) : statement.Origin s := by
  simp only [rules, List.mem_cons, List.not_mem_nil, or_false] at member
  rcases member with rfl | rfl | rfl | rfl | rfl | rfl | rfl
  · have same : statement = ignored := by
      unfold readIgnored? at made
      split at made <;> simp_all
    exact same ▸ made
  case inr.inl =>
    obtain ⟨variant, found, rfl⟩ := Option.map_eq_some_iff.1 made
    exact ⟨variant, found, rfl⟩
  case inr.inr.inl =>
    obtain ⟨text, found, rfl⟩ := Option.map_eq_some_iff.1 made
    exact found
  case inr.inr.inr.inl =>
    obtain ⟨⟨e, body⟩, found, rfl⟩ := Option.map_eq_some_iff.1 made
    exact found
  case inr.inr.inr.inr.inl =>
    have found := made
    unfold readBlock? at found
    split at found
    · simp only [Option.bind_eq_bind, Option.bind_eq_some_iff] at found
      obtain ⟨keyword, -, inside, -, condition, -, same⟩ := found
      obtain rfl := Option.some.inj same
      exact made
    · cases found
  case inr.inr.inr.inr.inr.inl =>
    unfold readCode? at made
    split at made
    · obtain ⟨source, found, rfl⟩ := Option.map_eq_some_iff.1 made
      exact ⟨_, rfl, found⟩
    · cases made
  case inr.inr.inr.inr.inr.inr =>
    unfold readEcho? at made
    split at made
    · obtain ⟨expression, found, rfl⟩ := Option.map_eq_some_iff.1 made
      exact ⟨_, rfl, found⟩
    · cases made

theorem origin_read (s : Text) : (read s).Origin s := by
  rcases read_cases s with ⟨rule, member, made⟩ | literal
  · exact origin_of_mem_rules member made
  · rw [literal]
    rfl

theorem read_eq_literal_or (s : Text) :
    (∀ text, read s ≠ .literal text) ∨ read s = .literal s := by
  have origin := origin_read s
  cases made : read s with
  | literal text =>
    rw [made] at origin
    exact .inr (congrArg literal origin)
  | _ => exact .inl nofun

end IndentMarkup.Statement
