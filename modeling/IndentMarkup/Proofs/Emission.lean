import IndentMarkup.Proofs.Alignment
import IndentMarkup.Proofs.Ignored
import IndentMarkup.Proofs.Text

/-! What is written. Every line that counts leads to texts with something in them,
and whatever holds of all that single lines lead to holds of all entries. -/
namespace IndentMarkup
open Text

namespace Statement

theorem mem_region_start (code : Text) : '<' ∈ region code :=
  List.mem_append_left _ (List.mem_append_left _ (by decide))

theorem mem_region_end (code : Text) : '>' ∈ region code :=
  List.mem_append_right _ (by decide)

theorem trim_opening_ne_nil {statement : Statement} (opens : statement.opensLevel = true) :
    trim (statement.opening?.getD []) ≠ [] := by
  apply trim_ne_nil (c := '<') _ (by decide)
  cases statement with
  | comment text => simp [opening?]
  | element e body =>
    have nested := (opensLevel_element e body).1 opens
    simp [opening?, nested, Element.startTag]
  | block keyword condition => exact mem_region_start _
  | _ => simp [opensLevel, isIgnored, inline?] at opens

theorem trim_closing_ne_nil {statement : Statement} (opens : statement.opensLevel = true) :
    trim (statement.closing?.getD []) ≠ [] := by
  apply trim_ne_nil (c := '>') _ (by decide)
  cases statement with
  | comment text => simp [closing?]
  | element e body =>
    have nested := (opensLevel_element e body).1 opens
    simp [closing?, nested, Element.endTag]
  | block keyword condition => exact mem_region_end _
  | _ => simp [opensLevel, isIgnored, inline?] at opens

theorem mem_declaration (type : Doctype) : '<' ∈ type.declaration := by
  cases type <;> decide +kernel

theorem mem_pieces {statement : Statement} (counts : statement.isIgnored = false)
    (made : ∀ text, statement ≠ .literal text) :
    '<' ∈ statement.opening?.getD [] ++ statement.inline?.getD [] ++
      statement.closing?.getD [] := by
  cases statement with
  | ignored => simp [isIgnored] at counts
  | literal text => exact absurd rfl (made text)
  | doctype type => simp [inline?, mem_declaration]
  | comment text => simp [opening?]
  | element e body => cases body <;> simp [opening?, inline?, Element.startTag]
  | block keyword condition => simp [opening?, mem_region_start]
  | code source => simp [inline?, mem_region_start]
  | echo expression => simp [inline?, echoRegion, mem_region_start]

theorem render_read_ne_nil {s : Text} (trimmed : trim s = s)
    (counts : (read s).isIgnored = false) : (read s).render ≠ [] := by
  rcases read_eq_literal_or s with made | literal
  · exact trim_ne_nil (mem_pieces counts made) (by decide)
  · have given : s ≠ [] := by
      rintro rfl
      simp [isIgnored] at counts
    simpa [literal, render, opening?, inline?, closing?, trimmed] using given

end Statement

theorem Line.entry_text_ne_nil {number : Nat} {raw : Text}
    (counts : (Line.read number raw).isIgnored = false) :
    (Line.read number raw).entry.text ≠ [] := by
  unfold Line.entry
  split
  next opens => exact Statement.trim_opening_ne_nil opens
  next => exact Statement.render_read_ne_nil (trim_trim raw) counts

theorem exists_of_mem_readLines {first : Nat} {raws : List Text} {line : Line}
    (member : line ∈ readLines first raws) :
    ∃ number, ∃ raw ∈ raws, line = Line.read number raw := by
  obtain ⟨index, raw, found, rfl⟩ := mem_readLines_iff.1 member
  exact ⟨first + index, raw, List.mem_of_getElem? found, rfl⟩

/-- All entries that the line leads to satisfy `P`. -/
def Line.Leads (P : Entry → Prop) (line : Line) : Prop :=
  P line.entry ∧ (line.opensLevel = true → P line.frame.entry)

namespace Assembly

def Forall (P : Entry → Prop) (assembly : Assembly) : Prop :=
  (∀ entry ∈ assembly.entries.toList, P entry) ∧ ∀ frame ∈ assembly.frames, P frame.entry

theorem Forall.add {P : Entry → Prop} {assembly : Assembly} (all : assembly.Forall P)
    {line : Line} (leads : line.Leads P) : (assembly.add line).Forall P := by
  have stale : ∀ frame ∈ assembly.stale line.indent, P frame.entry :=
    fun frame member => all.2 frame (List.takeWhile_subset _ member)
  have kept : ∀ frame ∈ (assembly.closeTo line.indent).frames, P frame.entry :=
    fun frame member => all.2 frame (List.dropWhile_subset _ member)
  constructor
  · rw [entries_add]
    grind [Forall, Line.Leads]
  · unfold Assembly.add
    grind [Line.Leads]

theorem Forall.flush {P : Entry → Prop} {assembly : Assembly} (all : assembly.Forall P) :
    ∀ entry ∈ assembly.flush.entries.toList, P entry := by
  rw [entries_flush]
  grind [Forall]

end Assembly

namespace Compilation

theorem forall_entries_finish {P : Entry → Prop} {lines : List Line} {state : Compilation}
    (each : ∀ line ∈ counted lines, line.Leads P)
    (reached : ({} : Compilation).run lines = (state, none)) :
    ∀ entry ∈ state.finish.entries, P entry := by
  have all : (∀ line ∈ counted lines, line.Leads P) → state.assembly.Forall P := by
    refine run_induction (fun history state =>
      (∀ line ∈ history, line.Leads P) → state.assembly.Forall P) [] ?_ ?_ reached
    · intro history state line earlier _ _ holds
      have before := earlier fun other member => holds other (List.mem_append_left _ member)
      exact before.add (holds line (by simp))
    · intro _
      constructor <;> simp
  exact (all each).flush

end Compilation

theorem forall_entries_of_compileLines {P : Entry → Prop} {raws : List Text} {document : Document}
    (compiled : compileLines raws = .ok document)
    (each : ∀ number, ∀ raw ∈ raws, Line.read number raw ∈ counted (readLines 1 raws) →
      (Line.read number raw).isIgnored = false → (Line.read number raw).Leads P) :
    ∀ entry ∈ document.entries, P entry := by
  obtain ⟨state, reached, rfl⟩ := exists_run_of_compileLines compiled
  refine Compilation.forall_entries_finish ?_ reached
  intro line member
  obtain ⟨inside, counts⟩ := List.mem_filter.1 member
  obtain ⟨number, raw, found, rfl⟩ := exists_of_mem_readLines inside
  exact each number raw found member (by simpa using counts)

theorem Entry.render_eq_nil_iff {entries : List Entry}
    (shown : ∀ entry ∈ entries, entry.text ≠ []) : render entries = [] ↔ entries = [] := by
  match entries with
  | [] => simp
  | [entry] => simpa [Entry.line] using fun _ => shown entry
  | first :: second :: rest => simp [render_cons_cons]

theorem code_eq_nil_iff_entries {raws : List Text} {document : Document}
    (compiled : compileLines raws = .ok document) :
    document.code = [] ↔ document.entries = [] := by
  apply Entry.render_eq_nil_iff
  refine forall_entries_of_compileLines compiled fun number raw _ _ counts => ?_
  exact ⟨Line.entry_text_ne_nil counts, Statement.trim_closing_ne_nil⟩

theorem code_eq_nil_iff {raws : List Text} {document : Document}
    (compiled : compileLines raws = .ok document) :
    document.code = [] ↔ counted (readLines 1 raws) = [] := by
  rw [code_eq_nil_iff_entries compiled]
  obtain ⟨state, reached, rfl⟩ := exists_run_of_compileLines compiled
  have size : state.finish.entries.length = (counted (readLines 1 raws)).length +
      ((counted (readLines 1 raws)).filter Line.opensLevel).length := by
    rw [Compilation.finish, Array.length_toList, Assembly.size_flush,
      Compilation.entries_owed_run reached]
  have opening := List.length_filter_le Line.opensLevel (counted (readLines 1 raws))
  rw [← List.length_eq_zero_iff, ← List.length_eq_zero_iff]
  omega

end IndentMarkup
