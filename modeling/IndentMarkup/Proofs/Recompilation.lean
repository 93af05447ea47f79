import IndentMarkup.Proofs.Decoding
import IndentMarkup.Proofs.FirstFault

/-! Code compiled once more. What is written for a line is literal when it is read
again, all but the end of a comment that encloses lines, which is taken for code. No
line of code opens a level, so code with anything further in stops at the first such
line, and flat code compiles to itself but for the ends of comments. -/
namespace IndentMarkup
open Text

def commentEnd : Text := "-->".toList

/-- What a line of code is written as when it is compiled once more. -/
def restated (line : Text) : Text := if line = commentEnd then "<?php -> ?>".toList else line

theorem restated_of_ne {line : Text} (other : line ≠ commentEnd) : restated line = line :=
  if_neg other

theorem Text.exists_trim_cons {c : Char} (shown : isBlank c = false) (s : Text) :
    ∃ rest, trim (c :: s) = c :: rest := by
  obtain ⟨gap, blank, parts⟩ := exists_trimEnd_append (c :: s)
  cases ending : trimEnd (c :: s) with
  | nil =>
    rw [ending, List.nil_append] at parts
    simp [blank c (parts ▸ List.mem_cons_self)] at shown
  | cons d rest =>
    rw [ending] at parts
    obtain ⟨rfl, -⟩ := List.cons.inj parts
    exact ⟨rest, by rw [trim, ending, (off_cons.2 shown).trimStart_eq]⟩

namespace Statement

theorem read_commentEnd : read commentEnd = .code "->".toList := by decide +kernel

theorem read_tag (rest : Text) : read ('<' :: rest) = .literal ('<' :: rest) := by
  have ignored : readIgnored? ('<' :: rest) = none := rfl
  have doctype : readDoctype? ('<' :: rest) = none := rfl
  have comment : readComment? ('<' :: rest) = none := rfl
  have element : readElement? ('<' :: rest) = none := by
    have refused : Element.read? ('<' :: rest) = none := by
      apply Element.read?_eq_none <;> exact off_cons.2 (by decide)
    rw [readElement?, refused]
    rfl
  have block : readBlock? ('<' :: rest) = none := rfl
  have code : readCode? ('<' :: rest) = none := rfl
  have echo : readEcho? ('<' :: rest) = none := rfl
  simp only [read, rules, List.findSome?_cons, List.findSome?_nil, ignored, doctype, comment,
    element, block, code, echo, Option.getD_none]

theorem read_trim_tag {s : Text} (tag : ∃ rest, s = '<' :: rest) :
    read (trim s) = .literal (trim s) := by
  obtain ⟨rest, rfl⟩ := tag
  obtain ⟨rest, starts⟩ := exists_trim_cons (by decide : isBlank '<' = false) rest
  rw [starts, read_tag]

theorem exists_tag_region (code : Text) : ∃ rest, region code = '<' :: rest := ⟨_, rfl⟩

theorem exists_tag_declaration (type : Doctype) : ∃ rest, type.declaration = '<' :: rest := by
  cases type <;> exact ⟨_, rfl⟩

theorem exists_tag_opening {statement : Statement} (opens : statement.opensLevel = true) :
    ∃ rest, statement.opening?.getD [] = '<' :: rest := by
  cases statement with
  | comment text => exact ⟨_, rfl⟩
  | element e body =>
    obtain rfl := (opensLevel_element e body).1 opens
    exact ⟨_, rfl⟩
  | block keyword condition => exact exists_tag_region _
  | _ => simp [opensLevel, isIgnored, inline?] at opens

theorem exists_tag_closing {statement : Statement} (opens : statement.opensLevel = true)
    (other : statement ≠ .comment none) : ∃ rest, statement.closing?.getD [] = '<' :: rest := by
  cases statement with
  | comment text => cases text <;> simp_all [opensLevel, isIgnored, inline?]
  | element e body =>
    obtain rfl := (opensLevel_element e body).1 opens
    exact ⟨_, rfl⟩
  | block keyword condition => exact exists_tag_region _
  | _ => simp [opensLevel, isIgnored, inline?] at opens

theorem exists_tag_pieces {statement : Statement} (counts : statement.isIgnored = false)
    (made : ∀ text, statement ≠ .literal text) :
    ∃ rest, statement.opening?.getD [] ++ statement.inline?.getD [] ++
      statement.closing?.getD [] = '<' :: rest := by
  cases statement with
  | ignored => simp [isIgnored] at counts
  | literal text => exact absurd rfl (made text)
  | doctype type =>
    obtain ⟨rest, starts⟩ := exists_tag_declaration type
    exact ⟨rest ++ [], by simp [opening?, inline?, closing?, starts]⟩
  | comment text => exact ⟨_, rfl⟩
  | element e body => cases body <;> exact ⟨_, rfl⟩
  | block keyword condition => exact ⟨_, rfl⟩
  | code source => exact ⟨_, rfl⟩
  | echo expression => exact ⟨_, rfl⟩

theorem render_literal (text : Text) : (literal text).render = trim text := by
  simp [render, opening?, inline?, closing?]

theorem read_render {s : Text} (trimmed : trim s = s) (counts : (read s).isIgnored = false) :
    read (read s).render = .literal (read s).render := by
  rcases read_eq_literal_or s with made | literal
  · exact read_trim_tag (exists_tag_pieces counts made)
  · have whole : (read s).render = s := by rw [literal, render_literal, trimmed]
    rw [whole, literal]

end Statement

namespace Line

variable {number : Nat} {raw : Text}

theorem read_entry_text (counts : (read number raw).isIgnored = false) :
    Statement.read (read number raw).entry.text = .literal (read number raw).entry.text := by
  unfold entry
  split
  next opens => exact Statement.read_trim_tag (Statement.exists_tag_opening opens)
  next => exact Statement.read_render (trim_trim raw) counts

theorem read_frame_text (opens : (read number raw).opensLevel = true)
    (other : (read number raw).statement ≠ .comment none) :
    Statement.read (read number raw).frame.entry.text =
      .literal (read number raw).frame.entry.text :=
  Statement.read_trim_tag (Statement.exists_tag_closing opens other)

end Line

namespace Entry

/-- Read again, the text of the entry stands for itself, unless it ends a comment. -/
def Rereads (entry : Entry) : Prop :=
  Statement.read entry.text =
    if entry.text = commentEnd then .code "->".toList else .literal entry.text

theorem rereads_commentEnd (level : Nat) : Rereads ⟨level, commentEnd⟩ :=
  Statement.read_commentEnd.trans (if_pos rfl).symm

theorem rereads_of_literal {entry : Entry}
    (literal : Statement.read entry.text = .literal entry.text) :
    entry.text ≠ commentEnd ∧ entry.Rereads := by
  have other : entry.text ≠ commentEnd := by
    intro same
    rw [same, Statement.read_commentEnd] at literal
    cases literal
  exact ⟨other, literal.trans (if_neg other).symm⟩

end Entry

namespace Line

theorem frame_entry_comment {line : Line} (comment : line.statement = .comment none) :
    line.frame.entry = ⟨line.indent, commentEnd⟩ := by
  have closing : trim ((Statement.comment none).closing?.getD []) = commentEnd := by decide
  rw [Frame.entry, frame, comment, closing]

theorem leads_rereads {number : Nat} {raw : Text} (counts : (read number raw).isIgnored = false) :
    (read number raw).Leads Entry.Rereads := by
  refine ⟨(Entry.rereads_of_literal (read_entry_text counts)).2, fun opens => ?_⟩
  by_cases comment : (read number raw).statement = .comment none
  · rw [frame_entry_comment comment]
    exact Entry.rereads_commentEnd _
  · exact (Entry.rereads_of_literal (read_frame_text opens comment)).2

section
variable {entry : Entry} (clean : entry.Clean) (number : Nat)
include clean

theorem leadingSpaces_read_line : (read number entry.line).leadingSpaces = 2 * entry.level := by
  change ((trimEnd entry.line).takeWhile (· = ' ')).length = _
  rw [clean.solid_line.2.trimEnd_eq, clean.spaces_line.1, List.length_replicate]

theorem content_read_line : (read number entry.line).content = entry.text := by
  have spaces : ∀ c ∈ List.replicate (2 * entry.level) ' ', isBlank c = true := by
    intro c member
    rw [(List.mem_replicate.1 member).2]
    decide
  change trim entry.line = entry.text
  rw [trim, clean.solid_line.2.trimEnd_eq]
  exact clean.flush.dropWhile_append spaces

theorem statement_read_line (rereads : entry.Rereads) :
    (read number entry.line).statement =
      if entry.text = commentEnd then .code "->".toList else .literal entry.text := by
  refine Eq.trans ?_ rereads
  rw [← content_read_line clean number]
  rfl

theorem read_line_complete (rereads : entry.Rereads) :
    (read number entry.line).isIgnored = false ∧ (read number entry.line).opensLevel = false ∧
      (read number entry.line).entry = ⟨entry.level, restated entry.text⟩ := by
  have statement := statement_read_line clean number rereads
  have indent : (read number entry.line).indent = entry.level := by
    rw [Line.indent, leadingSpaces_read_line clean, Nat.mul_div_cancel_left _ Nat.two_pos]
  have counts : (read number entry.line).isIgnored = false := by
    rw [isIgnored, statement]
    split <;> rfl
  have shut : (read number entry.line).opensLevel = false := by
    rw [opensLevel, statement]
    split <;> rfl
  have render : (read number entry.line).render = restated entry.text := by
    rw [Line.render, statement]
    by_cases ends : entry.text = commentEnd
    · rw [if_pos ends, ends]
      decide +kernel
    · rw [if_neg ends, restated_of_ne ends]
      rw [Statement.render_literal, trim_eq clean.flush clean.solid]
  refine ⟨counts, shut, ?_⟩
  simp only [Line.entry, shut, indent, render, Bool.false_eq_true, if_false]

end

end Line

namespace Assembly

theorem mem_flush_add {assembly : Assembly} {entry : Entry} (line : Line)
    (member : entry ∈ assembly.flush.entries.toList) :
    entry ∈ (assembly.add line).flush.entries.toList := by
  have moved := stale_append_frames_closeTo assembly line.indent
  rw [entries_flush, ← moved, List.map_append] at member
  rw [entries_flush, entries_add]
  unfold add
  split <;> grind

theorem frame_mem_flush_add (assembly : Assembly) {line : Line} (opens : line.opensLevel = true) :
    line.frame.entry ∈ (assembly.add line).flush.entries.toList := by
  simp [add, opens]

end Assembly

namespace Compilation

theorem frame_mem_finish {lines : List Line} {state : Compilation}
    (reached : ({} : Compilation).run lines = (state, none)) :
    ∀ line ∈ counted lines, line.opensLevel = true → line.frame.entry ∈ state.finish.entries := by
  refine run_induction (fun history state =>
    ∀ line ∈ history, line.opensLevel = true → line.frame.entry ∈ state.finish.entries) [] ?_ ?_
    reached
  · intro history state line closed _ _ other member opens
    rcases List.mem_append.1 member with earlier | last
    · exact Assembly.mem_flush_add line (closed other earlier opens)
    · obtain rfl := List.mem_singleton.1 last
      exact Assembly.frame_mem_flush_add _ opens
  · simp

theorem run_flat {lines : List Line} {state : Compilation} (outermost : state.assembly.frames = [])
    (flat : ∀ line ∈ lines, line.isIgnored = false ∧ line.leadingSpaces = 0 ∧
      line.opensLevel = false) :
    ∃ final, state.run lines = (final, none) ∧
      final.finish.entries = state.assembly.entries.toList ++ lines.map Line.entry := by
  induction lines generalizing state with
  | nil => exact ⟨state, rfl, by simp [finish, outermost]⟩
  | cons line lines ih =>
    obtain ⟨⟨counts, flush, shut⟩, later⟩ := List.forall_mem_cons.1 flat
    have right : line.fault? state.previous = none := by
      rw [Line.fault?_eq_none_iff, Line.indent, flush]
      exact ⟨rfl, Nat.zero_le _⟩
    have closed : (state.accept line).assembly.frames = [] := by
      simp [accept, Assembly.add, Assembly.closeTo, shut, outermost]
    obtain ⟨final, ran, written⟩ := ih closed later
    refine ⟨final, by rw [run_accept state counts right, ran], ?_⟩
    simp [written, accept, Assembly.stale, outermost]

end Compilation

section
variable {entries : List Entry} (clean : ∀ entry ∈ entries, entry.Clean)
  (rereads : ∀ entry ∈ entries, entry.Rereads)
include clean rereads

theorem map_entry_readLines (first : Nat) :
    (readLines first (entries.map Entry.line)).map Line.entry =
      entries.map fun entry => ⟨entry.level, restated entry.text⟩ := by
  induction entries generalizing first with
  | nil => rfl
  | cons entry entries ih =>
    obtain ⟨clean, laterClean⟩ := List.forall_mem_cons.1 clean
    obtain ⟨rereads, laterRereads⟩ := List.forall_mem_cons.1 rereads
    have written := (Line.read_line_complete clean first rereads).2.2
    simp only [List.map_cons, readLines, written, ih laterClean laterRereads]

theorem compileLines_of_flat (flat : ∀ entry ∈ entries, entry.level = 0) :
    ∃ document, compileLines (entries.map Entry.line) = .ok document ∧
      document.entries = entries.map fun entry => ⟨entry.level, restated entry.text⟩ := by
  have start : ({} : Compilation).assembly.frames = [] := rfl
  have each : ∀ line ∈ readLines 1 (entries.map Entry.line), line.isIgnored = false ∧
      line.leadingSpaces = 0 ∧ line.opensLevel = false := by
    intro line member
    obtain ⟨number, raw, inside, rfl⟩ := exists_of_mem_readLines member
    obtain ⟨entry, found, rfl⟩ := List.mem_map.1 inside
    obtain ⟨counts, shut, -⟩ :=
      Line.read_line_complete (clean entry found) number (rereads entry found)
    refine ⟨counts, ?_, shut⟩
    rw [Line.leadingSpaces_read_line (clean entry found), flat entry found]
  obtain ⟨final, ran, written⟩ := Compilation.run_flat start each
  refine ⟨final.finish, compileLines_of_run ran, ?_⟩
  rw [written, map_entry_readLines clean rereads]
  rfl

theorem allowance_precedent {index : Nat} (flat : ∀ entry ∈ entries.take index, entry.level = 0) :
    allowance (precedent (entries.map Entry.line) index) = 0 := by
  cases last : precedent (entries.map Entry.line) index with
  | none => rfl
  | some line =>
    have member := List.mem_of_mem_filter (List.mem_of_getLast? last)
    rw [← List.map_take] at member
    obtain ⟨number, raw, inside, rfl⟩ := exists_of_mem_readLines member
    obtain ⟨entry, found, rfl⟩ := List.mem_map.1 inside
    have present : entry ∈ entries := List.mem_of_mem_take found
    have spaces := Line.leadingSpaces_read_line (clean entry present) number
    have shut := (Line.read_line_complete (clean entry present) number (rereads entry present)).2.1
    simp [allowance, Line.indent, spaces, flat entry found, shut]

theorem compileLines_of_deep {index : Nat} {entry : Entry} (found : entries[index]? = some entry)
    (deep : 0 < entry.level) (flat : ∀ entry ∈ entries.take index, entry.level = 0) :
    compileLines (entries.map Entry.line) = .error (.tooDeep (index + 1)) := by
  have present : entry ∈ entries := List.mem_of_getElem? found
  have line : (entries.map Entry.line)[index]? = some entry.line := by
    rw [List.getElem?_map, found]
    rfl
  have spaces := Line.leadingSpaces_read_line (clean entry present) (index + 1)
  have counts :=
    (Line.read_line_complete (clean entry present) (index + 1) (rereads entry present)).1
  have bad : Misindented (entries.map Entry.line) index := by
    refine ⟨entry.line, line, counts, .inr ?_⟩
    rw [allowance_precedent clean rereads flat, Line.indent, spaces]
    omega
  have good : ∀ earlier < index, ¬Misindented (entries.map Entry.line) earlier := by
    rintro earlier before ⟨raw, there, -, wrong⟩
    rw [List.getElem?_map, Option.mem_def, Option.map_eq_some_iff] at there
    obtain ⟨other, there, rfl⟩ := there
    have level : other.level = 0 :=
      flat other (List.mem_of_getElem? (by rwa [List.getElem?_take_of_lt before]))
    have none := Line.leadingSpaces_read_line (clean other (List.mem_of_getElem? there))
      (earlier + 1)
    rw [Line.indent, none, level] at wrong
    omega
  have stopped := compileLines_of_first line bad good (List.take_prefix _ _)
  rw [stopped, spaces, complaint, if_neg (by omega)]

end

theorem mem_commentEnd_iff {s : Text} {document : Document}
    (compiled : compileText s = .ok document) (entry : Entry) :
    (entry ∈ document.entries ∧ entry.text = commentEnd) ↔
      ∃ line ∈ counted (readLines 1 (lines s)),
        line.statement = .comment none ∧ entry = line.frame.entry := by
  constructor
  · rintro ⟨member, ends⟩
    refine forall_entries_of_compileLines (P := fun entry => entry.text = commentEnd →
      ∃ line ∈ counted (readLines 1 (lines s)), line.statement = .comment none ∧
        entry = line.frame.entry) compiled ?_ entry member ends
    intro number raw _ inside counts
    refine ⟨fun ends => ?_, fun opens ends => ?_⟩
    · exact absurd ends (Entry.rereads_of_literal (Line.read_entry_text counts)).1
    · refine ⟨_, inside, ?_, rfl⟩
      by_contra other
      exact (Entry.rereads_of_literal (Line.read_frame_text opens other)).1 ends
  · rintro ⟨line, inside, comment, rfl⟩
    obtain ⟨state, reached, rfl⟩ := exists_run_of_compileLines compiled
    have opens : line.opensLevel = true := by
      rw [Line.opensLevel, comment]
      rfl
    exact ⟨Compilation.frame_mem_finish reached line inside opens,
      by rw [Line.frame_entry_comment comment]⟩

theorem rereads_of_compileText {s : Text} {document : Document}
    (compiled : compileText s = .ok document) : ∀ entry ∈ document.entries, entry.Rereads :=
  forall_entries_of_compileLines compiled fun _ _ _ _ counts => Line.leads_rereads counts

theorem Entry.flat_take_findIdx (entries : List Entry) :
    ∀ entry ∈ entries.take (entries.findIdx (0 < ·.level)), entry.level = 0 := by
  intro entry member
  obtain ⟨index, inside, rfl⟩ := List.mem_take_iff_getElem.1 member
  have before : index < entries.findIdx (0 < ·.level) := by omega
  simpa using List.not_of_lt_findIdx before

theorem Entry.line_of_flat {entry : Entry} (flat : entry.level = 0) : entry.line = entry.text := by
  rw [line, flat]
  rfl

theorem compileText_code_of_flat {s : Text} {document : Document}
    (compiled : compileText s = .ok document)
    (flat : ∀ entry ∈ document.entries, entry.level = 0) :
    (compileText document.code).map Document.code =
      .ok (unlines (document.entries.map fun entry => restated entry.text)) := by
  have clean := clean_of_compileText compiled
  obtain ⟨again, recompiled, entries⟩ :=
    compileLines_of_flat clean (rereads_of_compileText compiled) flat
  have lines : (document.entries.map fun entry => (⟨entry.level, restated entry.text⟩ : Entry)).map
      Entry.line = document.entries.map fun entry => restated entry.text := by
    rw [List.map_map]
    exact List.map_congr_left fun entry member => Entry.line_of_flat (flat entry member)
  rw [compileText, Document.code, Entry.lines_render clean, recompiled, Except.map, Document.code,
    entries, Entry.render, lines]

/-- Read again, no line of code opens a level: its text is literal, or it is the end
of a comment that encloses lines and taken for code. So code with an entry further in
than level zero fails at the first of them, and flat code compiles to itself with the
ends of comments written as code. -/
theorem compileText_code {s : Text} {document : Document}
    (compiled : compileText s = .ok document) :
    (∀ number, ∀ line ∈ lines document.code,
      (Line.read number line).opensLevel = false ∧
      (Line.read number line).content = line.dropWhile (· = ' ') ∧
      (Line.read number line).statement =
        if (Line.read number line).content = commentEnd then .code "->".toList
        else .literal (Line.read number line).content) ∧
    (∀ entry, (entry ∈ document.entries ∧ entry.text = commentEnd) ↔
      ∃ line ∈ counted (readLines 1 (lines s)),
        line.statement = .comment none ∧ entry = line.frame.entry) ∧
    ((∃ entry ∈ document.entries, 0 < entry.level) →
      (compileText document.code).map Document.code =
        .error (.tooDeep (document.entries.findIdx (0 < ·.level) + 1))) ∧
    ((∀ entry ∈ document.entries, entry.level = 0) →
      (compileText document.code).map Document.code =
        .ok (unlines ((lines document.code).map restated))) ∧
    ((∀ entry ∈ document.entries, entry.level = 0) →
      (∀ line ∈ readLines 1 (lines s), line.statement ≠ .comment none) →
      (compileText document.code).map Document.code = .ok document.code) := by
  have clean := clean_of_compileText compiled
  have rereads := rereads_of_compileText compiled
  have written : lines document.code = document.entries.map Entry.line :=
    Entry.lines_render clean
  refine ⟨?_, mem_commentEnd_iff compiled, ?_, ?_, ?_⟩
  · intro number line member
    rw [written] at member
    obtain ⟨entry, found, rfl⟩ := List.mem_map.1 member
    have content := Line.content_read_line (clean entry found) number
    rw [content]
    refine ⟨?_, (clean entry found).spaces_line.2.symm, ?_⟩
    · exact (Line.read_line_complete (clean entry found) number (rereads entry found)).2.1
    · exact Line.statement_read_line (clean entry found) number (rereads entry found)
  · intro deep
    have inside : document.entries.findIdx (0 < ·.level) < document.entries.length :=
      List.findIdx_lt_length_of_exists (by simpa using deep)
    have first : 0 < document.entries[document.entries.findIdx (0 < ·.level)].level := by
      simpa using List.findIdx_getElem (w := inside)
    have failed := compileLines_of_deep clean rereads (List.getElem?_eq_getElem inside) first
      (Entry.flat_take_findIdx document.entries)
    rw [compileText, written, failed, Except.map]
  · intro flat
    rw [compileText_code_of_flat compiled flat, written, List.map_map]
    congr 2
    refine List.map_congr_left fun entry member => ?_
    rw [Function.comp, Entry.line_of_flat (flat entry member)]
  · intro flat plain
    have same : ∀ entry ∈ document.entries, restated entry.text = entry.line := by
      intro entry member
      have other : entry.text ≠ commentEnd := by
        intro ends
        obtain ⟨line, inside, comment, -⟩ :=
          (mem_commentEnd_iff compiled entry).1 ⟨member, ends⟩
        exact plain line (List.mem_of_mem_filter inside) comment
      rw [restated_of_ne other, Entry.line_of_flat (flat entry member)]
    rw [compileText_code_of_flat compiled flat, List.map_congr_left same]
    rfl

theorem compileText_code_comment :
    ∃ document flat,
      compileText "/\n  .a\n%p one".toList = .ok document ∧
      (compileText document.code).map Document.code = .error (.tooDeep 2) ∧
      compileText "/\n%p!\n- $x".toList = .ok flat ∧
      (compileText flat.code).map Document.code =
        .ok "<!--\n<?php -> ?>\n%p!\n<?php $x ?>".toList := by
  have compiled : compileText "/\n  .a\n%p one".toList = .ok _ :=
    compileLines_of_run (Prod.ext rfl (by decide +kernel))
  have compiled' : compileText "/\n%p!\n- $x".toList = .ok _ :=
    compileLines_of_run (Prod.ext rfl (by decide +kernel))
  obtain ⟨-, -, fails, -⟩ := compileText_code compiled
  obtain ⟨-, -, -, succeeds, -⟩ := compileText_code compiled'
  refine ⟨_, _, compiled, (fails (by decide +kernel)).trans ?_, compiled',
    (succeeds (by decide +kernel)).trans ?_⟩
  · decide +kernel
  · decide +kernel

end IndentMarkup
