import IndentMarkup.Proofs.ElementLine
import IndentMarkup.Proofs.Emission
import IndentMarkup.Proofs.Lines

/-! Documents read back from their code. A line of a template holds no newline, and
neither does anything written for it; what is written starts and ends with characters
that are seen. So the code of a document has one line to an entry, and the entry is
told from it: two spaces to a level, then the text. -/
namespace IndentMarkup
open Text

namespace Text

theorem mem_of_nonempty?_trim {s t : Text} (found : nonempty? (trim s) = some t) {c : Char}
    (member : c ∈ t) : c ∈ s := by
  obtain ⟨rfl, -⟩ := nonempty?_eq_some_iff.1 found
  exact mem_of_mem_trim member

theorem not_mem_ofList {c : Char} {characters : List Char} (absent : c ∉ characters) :
    c ∉ (String.ofList characters).toList := by
  rwa [String.toList_ofList]

theorem Solid.append_left {s : Text} (solid : Solid s) (given : s ≠ []) (front : Text) :
    Solid (front ++ s) := by
  intro c last
  rw [List.getLast?_append_of_ne_nil _ given] at last
  exact solid c last

theorem not_mem_intercalate {c : Char} {separator : Text} {parts : List Text}
    (apart : c ∉ separator) (plain : ∀ part ∈ parts, c ∉ part) :
    c ∉ separator.intercalate parts := by
  induction parts with
  | nil => simp [List.intercalate]
  | cons first parts ih =>
    obtain ⟨firstPlain, plain⟩ := List.forall_mem_cons.1 plain
    have rest := ih plain
    cases parts with
    | nil => simpa [List.intercalate] using firstPlain
    | cons second parts => simp_all [List.intercalate]

theorem IsName.not_mem_newline {name : Text} (valid : IsName name) : '\n' ∉ name := by
  intro member
  have inside := valid.isNameChar '\n' member
  revert inside
  decide

end Text

def Body.texts : Body → List Text
  | nested => []
  | void => []
  | echo expression => [expression]
  | text content => [content]

def Element.texts (e : Element) : List Text :=
  e.tag :: (e.id.toList ++ e.classes ++ e.attributes.toList)

/-- The texts that a statement has taken over from its line. -/
def Statement.texts : Statement → List Text
  | ignored => []
  | doctype _ => []
  | comment text => text.toList
  | element e body => e.texts ++ body.texts
  | block _ condition => [condition]
  | code source => [source]
  | echo expression => [expression]
  | literal text => [text]

namespace Element

theorem not_mem_startTag {e : Element} (plain : ∀ text ∈ e.texts, '\n' ∉ text)
    (selfClosing : Bool) : '\n' ∉ e.startTag selfClosing := by
  have tag : '\n' ∉ e.tag := plain e.tag (by simp [texts])
  have id : '\n' ∉ e.idPart := by
    unfold idPart
    split
    next id given =>
      have inside : '\n' ∉ id := plain id (by simp [texts, given])
      simp [inside]
    next => simp
  have classes : '\n' ∉ e.classPart := by
    have names : '\n' ∉ [' '].intercalate e.classes :=
      not_mem_intercalate (by decide) fun name member => plain name (by simp [texts, member])
    unfold classPart
    split <;> simp [names]
  have attributes : '\n' ∉ e.attributePart := by
    unfold attributePart
    split
    next attributes given =>
      have inside : '\n' ∉ attributes := plain attributes (by simp [texts, given])
      simp [inside]
    next => simp
  cases selfClosing <;> simp [startTag, tag, id, classes, attributes]

theorem not_mem_endTag {e : Element} (plain : ∀ text ∈ e.texts, '\n' ∉ text) :
    '\n' ∉ e.endTag := by
  have tag : '\n' ∉ e.tag := plain e.tag (by simp [texts])
  simp [endTag, tag]

end Element

namespace Statement

theorem not_mem_region {code : Text} (plain : '\n' ∉ code) : '\n' ∉ region code := by
  have start : '\n' ∉ "<?php ".toList ++ code :=
    List.not_mem_append (not_mem_ofList (by decide)) plain
  exact List.not_mem_append start (not_mem_ofList (by decide))

theorem not_mem_echoRegion {expression : Text} (plain : '\n' ∉ expression) :
    '\n' ∉ echoRegion expression :=
  not_mem_region (by simp [plain])

theorem not_mem_word (keyword : Keyword) : '\n' ∉ keyword.word := by
  cases keyword <;> exact not_mem_ofList (by decide)

theorem not_mem_declare {publicId systemId : String} (first : '\n' ∉ publicId.toList)
    (second : '\n' ∉ systemId.toList) : '\n' ∉ Doctype.declare publicId systemId := by
  refine List.not_mem_append (List.not_mem_append (List.not_mem_append
    (List.not_mem_append ?_ first) ?_) second) ?_
  · exact not_mem_ofList (by decide)
  · exact not_mem_ofList (by decide)
  · exact not_mem_ofList (by decide)

theorem not_mem_declaration (type : Doctype) : '\n' ∉ type.declaration := by
  cases type with
  | html5 => exact not_mem_ofList (by decide)
  | xml => exact not_mem_ofList (by decide)
  | _ => exact not_mem_declare (not_mem_ofList (by decide)) (not_mem_ofList (by decide))

section
variable {statement : Statement} (plain : ∀ text ∈ statement.texts, '\n' ∉ text)
include plain

theorem not_mem_opening : '\n' ∉ statement.opening?.getD [] := by
  cases statement with
  | element e body =>
    have tag : '\n' ∉ e.startTag false :=
      Element.not_mem_startTag (fun text member => plain text (List.mem_append_left _ member)) _
    cases body <;> simp [opening?, tag]
  | block keyword condition =>
    have inside : '\n' ∉ condition := plain condition (by simp [texts])
    exact not_mem_region (by simp [not_mem_word, inside])
  | _ => simp [opening?]

theorem not_mem_inline : '\n' ∉ statement.inline?.getD [] := by
  cases statement with
  | ignored => simp [inline?]
  | doctype type => simpa [inline?] using not_mem_declaration type
  | comment text => cases text <;> simp_all [inline?, texts]
  | element e body =>
    cases body with
    | nested => simp [inline?]
    | void =>
      exact Element.not_mem_startTag
        (fun text member => plain text (List.mem_append_left _ member)) true
    | echo expression => exact not_mem_echoRegion (plain expression (by simp [texts, Body.texts]))
    | text content => exact plain content (by simp [texts, Body.texts])
  | block keyword condition => simp [inline?]
  | code source => exact not_mem_region (plain source (by simp [texts]))
  | echo expression => exact not_mem_echoRegion (plain expression (by simp [texts]))
  | literal text => exact plain text (by simp [texts])

theorem not_mem_closing : '\n' ∉ statement.closing?.getD [] := by
  cases statement with
  | element e body =>
    have tag : '\n' ∉ e.endTag :=
      Element.not_mem_endTag fun text member => plain text (List.mem_append_left _ member)
    cases body <;> simp [closing?, tag]
  | block keyword condition => exact not_mem_region (by simp [not_mem_word])
  | _ => simp [closing?]

theorem not_mem_pieces :
    '\n' ∉ statement.opening?.getD [] ++ statement.inline?.getD [] ++
      statement.closing?.getD [] := by
  simp [not_mem_opening plain, not_mem_inline plain, not_mem_closing plain]

end

end Statement

theorem Tail.not_mem_texts (tail : Tail) (plain : '\n' ∉ tail.spelling) :
    ∀ text ∈ tail.body.texts, '\n' ∉ text := by
  cases tail with
  | nothing => simp [body, Body.texts]
  | slash gap => simp [body, Body.texts]
  | code gap expression given =>
    simp only [body, Body.texts, List.forall_mem_singleton]
    exact fun member => plain (by simp [spelling, core, mem_of_mem_trim member])
  | inline gap content apart valid =>
    simp only [body, Body.texts, List.forall_mem_singleton]
    exact fun member => plain (by simp [spelling, core, member])

theorem Declaration.not_mem_texts (d : Declaration) (plain : '\n' ∉ d.spelling) :
    ∀ text ∈ (Statement.element d.element d.tail.body).texts, '\n' ∉ text := by
  have tag : '\n' ∉ d.element.tag := by
    change '\n' ∉ d.tag.getD "div".toList
    cases given : d.tag with
    | none => decide
    | some name => exact (d.tagName name given).not_mem_newline
  have group : ∀ text ∈ d.element.attributes, '\n' ∉ text := by
    intro text given member
    obtain ⟨raw, grouped, found⟩ := Option.bind_eq_some_iff.1 given
    have trimmed : trim raw = text := by
      split at found
      · cases found
      · exact Option.some.inj found
    have inside : '\n' ∈ raw := mem_of_mem_trim (trimmed ▸ member)
    exact plain (by simp [spelling, afterTag, afterId, afterClasses, grouped, spellGroup, inside])
  have tail := d.tail.not_mem_texts fun member => plain (by
    simp [spelling, afterTag, afterId, afterClasses, member])
  intro text member
  simp only [Statement.texts, Element.texts, List.mem_append, List.mem_cons,
    Option.mem_toList] at member
  rcases member with (rfl | (id | name) | attributes) | inside
  · exact tag
  · exact (d.idName text id).not_mem_newline
  · exact (d.classNames text name).not_mem_newline
  · exact group text attributes
  · exact tail text inside

namespace Statement

theorem mem_of_argument? {marker s text : Text} (found : argument? marker s = some (some text))
    {c : Char} (member : c ∈ text) : c ∈ s := by
  unfold argument? at found
  split at found
  · dsimp only at found
    split at found
    · simp at found
    · split at found
      · exact List.mem_of_mem_drop (mem_of_nonempty?_trim (Option.some.inj found) member)
      · cases found
  · cases found

theorem mem_of_enclosed? {s condition : Text} (found : enclosed? s = some condition) {c : Char}
    (member : c ∈ condition) : c ∈ s := by
  unfold enclosed? at found
  split at found
  · split at found
    · obtain rfl := Option.some.inj found
      exact List.mem_cons_of_mem _ (List.dropLast_subset _ member)
    · cases found
  · cases found

theorem mem_of_readBlock? {s condition : Text} {keyword : Keyword}
    (found : readBlock? s = some (.block keyword condition)) {c : Char}
    (member : c ∈ condition) : c ∈ s := by
  unfold readBlock? at found
  split at found
  next rest =>
    simp only [Option.bind_eq_bind, Option.bind_eq_some_iff] at found
    obtain ⟨_, -, inside, enclosed, text, filled, made⟩ := found
    obtain ⟨rfl, rfl⟩ := Statement.block.inj (Option.some.inj made)
    have within := mem_of_enclosed? enclosed (mem_of_nonempty?_trim filled member)
    have behind : c ∈ trimStart rest := List.dropWhile_subset _ (List.dropWhile_subset _ within)
    exact List.mem_cons_of_mem _ (List.dropWhile_subset _ behind)
  · cases found

theorem not_mem_texts_read {s : Text} (solid : Solid s) (plain : '\n' ∉ s) :
    ∀ text ∈ (read s).texts, '\n' ∉ text := by
  have origin := origin_read s
  cases made : read s with
  | ignored => simp [texts]
  | doctype type => simp [texts]
  | literal text =>
    rw [made] at origin
    obtain rfl : text = s := origin
    simpa [texts] using plain
  | comment argument =>
    rw [made] at origin
    have found : argument? "/".toList s = some argument := origin
    intro text given
    rw [Option.mem_toList.1 given] at found
    exact fun member => plain (mem_of_argument? found member)
  | element e body =>
    rw [made] at origin
    have found : Element.read? s = some (e, body) := origin
    obtain ⟨d, rfl⟩ := Element.exists_declaration_of_read? solid found
    rw [d.read?_spelling] at found
    obtain ⟨rfl, rfl⟩ := Prod.mk.inj (Option.some.inj found)
    exact d.not_mem_texts plain
  | block keyword condition =>
    rw [made] at origin
    simp only [texts, List.forall_mem_singleton]
    exact fun member => plain (mem_of_readBlock? origin member)
  | code source =>
    rw [made] at origin
    obtain ⟨rest, rfl, found⟩ := origin
    simp only [texts, List.forall_mem_singleton]
    exact fun member => plain (List.mem_cons_of_mem _ (mem_of_nonempty?_trim found member))
  | echo expression =>
    rw [made] at origin
    obtain ⟨rest, rfl, found⟩ := origin
    simp only [texts, List.forall_mem_singleton]
    exact fun member => plain (List.mem_cons_of_mem _ (mem_of_nonempty?_trim found member))

end Statement

namespace Entry

/-- The text of the entry is on one line and is seen from its first character to its last. -/
structure Clean (entry : Entry) : Prop where
  given : entry.text ≠ []
  oneLine : '\n' ∉ entry.text
  flush : Off isBlank entry.text
  solid : Solid entry.text

def ofLine (line : Text) : Entry :=
  ⟨(line.takeWhile (· = ' ')).length / 2, line.dropWhile (· = ' ')⟩

def decode (code : Text) : List Entry := (lines code).map ofLine

namespace Clean

theorem of_trim {s : Text} (given : trim s ≠ []) (plain : '\n' ∉ s) (level : Nat) :
    Clean ⟨level, trim s⟩ :=
  ⟨given, fun member => plain (mem_of_mem_trim member), off_trim s, solid_trim s⟩

variable {entry : Entry} (clean : entry.Clean)
include clean

theorem off_space : Off (· = ' ') entry.text := by
  intro c first
  have shown := clean.flush c first
  apply decide_eq_false
  rintro rfl
  simp [show isBlank ' ' = true by decide] at shown

theorem spaces_line :
    entry.line.takeWhile (· = ' ') = List.replicate (2 * entry.level) ' ' ∧
      entry.line.dropWhile (· = ' ') = entry.text := by
  have spaces : ∀ c ∈ List.replicate (2 * entry.level) ' ', decide (c = ' ') = true :=
    fun c member => decide_eq_true (List.mem_replicate.1 member).2
  exact ⟨clean.off_space.takeWhile_append spaces, clean.off_space.dropWhile_append spaces⟩

theorem ofLine_line : ofLine entry.line = entry := by
  rw [ofLine, clean.spaces_line.1, clean.spaces_line.2, List.length_replicate,
    Nat.mul_div_cancel_left _ Nat.two_pos]

theorem not_mem_line : '\n' ∉ entry.line := by
  simp [line, clean.oneLine]

theorem solid_line : entry.line ≠ [] ∧ Solid entry.line :=
  ⟨List.append_ne_nil_of_right_ne_nil _ clean.given, clean.solid.append_left clean.given _⟩

end Clean

variable {entries : List Entry} (clean : ∀ entry ∈ entries, entry.Clean)
include clean

theorem lines_render : lines (render entries) = entries.map line := by
  refine lines_unlines ?_ ?_
  · exact List.forall_mem_map.2 fun entry member => (clean entry member).not_mem_line
  · exact List.forall_mem_map.2 fun entry member => (clean entry member).solid_line

theorem decode_render : decode (render entries) = entries := by
  rw [decode, lines_render clean, List.map_map]
  exact (List.map_congr_left fun entry member => (clean entry member).ofLine_line).trans
    (List.map_id entries)

end Entry

theorem Line.leads_clean {number : Nat} {raw : Text} (plain : '\n' ∉ raw)
    (counts : (Line.read number raw).isIgnored = false) :
    (Line.read number raw).Leads Entry.Clean := by
  have texts : ∀ text ∈ (Line.read number raw).statement.texts, '\n' ∉ text :=
    Statement.not_mem_texts_read (solid_trim raw) fun member => plain (mem_of_mem_trim member)
  constructor
  · unfold Line.entry
    split
    next opens =>
      exact .of_trim (Statement.trim_opening_ne_nil opens) (Statement.not_mem_opening texts) _
    next =>
      exact .of_trim (Statement.render_read_ne_nil (trim_trim raw) counts)
        (Statement.not_mem_pieces texts) _
  · intro opens
    exact .of_trim (Statement.trim_closing_ne_nil opens) (Statement.not_mem_closing texts) _

theorem clean_of_compileText {s : Text} {document : Document}
    (compiled : compileText s = .ok document) : ∀ entry ∈ document.entries, entry.Clean := by
  refine forall_entries_of_compileLines compiled fun number raw found _ counts => ?_
  exact Line.leads_clean (not_mem_of_mem_lines found) counts

/-- Every entry of a compiled text is on a line of its own in the code, two spaces to
a level and then the text, and all are told from the code alone. So codes are equal
only if the entries are. -/
theorem code_determines_entries {s : Text} {document : Document}
    (compiled : compileText s = .ok document) :
    (∀ entry ∈ document.entries, entry.text ≠ [] ∧ '\n' ∉ entry.text ∧
      (∀ c ∈ entry.text.head?, isBlank c = false) ∧
      (∀ c ∈ entry.text.getLast?, isBlank c = false)) ∧
    lines document.code =
      document.entries.map
        (fun entry => List.replicate (2 * entry.level) ' ' ++ entry.text) ∧
    Entry.decode document.code = document.entries ∧
    ∀ s' document', compileText s' = .ok document' →
      (document.code = document'.code ↔ document.entries = document'.entries) := by
  have clean := clean_of_compileText compiled
  refine ⟨?_, Entry.lines_render clean, Entry.decode_render clean, ?_⟩
  · intro entry member
    obtain ⟨given, oneLine, flush, solid⟩ := clean entry member
    exact ⟨given, oneLine, flush, solid⟩
  · intro s' document' compiled'
    constructor
    · intro same
      have decoded : Entry.decode document.code = Entry.decode document'.code := by rw [same]
      rwa [Document.code, Document.code, Entry.decode_render clean,
        Entry.decode_render (clean_of_compileText compiled')] at decoded
    · intro same
      rw [Document.code, Document.code, same]

theorem code_determines_entries_list :
    ∃ document document',
      compileText "%ul\n  %li one\r\n  / two\n".toList = .ok document ∧
      compileText "\n%ul()\n  -# three\n  %li   one\n  /\ttwo".toList = .ok document' ∧
      lines document.code =
        ["<ul>", "  <li>one</li>", "  <!-- two -->", "</ul>"].map String.toList ∧
      Entry.decode document.code =
        [⟨0, "<ul>".toList⟩, ⟨1, "<li>one</li>".toList⟩, ⟨1, "<!-- two -->".toList⟩,
          ⟨0, "</ul>".toList⟩] ∧
      document.entries = document'.entries := by
  have compiled : compileText "%ul\n  %li one\r\n  / two\n".toList = .ok _ :=
    compileLines_of_run (Prod.ext rfl (by decide +kernel))
  have compiled' : compileText "\n%ul()\n  -# three\n  %li   one\n  /\ttwo".toList = .ok _ :=
    compileLines_of_run (Prod.ext rfl (by decide +kernel))
  obtain ⟨-, lines, decoded, equal⟩ := code_determines_entries compiled
  exact ⟨_, _, compiled, compiled', lines.trans (by decide +kernel),
    decoded.trans (by decide +kernel), (equal _ _ compiled').1 (by decide +kernel)⟩

end IndentMarkup
