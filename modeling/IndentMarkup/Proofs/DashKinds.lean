import IndentMarkup.Proofs.ControlWord
import IndentMarkup.Proofs.Shape

/-! The kinds of lines with a dash. A silent comment, a block, a dash on its own and code
share the dash and nothing else: which of them a line is can be told from its spelling,
and every part of a block has one place on its line only. -/
namespace IndentMarkup
open Text

theorem Text.Off.append_inj {p : Char → Bool} {run rest run' rest' : Text} (off : Off p rest)
    (off' : Off p rest') (inside : ∀ c ∈ run, p c = true) (inside' : ∀ c ∈ run', p c = true)
    (same : run ++ rest = run' ++ rest') : run = run' ∧ rest = rest' := by
  constructor
  · rw [← off.takeWhile_append inside, same, off'.takeWhile_append inside']
  · rw [← off.dropWhile_append inside, same, off'.dropWhile_append inside']

theorem Keyword.word_injective {keyword keyword' : Keyword}
    (same : keyword.word = keyword'.word) : keyword = keyword' := by
  have known := ofWord?_word keyword
  rw [same, ofWord?_word] at known
  exact (Option.some.inj known).symm

namespace BlockLine

def afterWord (b : BlockLine) : Text := b.gap.val ++ b.group

def afterLead (b : BlockLine) : Text := b.keyword.word ++ b.afterWord

theorem off_group (b : BlockLine) : Off isBlank b.group := off_cons.2 (by decide)

theorem off_afterWord (b : BlockLine) : Off Char.isAlpha b.afterWord := by
  have other : ['('].any isNameChar = false := by decide
  exact ((starts_append b.gap.2 starts_cons).off_isNameChar other).isAlpha

theorem off_afterLead (b : BlockLine) : Off isBlank b.afterLead :=
  b.keyword.off_word_append (fun _ => isAlpha_eq_false_of_isBlank) _

theorem spelling_injective {b b' : BlockLine} (same : b.spelling = b'.spelling) : b = b' := by
  have codes : b.lead.val ++ b.afterLead = b'.lead.val ++ b'.afterLead := (List.cons.inj same).2
  obtain ⟨leads, codes⟩ :=
    b.off_afterLead.append_inj b'.off_afterLead b.lead.2 b'.lead.2 codes
  obtain ⟨words, conditions⟩ := b.off_afterWord.append_inj b'.off_afterWord
    b.keyword.isAlpha_of_mem_word b'.keyword.isAlpha_of_mem_word codes
  obtain ⟨gaps, groups⟩ := b.off_group.append_inj b'.off_group b.gap.2 b'.gap.2 conditions
  have bodies : b.body = b'.body := List.append_cancel_right (List.cons.inj groups).2
  cases b
  cases b'
  obtain rfl := Subtype.ext leads
  obtain rfl := Keyword.word_injective words
  obtain rfl := Subtype.ext gaps
  obtain rfl := bodies
  rfl

end BlockLine

namespace Statement

theorem opening?_block (keyword : Keyword) (condition : Text) :
    (block keyword condition).opening? = some
      ("<?php ".toList ++ keyword.word ++ "(".toList ++ condition ++ "): ?>".toList) := by
  have ending : "): ?>".toList = "):".toList ++ " ?>".toList := rfl
  simp only [opening?, region_eq, ending, List.append_assoc]

theorem readBlock?_eq_none_iff {s : Text} :
    readBlock? s = none ↔ ¬ ∃ b : BlockLine, b.spelling = s := by
  constructor
  · rintro refused ⟨b, rfl⟩
    rw [readBlock?_spelling] at refused
    cases refused
  · intro missing
    cases found : readBlock? s with
    | none => rfl
    | some statement =>
      obtain ⟨b, spelled, -⟩ := exists_blockLine_of_readBlock? found
      exact absurd ⟨b, spelled⟩ missing

theorem read_bare_dash : read ['-'] = .literal ['-'] := by decide +kernel

theorem read_dash_cases {rest : Text} (solid : Solid rest) :
    ((∃ note, rest = '#' :: note) ∧ read ('-' :: rest) = .ignored) ∨
    (∃ b : BlockLine, b.spelling = '-' :: rest ∧ read ('-' :: rest) = b.statement) ∨
    (rest = [] ∧ read ('-' :: rest) = .literal ['-']) ∨
    (Off (· = '#') rest ∧ (¬ ∃ b : BlockLine, b.spelling = '-' :: rest) ∧ rest ≠ [] ∧
      read ('-' :: rest) = .code (trim rest)) := by
  by_cases silent : ∃ note, rest = '#' :: note
  · refine .inl ⟨silent, ?_⟩
    obtain ⟨note, rfl⟩ := silent
    rfl
  have heard : Off (· = '#') rest := off_char fun note same => silent ⟨note, same⟩
  by_cases spelled : ∃ b : BlockLine, b.spelling = '-' :: rest
  · obtain ⟨b, spelled⟩ := spelled
    exact .inr (.inl ⟨b, spelled, read_eq_block_iff.2 ⟨b, spelled, rfl⟩⟩)
  by_cases empty : rest = []
  · refine .inr (.inr (.inl ⟨empty, ?_⟩))
    rw [empty, read_bare_dash]
  have given : trim rest ≠ [] := by
    rw [trim, solid.trimEnd_eq]
    exact solid.trimStart_ne_nil empty
  exact .inr (.inr (.inr ⟨heard, spelled, empty,
    read_eq_code_iff.2 ⟨rest, rfl, heard, readBlock?_eq_none_iff.2 spelled, rfl, given⟩⟩))

section
variable {rest : Text} (solid : Solid rest)
include solid

theorem read_eq_ignored_iff_of_dash :
    read ('-' :: rest) = .ignored ↔ ∃ note, rest = '#' :: note := by
  constructor
  · intro ignored
    rcases read_dash_cases solid with ⟨silent, -⟩ | ⟨b, -, made⟩ | ⟨-, made⟩ | ⟨-, -, -, made⟩
    · exact silent
    all_goals cases made.symm.trans ignored
  · rintro ⟨note, rfl⟩
    rfl

theorem read_eq_literal_iff_of_dash :
    (∃ text, read ('-' :: rest) = .literal text) ↔ rest = [] := by
  constructor
  · rintro ⟨text, literal⟩
    rcases read_dash_cases solid with ⟨-, made⟩ | ⟨b, -, made⟩ | ⟨empty, -⟩ | ⟨-, -, -, made⟩
    case inr.inr.inl => exact empty
    all_goals cases made.symm.trans literal
  · rintro rfl
    exact ⟨['-'], read_bare_dash⟩

theorem read_eq_code_iff_of_dash :
    (∃ source, read ('-' :: rest) = .code source) ↔
      (¬ ∃ note, rest = '#' :: note) ∧ (¬ ∃ b : BlockLine, b.spelling = '-' :: rest) ∧
        rest ≠ [] := by
  constructor
  · rintro ⟨source, coded⟩
    rcases read_dash_cases solid with
      ⟨-, made⟩ | ⟨b, -, made⟩ | ⟨-, made⟩ | ⟨heard, block, given, -⟩
    case inr.inr.inr =>
      refine ⟨?_, block, given⟩
      rintro ⟨note, rfl⟩
      simp at heard
    all_goals cases made.symm.trans coded
  · rintro ⟨loud, block, given⟩
    rcases read_dash_cases solid with ⟨silent, -⟩ | ⟨b, spelled, -⟩ | ⟨empty, -⟩ | ⟨-, -, -, made⟩
    · exact absurd silent loud
    · exact absurd ⟨b, spelled⟩ block
    · exact absurd empty given
    · exact ⟨_, made⟩

end

end Statement

theorem Keyword.exists_word_eq_iff {word : Text} :
    (∃ keyword : Keyword, keyword.word = word) ↔
      word = "if".toList ∨ word = "foreach".toList ∨ word = "for".toList ∨
        word = "while".toList := by
  constructor
  · rintro ⟨keyword, rfl⟩
    cases keyword with
    | ifBlock => exact .inl rfl
    | foreachBlock => exact .inr (.inl rfl)
    | forBlock => exact .inr (.inr (.inl rfl))
    | whileBlock => exact .inr (.inr (.inr rfl))
  · rintro (rfl | rfl | rfl | rfl)
    · exact ⟨.ifBlock, rfl⟩
    · exact ⟨.foreachBlock, rfl⟩
    · exact ⟨.forBlock, rfl⟩
    · exact ⟨.whileBlock, rfl⟩

/-- A line with a dash is ignored, a block, a dash on its own or code. Each is told from
how the line is spelled, and so are all parts of a block. -/
theorem statement_of_dash (number : Nat) (raw rest : Text) (dash : trim raw = '-' :: rest) :
    let line := Line.read number raw
    (line.statement = .ignored ↔ ∃ note, rest = '#' :: note) ∧
    ((∃ keyword condition, line.statement = .block keyword condition) ↔
      ∃ b : BlockLine, b.spelling = '-' :: rest) ∧
    (∀ b : BlockLine, b.spelling = '-' :: rest →
      (∀ b' : BlockLine, b'.spelling = '-' :: rest → b' = b) ∧
      line.statement = .block b.keyword (trim b.body) ∧
      line.statement.opening? = some
        ("<?php ".toList ++ b.keyword.word ++ "(".toList ++ trim b.body ++ "): ?>".toList) ∧
      line.statement.closing? = some ("<?php end".toList ++ b.keyword.word ++ "; ?>".toList) ∧
      line.statement.inline? = none) ∧
    ((∃ text, line.statement = .literal text) ↔ rest = []) ∧
    (rest = [] → line.statement = .literal ['-']) ∧
    ((∃ source, line.statement = .code source) ↔
      (¬ ∃ note, rest = '#' :: note) ∧ (¬ ∃ b : BlockLine, b.spelling = '-' :: rest) ∧
        rest ≠ []) ∧
    (∀ source, line.statement = .code source → source = trim rest ∧ source ≠ [] ∧
      line.render = "<?php ".toList ++ source ++ " ?>".toList) ∧
    (∀ word, (∃ keyword : Keyword, keyword.word = word) ↔
      word = "if".toList ∨ word = "foreach".toList ∨ word = "for".toList ∨
        word = "while".toList) := by
  intro line
  have ending : Solid ('-' :: rest) := dash ▸ solid_trim raw
  have solid : Solid rest := ending.of_append_right (s := ['-'])
  have read : line.statement = Statement.read ('-' :: rest) := congrArg Statement.read dash
  rw [read]
  refine ⟨Statement.read_eq_ignored_iff_of_dash solid, ⟨?_, ?_⟩, ?_,
    Statement.read_eq_literal_iff_of_dash solid, ?_, Statement.read_eq_code_iff_of_dash solid, ?_,
    fun _ => Keyword.exists_word_eq_iff⟩
  · rintro ⟨keyword, condition, made⟩
    obtain ⟨b, spelled, -⟩ := Statement.read_eq_block_iff.1 made
    exact ⟨b, spelled⟩
  · rintro ⟨b, spelled⟩
    exact ⟨_, _, Statement.read_eq_block_iff.2 ⟨b, spelled, rfl⟩⟩
  · intro b spelled
    have made : Statement.read ('-' :: rest) = b.statement :=
      Statement.read_eq_block_iff.2 ⟨b, spelled, rfl⟩
    rw [made]
    refine ⟨?_, rfl, Statement.opening?_block _ _, Statement.closing?_block _ _, rfl⟩
    exact fun b' spelled' => BlockLine.spelling_injective (spelled'.trans spelled.symm)
  · rintro rfl
    exact Statement.read_bare_dash
  · intro source coded
    obtain ⟨rest', same, -, -, rfl, given⟩ := Statement.read_eq_code_iff.1 coded
    obtain ⟨-, rfl⟩ := List.cons.inj same
    exact ⟨rfl, given, Line.render_of_code (read.trans coded)⟩

theorem statement_of_dash_each :
    (Line.read 1 "  -\u00a0foreach ( $xs as $x ) ".toList).statement =
      .block .foreachBlock "$xs as $x".toList ∧
    (Line.read 2 "-#if(1)".toList).statement = .ignored ∧
    (Line.read 3 "- ".toList).statement = .literal ['-'] ∧
    (Line.read 4 "- if2($x)".toList).render = "<?php if2($x) ?>".toList := by
  let b : BlockLine :=
    { lead := ⟨['\u00a0'], List.forall_mem_singleton.2 (by decide)⟩
      keyword := .foreachBlock
      gap := ⟨[' '], List.forall_mem_singleton.2 (by decide)⟩
      body := " $xs as $x ".toList
      given := by decide }
  have loud : ¬ ∃ note, " if2($x)".toList = '#' :: note := by
    rintro ⟨note, same⟩
    cases Option.some.inj (congrArg List.head? same)
  have plain : ¬ ∃ b : BlockLine, b.spelling = '-' :: " if2($x)".toList :=
    Statement.readBlock?_eq_none_iff.1 (by decide +kernel)
  obtain ⟨-, -, block, -⟩ := statement_of_dash 1 "  -\u00a0foreach ( $xs as $x ) ".toList
    "\u00a0foreach ( $xs as $x )".toList (by decide +kernel)
  obtain ⟨ignored, -⟩ := statement_of_dash 2 "-#if(1)".toList "#if(1)".toList (by decide)
  obtain ⟨-, -, -, -, literal, -⟩ := statement_of_dash 3 "- ".toList [] (by decide)
  obtain ⟨-, -, -, -, -, coded, rendered, -⟩ :=
    statement_of_dash 4 "- if2($x)".toList " if2($x)".toList (by decide)
  obtain ⟨source, code⟩ := coded.2 ⟨loud, plain, by decide⟩
  obtain ⟨rfl, -, text⟩ := rendered source code
  exact ⟨(block b (by decide +kernel)).2.1.trans (by decide +kernel), ignored.2 ⟨_, rfl⟩,
    literal rfl, text.trans (by decide +kernel)⟩

end IndentMarkup
