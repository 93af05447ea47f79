import IndentMarkup.Proofs.Lines
import IndentMarkup.Proofs.Relocation
import IndentMarkup.Template
import Mathlib.Data.List.Forall2

/-! The ends of lines. Blanks at the end of a line have no part in a compilation, and
neither has a blank line at the end of a template. That is all in which lines differ
from those of the text they are joined to, by whichever terminator. -/
namespace IndentMarkup
open Text

namespace Text

theorem trimEnd_append_blank {gap : Text} (blank : ∀ c ∈ gap, isBlank c = true) (s : Text) :
    trimEnd (s ++ gap) = trimEnd s := by
  have reversed : ∀ c ∈ gap.reverse, isBlank c = true :=
    fun c member => blank c (List.mem_reverse.1 member)
  rw [trimEnd, List.reverse_append, List.dropWhile_append_of_pos reversed, trimEnd]

theorem trimEnd_trimEnd (s : Text) : trimEnd (trimEnd s) = trimEnd s := (solid_trimEnd s).trimEnd_eq

theorem trim_trimEnd (s : Text) : trim (trimEnd s) = trim s := by
  rw [trim, trimEnd_trimEnd, trim]

theorem margin_trimEnd {s : Text} (given : trimEnd s ≠ []) : margin (trimEnd s) = margin s := by
  obtain ⟨gap, -, parts⟩ := exists_trimEnd_append s
  have content : trimStart (trimEnd s) ≠ [] := (solid_trimEnd s).trimStart_ne_nil given
  have shorter : (margin (trimEnd s)).length ≠ (trimEnd s).length := by
    intro same
    have length := congrArg List.length (margin_append_trimStart (trimEnd s))
    rw [List.length_append] at length
    exact content (List.length_eq_zero_iff.1 (by omega))
  have cut : margin (trimEnd s ++ gap) = margin (trimEnd s) := by
    rw [margin, List.takeWhile_append]
    exact if_neg shorter
  rw [← cut, parts]

theorem margin_margin (s : Text) : margin (margin s) = margin s := by
  have whole : (margin s ++ []).takeWhile isBlank = margin s :=
    (off_nil isBlank).takeWhile_append fun _ => isBlank_of_mem_margin
  rwa [List.append_nil] at whole

end Text

namespace Line

/-- The line with no more of it as it was read than warnings depend on. -/
def prune (line : Line) : Line := { line with raw := margin line.raw }

section
variable (line : Line)

@[simp] theorem isIgnored_prune : line.prune.isIgnored = line.isIgnored := rfl

@[simp] theorem limit_map_prune (previous : Option Line) :
    limit (previous.map prune) = limit previous := by
  cases previous <;> rfl

theorem fault?_prune (previous : Option Line) :
    line.prune.fault? (previous.map prune) = line.fault? previous := by
  simp only [fault?, limit_map_prune]
  rfl

theorem warnings_prune : line.prune.warnings = line.warnings := by
  have same : margin line.prune.raw = margin line.raw := margin_margin line.raw
  have tab : line.prune.tabWarning? = line.tabWarning? := by
    simp only [tabWarning?, same]
    rfl
  rw [warnings, tab]
  rfl

end

theorem isIgnored_read_trimEnd (number : Nat) (raw : Text) :
    (read number (trimEnd raw)).isIgnored = (read number raw).isIgnored := by
  simp only [isIgnored, read, trim_trimEnd]

theorem prune_read_trimEnd {number : Nat} {raw : Text}
    (counts : (read number raw).isIgnored = false) :
    (read number (trimEnd raw)).prune = (read number raw).prune := by
  have given : trimEnd raw ≠ [] := by
    intro blank
    simp [isIgnored, read, trim, blank, trimStart, Statement.isIgnored] at counts
  simp only [read, prune, trim_trimEnd, trimEnd_trimEnd, margin_trimEnd given]

end Line

namespace Compilation

def prune (state : Compilation) : Compilation :=
  { state with previous := state.previous.map Line.prune }

theorem accept_prune (state : Compilation) (line : Line) :
    state.prune.accept line.prune = (state.accept line).prune := by
  simp only [accept, prune, Line.warnings_prune]
  rfl

theorem run_prune (state : Compilation) (lines : List Line) :
    state.prune.run (lines.map Line.prune) = ((state.run lines).1.prune, (state.run lines).2) := by
  induction lines generalizing state with
  | nil => rfl
  | cons line lines ih =>
    have same : line.prune.fault? state.prune.previous = line.fault? state.previous :=
      line.fault?_prune state.previous
    rw [List.map_cons]
    rcases run_cons_cases state line with
      ⟨ignored, next⟩ | ⟨counts, right, next⟩ | ⟨fault, counts, wrong, next⟩
    · rw [next, run_ignored state.prune (by simpa using ignored), ih]
    · rw [next, run_accept state.prune (by simpa using counts) (same.trans right), accept_prune, ih]
    · rw [next, run_fault state.prune (by simpa using counts) (same.trans wrong)]

end Compilation

/-- From whatever number on, the lines that count are the same up to blanks at their ends. -/
def Alike (raws others : List Text) : Prop :=
  ∀ first, (counted (readLines first raws)).map Line.prune =
    (counted (readLines first others)).map Line.prune

namespace Alike

theorem refl (raws : List Text) : Alike raws raws := fun _ => rfl

theorem symm {raws others : List Text} (alike : Alike raws others) : Alike others raws :=
  fun first => (alike first).symm

theorem trans {first second third : List Text} (alike : Alike first second)
    (alike' : Alike second third) : Alike first third :=
  fun number => (alike number).trans (alike' number)

theorem cons {raw other : Text} {raws others : List Text} (same : trimEnd raw = trimEnd other)
    (rest : Alike raws others) : Alike (raw :: raws) (other :: others) := by
  intro first
  have ignored : (Line.read first raw).isIgnored = (Line.read first other).isIgnored := by
    rw [← Line.isIgnored_read_trimEnd, same, Line.isIgnored_read_trimEnd]
  rw [readLines, readLines]
  cases counts : (Line.read first other).isIgnored with
  | true =>
    rw [counted_cons_ignored (ignored.trans counts), counted_cons_ignored counts]
    exact rest (first + 1)
  | false =>
    rw [counted_cons (ignored.trans counts), counted_cons counts, List.map_cons, List.map_cons,
      rest (first + 1), ← Line.prune_read_trimEnd (ignored.trans counts), same,
      Line.prune_read_trimEnd counts]

theorem nil_of_blank {raw : Text} (blank : trimEnd raw = []) : Alike [raw] [] := by
  intro first
  have ignored : (Line.read first raw).isIgnored = true := by
    simp [Line.isIgnored, Line.read, trim, blank, trimStart, Statement.isIgnored]
  change (counted (Line.read first raw :: [])).map Line.prune = []
  rw [counted_cons_ignored ignored]
  rfl

theorem compileLines_eq {raws others : List Text} (alike : Alike raws others) :
    compileLines raws = compileLines others := by
  have pruned : ∀ raws, ({} : Compilation).run ((counted (readLines 1 raws)).map Line.prune) =
      ((({} : Compilation).run (readLines 1 raws)).1.prune,
        (({} : Compilation).run (readLines 1 raws)).2) := by
    intro raws
    have ran := Compilation.run_prune {} (counted (readLines 1 raws))
    rwa [Compilation.run_counted] at ran
  have same := pruned raws
  rw [alike 1, pruned others] at same
  obtain ⟨states, faults⟩ := Prod.mk.inj same
  rcases first : ({} : Compilation).run (readLines 1 raws) with ⟨state, fault⟩
  rcases second : ({} : Compilation).run (readLines 1 others) with ⟨state', fault'⟩
  rw [first, second] at states faults
  obtain rfl : fault' = fault := faults
  cases fault' with
  | some fault => rw [compileLines_of_run_fault first, compileLines_of_run_fault second]
  | none =>
    have finished : state'.prune.finish = state.prune.finish := congrArg Compilation.finish states
    rw [compileLines_of_run first, compileLines_of_run second]
    exact congrArg Except.ok finished.symm

end Alike

namespace Text

def terminators : List Text := ["\n".toList, "\r\n".toList]

theorem lines_terminated {line terminator : Text} (plain : '\n' ∉ line)
    (ends : terminator ∈ terminators) (rest : Text) :
    ∃ cut, trimEnd cut = trimEnd line ∧ lines (line ++ terminator ++ rest) = cut :: lines rest := by
  obtain ⟨gap, blank, other, rfl⟩ : ∃ gap, (∀ c ∈ gap, isBlank c = true) ∧ '\n' ∉ gap ∧
      terminator = gap ++ ['\n'] := by
    simp only [terminators, List.mem_cons, List.not_mem_nil, or_false] at ends
    rcases ends with rfl | rfl
    · exact ⟨[], List.forall_mem_nil _, by decide, by decide⟩
    · exact ⟨['\r'], List.forall_mem_singleton.2 (by decide), by decide, by decide⟩
  have spaced : '\n' ∉ line ++ gap := List.not_mem_append plain other
  refine ⟨endLine (line ++ gap).reverse, ?_, ?_⟩
  · rcases endLine_reverse (line ++ gap) with whole | cut
    · rw [whole, trimEnd_append_blank blank]
    · have fallen : ∀ c ∈ ['\r'], isBlank c = true := List.forall_mem_singleton.2 (by decide)
      rw [← trimEnd_append_blank blank line, ← cut, trimEnd_append_blank fallen, cut]
  · rw [← lines_newline spaced]
    simp

end Text

theorem alike_lines_last {raw ending : Text} (plain : '\n' ∉ raw)
    (last : ending ∈ [] :: terminators) : Alike (lines (raw ++ ending)) [raw] := by
  rcases List.mem_cons.1 last with rfl | ends
  · rw [List.append_nil, lines_of_plain plain]
    by_cases empty : raw = []
    · rw [if_pos empty, empty]
      exact (Alike.nil_of_blank rfl).symm
    · rw [if_neg empty]
      exact .refl [raw]
  · obtain ⟨cut, same, split⟩ := lines_terminated plain ends []
    rw [List.append_nil] at split
    rw [split]
    exact .cons same (.refl [])

theorem alike_lines_intercalate {raws : List Text} (plain : ∀ raw ∈ raws, '\n' ∉ raw)
    {terminator ending : Text} (ends : terminator ∈ terminators)
    (last : ending ∈ [] :: terminators) :
    Alike (lines (terminator.intercalate raws ++ ending)) raws := by
  induction raws with
  | nil =>
    have alone := alike_lines_last List.not_mem_nil last
    exact alone.trans (Alike.nil_of_blank rfl)
  | cons raw raws ih =>
    obtain ⟨firstPlain, plain⟩ := List.forall_mem_cons.1 plain
    cases raws with
    | nil => simpa [List.intercalate] using alike_lines_last firstPlain last
    | cons next raws =>
      have parts : terminator.intercalate (raw :: next :: raws) ++ ending =
          raw ++ terminator ++ (terminator.intercalate (next :: raws) ++ ending) := by
        simp [List.intercalate]
      obtain ⟨cut, same, split⟩ := lines_terminated firstPlain ends
        (terminator.intercalate (next :: raws) ++ ending)
      rw [parts, split]
      exact .cons same (ih plain)

theorem alike_of_forall₂ {raws others : List Text}
    (spaced : List.Forall₂ (fun raw other => ∃ gap, (∀ c ∈ gap, isBlank c = true) ∧
      other = raw ++ gap) raws others) : Alike others raws := by
  induction spaced with
  | nil => exact .refl []
  | cons spaced _ ih =>
    obtain ⟨gap, blank, rfl⟩ := spaced
    exact .cons (trimEnd_append_blank blank _) ih

/-- Neither blanks at the ends of lines nor the terminators between them tell in what
is compiled: lines with blanks added compile as they do without, and a text compiles
as the lines that it was joined from, a last terminator or not. -/
theorem compileLines_endings :
    (∀ raws others : List Text,
      List.Forall₂ (fun raw other => ∃ gap, (∀ c ∈ gap, isBlank c = true) ∧ other = raw ++ gap)
        raws others →
      compileLines others = compileLines raws) ∧
    ∀ raws : List Text, (∀ raw ∈ raws, '\n' ∉ raw) →
      ∀ terminator ∈ ["\n".toList, "\r\n".toList],
      ∀ ending ∈ [[], "\n".toList, "\r\n".toList],
        compileText (terminator.intercalate raws ++ ending) = compileLines raws ∧
        ∀ files options template,
          (Template.read files template).value = .ok (terminator.intercalate raws ++ ending) →
          (template.compileLogged files options).value = compileLines raws := by
  constructor
  · intro raws others spaced
    exact (alike_of_forall₂ spaced).compileLines_eq
  · intro raws plain terminator ends ending last
    have same : compileText (terminator.intercalate raws ++ ending) = compileLines raws :=
      (alike_lines_intercalate plain ends last).compileLines_eq
    refine ⟨same, ?_⟩
    intro files options template read
    rw [Template.value_compileLogged, Template.compile, read]
    exact same

theorem compileLines_endings_list :
    let spaced := ["%ul \t", "\t%li\x0b", "\t"].map String.toList
    let text := "%ul\r\r\n  %li one\r\n\r\n".toList
    let crooked := "%ul\r\n\r\n   %li".toList
    let shown (document : Document) := (document.code, document.warnings)
    compileLines spaced = compileLines (["%ul", "\t%li", ""].map String.toList) ∧
      (compileLines spaced).map shown =
        .ok ("<ul>\n</ul>\n<li>\n</li>".toList, [.tabIndentation 2]) ∧
      (compileText text).map shown = .ok ("<ul>\n  <li>one</li>\n</ul>".toList, []) ∧
      ((Template.inline "list" text).compileLogged (fun _ => .error .notFound) {}).value =
        compileLines (["%ul\r", "  %li one", ""].map String.toList) ∧
      compileText crooked = .error (.oddIndentation 3 3) := by
  intro spaced text crooked shown
  obtain ⟨blanks, joined⟩ := compileLines_endings
  obtain ⟨compiled, template⟩ := joined (["%ul\r", "  %li one", ""].map String.toList)
    (by decide) "\r\n".toList (by decide) "\r\n".toList (by decide)
  obtain ⟨failed, -⟩ := joined (["%ul", "", "   %li"].map String.toList)
    (by decide) "\r\n".toList (by decide) [] (by decide)
  have whole : "\r\n".toList.intercalate (["%ul\r", "  %li one", ""].map String.toList) ++
      "\r\n".toList = text := by decide +kernel
  have whole' : "\r\n".toList.intercalate (["%ul", "", "   %li"].map String.toList) ++ [] =
      crooked := by decide +kernel
  rw [whole] at compiled template
  rw [whole'] at failed
  have same : compileLines spaced = compileLines (["%ul", "\t%li", ""].map String.toList) := by
    refine blanks _ _ (.cons ⟨" \t".toList, List.all_eq_true.1 ?_, ?_⟩ (.cons
      ⟨"\x0b".toList, List.all_eq_true.1 ?_, ?_⟩ (.cons ⟨"\t".toList, List.all_eq_true.1 ?_, ?_⟩
        .nil)))
    all_goals decide
  refine ⟨same, ?_, ?_, template _ _ _ rfl, ?_⟩
  · rw [same]
    decide +kernel
  · rw [compiled]
    decide +kernel
  · rw [failed]
    decide +kernel

end IndentMarkup
