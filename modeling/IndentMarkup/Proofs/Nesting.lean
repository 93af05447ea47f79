import IndentMarkup.Proofs.Relocation
import IndentMarkup.Proofs.Text

/-! Templates inside a line. Every line of a template can be put one level further
in, below a line that opens a level: the whole then compiles if and only if the
template does, and what it compiles to is what the template does, further in and
between the pieces of the line above it. -/
namespace IndentMarkup
open Text

namespace Text

def indented (raw : Text) : Text := ' ' :: ' ' :: raw

theorem trimEnd_indented (raw : Text) :
    trimEnd (indented raw) = if trimEnd raw = [] then [] else indented (trimEnd raw) := by
  have spaces : [' ', ' '].dropWhile isBlank = [] := by decide
  by_cases blank : raw.reverse.dropWhile isBlank = []
  · simp [trimEnd, indented, List.dropWhile_append, blank, spaces]
  · simp [trimEnd, indented, List.dropWhile_append, blank]

theorem trim_indented (raw : Text) : trim (indented raw) = trim raw := by
  rw [trim, trim, trimEnd_indented]
  split
  next blank => rw [blank]
  next => rfl

end Text

namespace Line

theorem isIgnored_read_indented (number number' : Nat) (raw : Text) :
    (read number' (indented raw)).isIgnored = (read number raw).isIgnored := by
  simp only [isIgnored, read, trim_indented]

theorem read_indented {number : Nat} {raw : Text} (counts : (read number raw).isIgnored = false) :
    read (number + 1) (indented raw) = (read number raw).move (· + 1) 1 := by
  have given : trimEnd raw ≠ [] := by
    intro blank
    simp [isIgnored, read, trim, blank, trimStart, Statement.isIgnored] at counts
  have spaces : (trimEnd (indented raw)).takeWhile (· = ' ') =
      indented ((trimEnd raw).takeWhile (· = ' ')) := by
    rw [trimEnd_indented, if_neg given]
    rfl
  simp only [read, move, trim_indented, spaces]
  rfl

end Line

theorem counted_readLines_indented (first : Nat) (raws : List Text) :
    counted (readLines (first + 1) (raws.map indented)) =
      (counted (readLines first raws)).map (Line.move (· + 1) 1) := by
  induction raws generalizing first with
  | nil => rfl
  | cons raw raws ih =>
    have same := Line.isIgnored_read_indented first (first + 1) raw
    rw [List.map_cons, readLines, readLines]
    cases ignored : (Line.read first raw).isIgnored with
    | true =>
      rw [counted_cons_ignored (same.trans ignored), counted_cons_ignored ignored, ih]
    | false =>
      rw [counted_cons (same.trans ignored), counted_cons ignored, ih, List.map_cons,
        Line.read_indented ignored]

theorem Compilation.embedded_accept {line : Line} (opens : line.opensLevel = true)
    (flush : line.indent = 0) :
    Embedded (· + 1) 1 [line.frame] [line.entry] line.warnings {}
      (({} : Compilation).accept line) := by
  refine ⟨⟨?_, ?_, ?_⟩, ?_, ?_⟩
  · simp [Line.frame, flush]
  · simp [Compilation.accept, Assembly.add, Assembly.closeTo, opens]
  · simp [Compilation.accept, Assembly.stale]
  · simp [Compilation.accept]
  · simp [Compilation.accept, Line.limit, opens, flush]

theorem Line.isIgnored_of_opensLevel {line : Line} (opens : line.opensLevel = true) :
    line.isIgnored = false := by
  simp only [opensLevel, Statement.opensLevel, Bool.and_eq_true, Bool.not_eq_true'] at opens
  exact opens.1

/-- Below a line without leading spaces that opens a level, the lines of a template
compile if and only if they do by themselves: to the same entries one level further
in, between the pieces of that line, and with its warnings first. A fault is that of
the template, one line down and with two more spaces. -/
theorem compileLines_nested {opener : Text} (flush : (Line.read 1 opener).leadingSpaces = 0)
    (opens : (Line.read 1 opener).opensLevel = true) (body : List Text) :
    compileLines (opener :: body.map fun raw => ' ' :: ' ' :: raw) =
      match compileLines body with
      | .ok document => .ok
        { entries :=
            ⟨0, trim ((Line.read 1 opener).statement.opening?.getD [])⟩ ::
              document.entries.map (Entry.raise 1) ++
                [⟨0, trim ((Line.read 1 opener).statement.closing?.getD [])⟩]
          warnings :=
            (Line.read 1 opener).warnings ++ document.warnings.map (Warning.renumber (· + 1)) }
      | .error fault => .error ((fault.renumber (· + 1)).deepen 1) := by
  have outermost : (Line.read 1 opener).indent = 0 := by rw [Line.indent, flush]
  have counts : (Line.read 1 opener).isIgnored = false := Line.isIgnored_of_opensLevel opens
  have right : (Line.read 1 opener).fault? none = none := by
    rw [Line.fault?_eq_none_iff, flush, outermost]
    exact ⟨rfl, Nat.le_refl 0⟩
  have ran : ({} : Compilation).run (readLines 1 (opener :: body.map indented)) =
      (({} : Compilation).accept (Line.read 1 opener)).run
        ((counted (readLines 1 body)).map (Line.move (· + 1) 1)) := by
    rw [readLines, Compilation.run_accept _ counts right, ← Compilation.run_counted,
      counted_readLines_indented]
  have start := Compilation.embedded_accept opens outermost
  obtain ⟨succeeds, fails⟩ := start.compileLines ran
  cases alone : compileLines body with
  | error fault => exact fails fault alone
  | ok document =>
    have opening : (Line.read 1 opener).entry =
        ⟨0, trim ((Line.read 1 opener).statement.opening?.getD [])⟩ := by
      rw [Line.entry, if_pos opens, outermost]
    have closing : (Line.read 1 opener).frame.entry =
        ⟨0, trim ((Line.read 1 opener).statement.closing?.getD [])⟩ := by
      rw [Line.frame, Frame.entry, outermost]
    rw [← opening, ← closing]
    exact succeeds document alone

theorem compileLines_nested_list :
    compileLines (["%ul", "  %li", "     one"].map String.toList) =
        .error (.oddIndentation 3 5) ∧
      ∃ document, compileLines (["%li", " ", "  one", "\t%li"].map String.toList) = .ok document ∧
        compileLines (["%ul", "  %li", "   ", "    one", "  \t%li"].map String.toList) =
          .ok ⟨⟨0, "<ul>".toList⟩ :: document.entries.map (Entry.raise 1) ++
            [⟨0, "</ul>".toList⟩], [.tabIndentation 5]⟩ := by
  have flush : (Line.read 1 "%ul".toList).leadingSpaces = 0 := by decide +kernel
  have opens : (Line.read 1 "%ul".toList).opensLevel = true := by decide +kernel
  have failed : compileLines (["%li", "   one"].map String.toList) =
      .error (.oddIndentation 2 3) :=
    compileLines_of_run_fault (Prod.ext rfl (by decide +kernel))
  have compiled : compileLines (["%li", " ", "  one", "\t%li"].map String.toList) = .ok _ :=
    compileLines_of_run (Prod.ext rfl (by decide +kernel))
  have fails := compileLines_nested flush opens (["%li", "   one"].map String.toList)
  have succeeds := compileLines_nested flush opens
    (["%li", " ", "  one", "\t%li"].map String.toList)
  rw [failed] at fails
  rw [compiled] at succeeds
  refine ⟨Eq.trans (congrArg compileLines ?_) fails, _, compiled,
    Eq.trans (congrArg compileLines ?_) (succeeds.trans (congrArg Except.ok ?_))⟩
  · decide +kernel
  · decide +kernel
  · decide +kernel

end IndentMarkup
