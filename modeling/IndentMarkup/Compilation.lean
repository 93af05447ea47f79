import IndentMarkup.Assembly
import IndentMarkup.Log

/-! Compilation of the lines of a template into a document. Lines are accepted
one after the other; an ignored line is counted and otherwise passed over, and
the first line that is indented wrongly stops the compilation. -/
namespace IndentMarkup

structure Document where
  entries : List Entry
  warnings : List Warning
  deriving DecidableEq, Repr

def Document.code (document : Document) : Text := Entry.render document.entries

/-- A compilation between two lines; `previous` is the line accepted last. -/
structure Compilation where
  assembly : Assembly := {}
  warnings : Array Warning := #[]
  previous : Option Line := none
  log : Array Record := #[]

namespace Compilation

def accept (state : Compilation) (line : Line) : Compilation where
  assembly := state.assembly.add line
  warnings := state.warnings ++ line.warnings
  previous := some line
  log :=
    if line.opensLevel then state.log.push (.frameOpened line.number line.indent) else state.log

/-- The state after the last line accepted, and the fault that came then, if any. -/
def run (state : Compilation) : List Line → Compilation × Option Fault
  | [] => (state, none)
  | line :: rest =>
    if line.isIgnored then run state rest
    else match line.fault? state.previous with
      | some fault => (state, some fault)
      | none => run (state.accept line) rest

theorem run_ignored (state : Compilation) {line : Line} (ignored : line.isIgnored = true)
    (rest : List Line) : state.run (line :: rest) = state.run rest := by
  simp [run, ignored]

theorem run_fault (state : Compilation) {line : Line} {fault : Fault}
    (counted : line.isIgnored = false) (wrong : line.fault? state.previous = some fault)
    (rest : List Line) : state.run (line :: rest) = (state, some fault) := by
  simp [run, counted, wrong]

theorem run_accept (state : Compilation) {line : Line}
    (counted : line.isIgnored = false) (right : line.fault? state.previous = none)
    (rest : List Line) : state.run (line :: rest) = (state.accept line).run rest := by
  simp [run, counted, right]

def finish (state : Compilation) : Document where
  entries := state.assembly.flush.entries.toList
  warnings := state.warnings.toList

end Compilation

def readLines (first : Nat) : List Text → List Line
  | [] => []
  | raw :: rest => Line.read first raw :: readLines (first + 1) rest

/-- A compilation that stops leaves the records made until then. -/
def compileLogged (raws : List Text) : Logged (Except Fault Document) :=
  match ({} : Compilation).run (readLines 1 raws) with
  | (state, some fault) => ⟨state.log.toList, .error fault⟩
  | (state, none) =>
    let document := state.finish
    let closing := Record.compiled raws.length document.entries.length state.assembly.frames.length
    ⟨state.log.toList ++ [closing], .ok document⟩

def compileLines (raws : List Text) : Except Fault Document := (compileLogged raws).value

def compileText (s : Text) : Except Fault Document := compileLines (Text.lines s)

end IndentMarkup
