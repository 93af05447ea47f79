import IndentMarkup.Disk.Failure

/-! Faults: what stops the compilation of a template. -/
namespace IndentMarkup

inductive Fault
  | tooDeep (line : Nat)
  | oddIndentation (line spaces : Nat)
  | unreadable (path : String) (cause : AccessFailure)
  deriving DecidableEq, Repr

namespace Fault

def line? : Fault → Option Nat
  | tooDeep line => some line
  | oddIndentation line _ => some line
  | unreadable _ _ => none

def message : Fault → String
  | tooDeep line => s!"invalid indentation on line {line}"
  | oddIndentation line spaces =>
    s!"invalid indentation on line {line}: {spaces} leading spaces is not a multiple of two"
  | unreadable path cause =>
    let reason := cause.message
    s!"cannot read template {path}: {reason}"

end Fault

end IndentMarkup
