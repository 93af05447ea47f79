import IndentMarkup.Text.Blank

/-! Warnings: what is reported of a line without stopping the compilation. -/
namespace IndentMarkup

inductive Warning
  | literalFallback (line : Nat) (content : Text)
  | unsupportedControl (line : Nat) (keyword : Text)
  | tabIndentation (line : Nat)
  deriving DecidableEq, Repr

namespace Warning

def line : Warning → Nat
  | literalFallback line _ => line
  | unsupportedControl line _ => line
  | tabIndentation line => line

def message : Warning → String
  | literalFallback line content =>
    let shown := String.ofList content
    s!"line {line}: unrecognized element syntax, emitted as text: '{shown}'"
  | unsupportedControl line keyword =>
    let shown := String.ofList keyword
    s!"line {line}: '{shown}' is not a nesting control statement, emitted as raw code"
  | tabIndentation line =>
    s!"line {line}: tabs in indentation are ignored, only spaces set the nesting depth"

end Warning

end IndentMarkup
