import IndentMarkup.Configuration

/-! Compilation on behalf of a host program that hands over text and shows
warnings and errors as plain messages. -/
namespace IndentMarkup.Embedding

structure Notice where
  line : Nat
  message : String
  deriving DecidableEq, Repr

structure Compiled where
  code : Text
  warnings : List Notice
  deriving DecidableEq, Repr

def templateName : String := "template.phml"

def noFiles : Reader := fun _ => .error .notFound

def compile (configuration : HostConfiguration) (source : Text) : Except String Compiled :=
  let template := Template.inline templateName source
  match (template.compileLogged noFiles configuration.options).value with
  | .error fault => .error ("Compile error: " ++ fault.message)
  | .ok document => .ok
    { code := document.code
      warnings := document.warnings.map fun warning => ⟨warning.line, warning.message⟩ }

end IndentMarkup.Embedding
