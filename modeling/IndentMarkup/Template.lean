import IndentMarkup.Compilation

/-! Templates: a file to be read, or text at hand under a name. -/
namespace IndentMarkup

inductive Template
  | file (path : String)
  | inline (name : String) (text : Text)
  deriving DecidableEq, Repr

/-- What a file holds when it is read; reading a file twice gives the same. -/
abbrev Reader := String → Except AccessFailure String

/-- The cache is accepted and recorded, and changes no result. -/
structure Options where
  cache : Bool := false
  deriving DecidableEq, Repr

namespace Template

def name : Template → String
  | file path => path
  | inline name _ => name

def path? : Template → Option String
  | file path => some path
  | inline _ _ => none

def read (files : Reader) : Template → Logged (Except Fault Text)
  | file path =>
    match files path with
    | .ok text => ⟨[.templateRead text.utf8ByteSize path], .ok text.toList⟩
    | .error cause => ⟨[], .error (.unreadable path cause)⟩
  | inline _ text => ⟨[], .ok text⟩

def compileLogged (files : Reader) (options : Options) (template : Template) :
    Logged (Except Fault Document) :=
  let request := if options.cache then [Record.cacheRequested template.name] else []
  (⟨request, ()⟩ : Logged Unit).andThen fun _ =>
    (template.read files).andThen fun
      | .ok text => IndentMarkup.compileLogged (Text.lines text)
      | .error fault => ⟨[], .error fault⟩

def compile (files : Reader) (template : Template) : Except Fault Document := do
  compileText (← (template.read files).value)

theorem value_compileLogged (files : Reader) (options : Options) (template : Template) :
    (template.compileLogged files options).value = template.compile files := by
  simp only [compileLogged, compile, Logged.value_andThen]
  cases (template.read files).value <;> rfl

end Template

end IndentMarkup
