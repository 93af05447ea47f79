import IndentMarkup.Fault
import IndentMarkup.Text.Visible
import IndentMarkup.Warning

/-! Records of what a run does, and values that carry the records made on the
way to them. Recording changes no value. -/
namespace IndentMarkup

inductive Severity
  | warn | info | debug | trace
  deriving DecidableEq, Repr

namespace Severity

def label : Severity → String
  | warn => "WARN"
  | info => "INFO"
  | debug => "DEBUG"
  | trace => "TRACE"

def aligned (severity : Severity) : String :=
  String.ofList (severity.label.toList.rightpad 5 ' ')

/-- How often more detail must be asked for before a record is shown. -/
def verbosity : Severity → Nat
  | warn => 0
  | info => 1
  | debug => 2
  | trace => 3

end Severity

inductive Record
  | cacheRequested (template : String)
  | templateRead (bytes : Nat) (path : String)
  | frameOpened (line level : Nat)
  | compiled (lines entries unclosed : Nat)
  | templateFailed (id : String) (fault : Fault)
  | poolRefused (reason : String)
  | jobsIgnored
  | summary (succeeded total : Nat) (milliseconds : String)
  | warned (id : String) (warning : Warning)
  | wrote (id target : String)
  deriving DecidableEq, Repr

namespace Record

def severity : Record → Severity
  | cacheRequested _ => .trace
  | templateRead _ _ => .debug
  | frameOpened _ _ => .trace
  | compiled _ _ _ => .debug
  | templateFailed _ _ => .debug
  | poolRefused _ => .warn
  | jobsIgnored => .warn
  | summary _ _ _ => .info
  | warned _ _ => .warn
  | wrote _ _ => .info

def origin : Record → String
  | cacheRequested _ => "phml_core::compiler"
  | templateRead _ _ => "phml_core::source"
  | frameOpened _ _ => "phml_core::stack"
  | compiled _ _ _ => "phml_core::compiler"
  | templateFailed _ _ => "phml_core::batch"
  | poolRefused _ => "phml_core::batch"
  | jobsIgnored => "phml"
  | summary _ _ _ => "phml"
  | warned _ _ => "phml"
  | wrote _ _ => "phml"

def message : Record → String
  | cacheRequested template => s!"cache requested for {template}; compiling uncached"
  | templateRead bytes path => s!"read {bytes} bytes from {path}"
  | frameOpened line level => s!"line {line}: open frame at level {level}"
  | compiled lines entries unclosed =>
    s!"compiled {lines} lines into {entries} fragments ({unclosed} closed at end of input)"
  | templateFailed id fault => id ++ ": " ++ fault.message
  | poolRefused reason => s!"falling back to the global thread pool: {reason}"
  | jobsIgnored =>
    "--jobs has no effect without --keep-going; templates compile one at a time"
  | summary succeeded total milliseconds =>
    s!"compiled {succeeded}/{total} templates in {milliseconds}ms"
  | warned id warning => id ++ ": " ++ warning.message
  | wrote id target => s!"{id} -> {target}"

def describe (record : Record) : String :=
  record.severity.label ++ " " ++ record.origin ++ ": " ++ record.message

def hanging (message : String) : Text :=
  message.toList.flatMap fun c => if c = '\n' then "\n    ".toList else [c]

/-- A record as it is written to a log, where severities are aligned. Only what
is visible is written, which an unfinished control sequence can cut short. -/
def written (record : Record) : String :=
  let heading := "[" ++ record.severity.aligned ++ " " ++ record.origin ++ "] "
  String.ofList (Text.visible (heading.toList ++ hanging record.message ++ ['\n']))

end Record

structure Logged (α : Type) where
  log : List Record
  value : α

namespace Logged

def map {α β : Type} (f : α → β) (result : Logged α) : Logged β :=
  ⟨result.log, f result.value⟩

def andThen {α β : Type} (result : Logged α) (next : α → Logged β) : Logged β :=
  let following := next result.value
  ⟨result.log ++ following.log, following.value⟩

@[simp] theorem value_map {α β : Type} (f : α → β) (result : Logged α) :
    (result.map f).value = f result.value := rfl

@[simp] theorem value_andThen {α β : Type} (result : Logged α) (next : α → Logged β) :
    (result.andThen next).value = (next result.value).value := rfl

end Logged

end IndentMarkup
