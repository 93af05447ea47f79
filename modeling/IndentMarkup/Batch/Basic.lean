import IndentMarkup.Template

/-! Batches of templates. Each template is compiled on its own; a failure is the
result of its template and leaves the others alone. -/
namespace IndentMarkup.Batch

structure Job where
  id : String
  template : Template
  deriving DecidableEq, Repr

def Job.ofPath (path : String) : Job := ⟨path, .file path⟩

/-- What is told of a fault: its text, and the line if it is that of a line. -/
structure Failure where
  message : String
  line : Option Nat
  deriving DecidableEq, Repr

def Failure.ofFault (fault : Fault) : Failure := ⟨fault.message, fault.line?⟩

structure Result where
  id : String
  document? : Option Document
  failure? : Option Failure

def Result.failed (result : Result) : Bool := result.failure?.isSome

def Result.ofOutcome (id : String) : Except Fault Document → Result
  | .ok document => { id, document? := some document, failure? := none }
  | .error fault => { id, document? := none, failure? := some (.ofFault fault) }

def Job.result (files : Reader) (job : Job) : Result :=
  .ofOutcome job.id (job.template.compile files)

def Job.run (files : Reader) (options : Options) (job : Job) : Logged Result :=
  (job.template.compileLogged files options).andThen fun outcome =>
    let log := match outcome with
      | .ok _ => []
      | .error fault => [Record.templateFailed job.id fault]
    ⟨log, .ofOutcome job.id outcome⟩

theorem Job.value_run (files : Reader) (options : Options) (job : Job) :
    (job.run files options).value = job.result files := by
  simp only [run, result, Logged.value_andThen, Template.value_compileLogged]

/-- Counts have 32 bits: one that gets here starts over. -/
def countLimit : Nat := 0x100000000

structure Tally where
  succeeded : Nat := 0
  failed : Nat := 0
  deriving DecidableEq, Repr

def Tally.record (tally : Tally) (result : Result) : Tally :=
  if result.failed then { tally with failed := (tally.failed + 1) % countLimit }
  else { tally with succeeded := (tally.succeeded + 1) % countLimit }

structure Report where
  results : List Result
  total : Nat
  tally : Tally

namespace Report

def allSucceeded (report : Report) : Bool :=
  report.tally.failed = 0 && report.tally.succeeded = report.total

def skipped (report : Report) : Nat := report.total - report.results.length

end Report

end IndentMarkup.Batch
