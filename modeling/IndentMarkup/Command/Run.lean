import IndentMarkup.Batch.Printed
import IndentMarkup.Batch.Progress
import IndentMarkup.Command.Arguments
import IndentMarkup.Command.Output

/-! Runs of the command. A plan is made from what the templates hold; saving its
outputs is all that changes the files; the outcome says what was printed, in
order, on which stream, and the exit code. The clock is outside: a run is told
how the time it took is to be spelled. -/
namespace IndentMarkup.Command
open Batch

inductive Event
  | out (text : String)
  | err (text : String)
  | note (record : Record)
  deriving DecidableEq, Repr

structure Outcome where
  exitCode : Nat
  events : List Event
  deriving DecidableEq, Repr

namespace Outcome

def stdout (outcome : Outcome) : String :=
  String.join (outcome.events.filterMap fun
    | .out text => some text
    | _ => none)

def stderr (outcome : Outcome) (verbosity : Nat) : String :=
  String.join (outcome.events.filterMap fun
    | .out _ => none
    | .err text => some text
    | .note record =>
      if record.severity.verbosity ≤ verbosity then some record.written else none)

end Outcome

structure Duration where
  logged : String
  reported : String
  deriving DecidableEq, Repr

structure Plan where
  notes : List Record
  report : Report
  /-- The output directory, if one was asked for, and the target of each result. -/
  targets : Except Collision (Option (String × List (Option String)))

namespace Request

def settings (request : Request) : Settings where
  keepGoing := some request.keepGoing
  workers := request.jobs
  options := ⟨request.cache⟩

def jobList (request : Request) : List Job := request.paths.map Job.ofPath

def compile (machine : Machine) (files : Reader) (request : Request) : Logged Report :=
  Batch.run machine files request.settings request.jobList

end Request

def warningNotes (results : List Result) : List Record :=
  results.flatMap fun result =>
    match result.document? with
    | some document => document.warnings.map (Record.warned result.id)
    | none => []

def plan (request : Request) (duration : Duration) (batch : Logged Report) : Plan :=
  let report := batch.value
  let ignored := if request.jobs.isSome && !request.keepGoing then [Record.jobsIgnored] else []
  let summary := Record.summary report.tally.succeeded report.total duration.logged
  { notes := ignored ++ batch.log ++ [summary] ++ warningNotes report.results
    report
    targets := match request.outDir with
      | none => .ok none
      | some directory =>
        (outputTargets directory report.results).map fun targets => some (directory, targets) }

def Collision.message (collision : Collision) : String :=
  collision.first ++ " and " ++ collision.second ++ " would both be written to " ++
    collision.target

def SaveFault.message : SaveFault → String
  | directory path cause => "creating output directory " ++ path ++ ": " ++ cause.message
  | file target cause => "writing " ++ target ++ ": " ++ cause.message

def failure (events : List Event) (message : String) : Outcome :=
  ⟨1, events ++ [.err ("error: " ++ message ++ "\n")]⟩

def resultEvents (toStdout : Bool) (result : Result) : List Event :=
  match result.document?, result.failure? with
  | _, some failure =>
    match failure.line with
    | some line => [.err (result.id ++ ":" ++ toString line ++ ": " ++ failure.message ++ "\n")]
    | none => [.err ("error: " ++ failure.message ++ "\n")]
  | some document, none => if toStdout then [.out (printed document)] else []
  | none, none => []

def skippedEvents (report : Report) : List Event :=
  if report.skipped = 0 then []
  else
    [.err ("skipped " ++ toString report.skipped ++ " template(s) after the first failure; " ++
      "pass --keep-going to compile them\n")]

def reportEvents (request : Request) (duration : Duration) (report : Report) : List Event :=
  if request.json then [.out ((report.toJson duration.reported).print ++ "\n")]
  else report.results.flatMap (resultEvents request.outDir.isNone) ++ skippedEvents report

def conclude (request : Request) (duration : Duration) (plan : Plan) (saved : Saved) : Outcome :=
  let notes := plan.notes.map Event.note
  match plan.targets with
  | .error collision => failure notes collision.message
  | .ok _ =>
    let wrote := saved.written.map fun output => Event.note (.wrote output.id output.target)
    match saved.fault with
    | some fault => failure (notes ++ wrote) fault.message
    | none =>
      { exitCode := if plan.report.allSucceeded then 0 else 1
        events := notes ++ wrote ++ reportEvents request duration plan.report }

section
variable {σ : Type} (system : FileSystem σ)

def Plan.save (plan : Plan) (state : σ) : σ × Saved :=
  match plan.targets with
  | .ok (some (directory, targets)) =>
    Command.save system state directory plan.report.results targets
  | _ => (state, {})

def run (machine : Machine) (duration : Duration) (request : Request) (state : σ) : σ × Outcome :=
  let plan := plan request duration (request.compile machine (system.read state))
  let (after, saved) := plan.save system state
  (after, conclude request duration plan saved)

end

def versionText : String := "phml 0.0.1\n"

def usageText : String :=
  "Usage: phml [OPTIONS] <PATHS>...\n\n" ++
  "  -o, --out-dir <DIR>  write <stem>.php for each template into this directory\n" ++
  "  -j, --jobs <N>       compile several templates at once (needs --keep-going)\n" ++
  "      --keep-going     keep compiling the remaining templates after a failure\n" ++
  "      --cache          memoize compiled output (accepted, has no effect)\n" ++
  "      --json           print a JSON report instead of the compiled output\n" ++
  "  -v, --verbose        raise the log level (-v info, -vv debug, -vvv trace)\n" ++
  "  -h, --help           print this help\n" ++
  "  -V, --version        print the version\n"

end IndentMarkup.Command
