import IndentMarkup.Command.Run

/-! The command on a real disk and terminal. Files are read before anything is
written, and none after the template that stops the run. -/
namespace IndentMarkup.Command

/-- The number of an error, which is reported with either sign. -/
def errorNumber (code : UInt32) : UInt32 := if code < 4096 then code else 0 - code

def failureOf : IO.Error → AccessFailure
  | .noFileOrDirectory _ _ _ => .notFound
  | .alreadyExists _ _ _ => .alreadyExists
  | .inappropriateType _ code details =>
    if errorNumber code = 20 then .notDirectory
    else if errorNumber code = 21 then .isDirectory
    else .other details
  | error => .other (toString error)

def readTemplate (path : String) : IO (Except AccessFailure String) := do
  try
    match String.fromUTF8? (← IO.FS.readBinFile path) with
    | some text => return .ok text
    | none => return .error .invalidEncoding
  catch error => return .error (failureOf error)

def readTemplates (keepGoing : Bool) :
    List String → IO (List (String × Except AccessFailure String))
  | [] => return []
  | path :: rest => do
    let content ← readTemplate path
    let result := (Batch.Job.ofPath path).result fun _ => content
    if result.failed && !keepGoing then return [(path, content)]
    return (path, content) :: (← readTemplates keepGoing rest)

def writeFiles : List (Batch.Result × Option String) → IO Saved
  | [] => return {}
  | (result, target?) :: rest => do
    match result.document?, target? with
    | some document, some target =>
      try
        IO.FS.writeFile target (printed document)
      catch error =>
        return { fault := some (.file target (failureOf error)) }
      let saved ← writeFiles rest
      return { saved with written := ⟨result.id, target, printed document⟩ :: saved.written }
    | _, _ => writeFiles rest

/-- A path through a file is told apart from a directory that is missing above. -/
def createDirectory (directory : String) : IO (Option AccessFailure) := do
  try
    IO.FS.createDir directory
    return none
  catch error =>
    match failureOf error with
    | .notDirectory => return some .notDirectory
    | _ =>
      try
        IO.FS.createDirAll directory
        return none
      catch error => return some (failureOf error)

def saveFiles (plan : Plan) : IO Saved := do
  match plan.targets with
  | .ok (some (directory, targets)) =>
    match ← createDirectory directory with
    | some cause => return { fault := some (.directory directory cause) }
    | none => writeFiles (plan.report.results.zip targets)
  | _ => return {}

def durationOf (nanoseconds : Nat) : Duration :=
  let tenths := nanoseconds / 100000
  let spelled := toString (tenths / 10) ++ "." ++ toString (tenths % 10)
  ⟨spelled, spelled⟩

def compileTemplates (request : Request) : IO UInt32 := do
  let start ← IO.monoNanosNow
  let contents ← readTemplates request.keepGoing request.paths
  let files : Reader := fun path => (contents.lookup path).getD (.error .notFound)
  let batch := request.compile .willing files
  let duration := durationOf ((← IO.monoNanosNow) - start)
  let plan := plan request duration batch
  let outcome := conclude request duration plan (← saveFiles plan)
  IO.eprint (outcome.stderr request.verbosity)
  IO.print outcome.stdout
  return outcome.exitCode.toUInt32

end IndentMarkup.Command

open IndentMarkup.Command in
def main (arguments : List String) : IO UInt32 := do
  match read arguments with
  | .ok request => compileTemplates request
  | .error .version => IO.print versionText; return 0
  | .error .help => IO.print usageText; return 0
  | .error .misuse => IO.eprint usageText; return 2
