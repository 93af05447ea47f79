import IndentMarkup.Text.Blank

/-! Arguments of the command. They are read from left to right, options and
paths in any order; reading stops at the first mistake and at a request for the
version or for help, whichever comes first. -/
namespace IndentMarkup.Command

structure Request where
  paths : List String := []
  outDir : Option String := none
  jobs : Option Nat := none
  keepGoing : Bool := false
  cache : Bool := false
  json : Bool := false
  verbosity : Nat := 0
  deriving DecidableEq, Repr

inductive Stop
  | version | help | misuse
  deriving DecidableEq, Repr

inductive Switch
  | keepGoing | cache | json | verbose | version | help
  deriving DecidableEq, Repr

inductive Setting
  | outDir | jobs
  deriving DecidableEq, Repr

def longSwitches : List (Text × Switch) :=
  [("keep-going".toList, .keepGoing), ("cache".toList, .cache), ("json".toList, .json),
    ("verbose".toList, .verbose), ("version".toList, .version), ("help".toList, .help)]

def longSettings : List (Text × Setting) :=
  [("out-dir".toList, .outDir), ("jobs".toList, .jobs)]

def shortSwitches : List (Char × Switch) := [('v', .verbose), ('V', .version), ('h', .help)]

def shortSettings : List (Char × Setting) := [('o', .outDir), ('j', .jobs)]

def countLimit : Nat := 0xFFFFFFFFFFFFFFFF

def readCount? (spelling : Text) : Option Nat :=
  let digits := if spelling.head? = some '+' then spelling.tail else spelling
  if digits.isEmpty || !digits.all Char.isDigit then none
  else
    let count := digits.foldl (fun n digit => 10 * n + (digit.toNat - '0'.toNat)) 0
    if count ≤ countLimit then some count else none

namespace Request

def switch (request : Request) : Switch → Except Stop Request
  | .verbose => .ok { request with verbosity := request.verbosity + 1 }
  | .version => .error .version
  | .help => .error .help
  | .keepGoing =>
    if request.keepGoing then .error .misuse else .ok { request with keepGoing := true }
  | .cache => if request.cache then .error .misuse else .ok { request with cache := true }
  | .json => if request.json then .error .misuse else .ok { request with json := true }

def assign (request : Request) (value : Text) : Setting → Except Stop Request
  | .outDir =>
    if value.isEmpty || request.outDir.isSome then .error .misuse
    else .ok { request with outDir := some (String.ofList value) }
  | .jobs =>
    match readCount? value, request.jobs with
    | some count, none => .ok { request with jobs := some count }
    | _, _ => .error .misuse

def addPath (request : Request) (path : String) : Except Stop Request :=
  if path.isEmpty then .error .misuse
  else .ok { request with paths := request.paths ++ [path] }

/-- An option spelled out, with its value behind an equals sign if it has one
there. A setting that is still without its value is returned beside the request. -/
def long (request : Request) (spelling : Text) : Except Stop (Request × Option Setting) :=
  let name := spelling.takeWhile (· ≠ '=')
  let value := spelling.drop name.length
  match longSwitches.lookup name, longSettings.lookup name with
  | some option, _ =>
    if value.isEmpty then do return (← request.switch option, none) else .error .misuse
  | none, some setting =>
    if value.isEmpty then .ok (request, some setting)
    else do return (← request.assign value.tail setting, none)
  | none, none => .error .misuse

/-- Options of one letter each; behind a setting the rest of the letters, less
an equals sign at their start, is its value. -/
def cluster (request : Request) : Text → Except Stop (Request × Option Setting)
  | [] => .ok (request, none)
  | letter :: rest =>
    match shortSwitches.lookup letter, shortSettings.lookup letter with
    | some option, _ => do cluster (← request.switch option) rest
    | none, some setting =>
      if rest.isEmpty then .ok (request, some setting)
      else
        let value := if rest.head? = some '=' then rest.tail else rest
        do return (← request.assign value setting, none)
    | none, none => .error .misuse

def complete (request : Request) : Except Stop Request :=
  if request.paths.isEmpty then .error .misuse else .ok request

end Request

def looksOptional (argument : String) : Bool :=
  argument.toList.head? = some '-' && argument ≠ "-"

/-- Reads on with a setting that waits for its value, if there is one. -/
def readFrom (request : Request) : Option Setting → List String → Except Stop Request
  | none, [] => request.complete
  | some _, [] => .error .misuse
  | some setting, value :: rest =>
    if looksOptional value then .error .misuse
    else do readFrom (← request.assign value.toList setting) none rest
  | none, argument :: rest =>
    match argument.toList with
    | ['-', '-'] => do (← rest.foldlM Request.addPath request).complete
    | '-' :: '-' :: spelling => do
      let (request, waiting) ← request.long spelling
      readFrom request waiting rest
    | '-' :: letter :: letters => do
      let (request, waiting) ← request.cluster (letter :: letters)
      readFrom request waiting rest
    | _ => do readFrom (← request.addPath argument) none rest

def read (arguments : List String) : Except Stop Request := readFrom {} none arguments

end IndentMarkup.Command
