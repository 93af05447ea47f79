import IndentMarkup.Batch.Basic

/-! Work on a batch. Results are put into slots, one to a job, so that their
order is that of the jobs whatever the order in which workers finish them. A
batch that stops at a failure is worked on in the order of its jobs. -/
namespace IndentMarkup.Batch

structure Progress where
  slots : Array (Option Result)
  tally : Tally := {}
  log : Array Record := #[]

namespace Progress

def start (jobs : Nat) : Progress := { slots := Array.replicate jobs none }

def settle (progress : Progress) (position : Nat) (result : Logged Result) : Progress where
  slots := progress.slots.setIfInBounds position (some result.value)
  tally := progress.tally.record result.value
  log := progress.log ++ result.log

def results (progress : Progress) : List Result := progress.slots.toList.filterMap id

def advance (work : Job → Logged Result) (jobs : Array Job) (progress : Progress)
    (position : Nat) : Progress :=
  match jobs[position]? with
  | some job => progress.settle position (work job)
  | none => progress

def inOrder (work : Job → Logged Result) (jobs : Array Job) (order : List Nat) : Progress :=
  order.foldl (advance work jobs) (start jobs.size)

def untilFailure (work : Job → Logged Result) (progress : Progress) (position : Nat) :
    List Job → Progress
  | [] => progress
  | job :: rest =>
    let result := work job
    let settled := progress.settle position result
    if result.value.failed then settled else untilFailure work settled (position + 1) rest

def report (progress : Progress) (total : Nat) : Logged Report :=
  ⟨progress.log.toList, ⟨progress.results, total, progress.tally⟩⟩

end Progress

structure Pool where
  size : Nat
  staffed : 0 < size

/-- The pools there are: those made on demand, unless that fails, and one that all
batches share. -/
structure Machine where
  build : Nat → Except String Pool
  shared : Pool

def Machine.willing : Machine where
  build size := .ok ⟨max size 1, Nat.le_max_right size 1⟩
  shared := ⟨1, Nat.one_pos⟩

/-- A batch keeps going unless it is told not to. -/
structure Settings where
  keepGoing : Option Bool := none
  workers : Option Nat := none
  options : Options := {}
  deriving DecidableEq, Repr

namespace Settings

def keepsGoing (settings : Settings) : Bool := settings.keepGoing.getD true

/-- The pool that a batch is worked on in. One that cannot be made is replaced by
the shared one. -/
def pool (machine : Machine) (settings : Settings) : Logged Pool :=
  match settings.workers with
  | none => ⟨[], machine.shared⟩
  | some workers =>
    match machine.build workers with
    | .ok pool => ⟨[], pool⟩
    | .error reason => ⟨[.poolRefused reason], machine.shared⟩

end Settings

/-- A batch whose workers, if it keeps going, finish in the given order. The size
of their pool bounds how many jobs are worked on at once, and so which orders can
occur, but no result. -/
def runIn (order : List Nat) (machine : Machine) (files : Reader) (settings : Settings)
    (jobs : List Job) : Logged Report :=
  let work := Job.run files settings.options
  let total := jobs.length % countLimit
  if settings.keepsGoing then
    (settings.pool machine).andThen fun _ =>
      (Progress.inOrder work jobs.toArray order).report total
  else (Progress.untilFailure work (.start jobs.length) 0 jobs).report total

def run (machine : Machine) (files : Reader) (settings : Settings) (jobs : List Job) :
    Logged Report :=
  runIn (List.range jobs.length) machine files settings jobs

end IndentMarkup.Batch
