import IndentMarkup.Command.Run
import IndentMarkup.Proofs.BatchReport

/-! What a run prints, and how it exits. A run takes some time, and the workers of its batch
take their steps in some order; neither shows in the results, so both streams, records
aside, and the exit code follow from what the templates hold. -/
namespace IndentMarkup.Command
open Batch

namespace Event

def out? : Event → Option String
  | out text => some text
  | _ => none

def err? : Event → Option String
  | err text => some text
  | _ => none

def note? (verbosity : Nat) : Event → Option String
  | note record =>
    if record.severity.verbosity ≤ verbosity then some record.written else none
  | _ => none

end Event

def texts (pick : Event → Option String) (events : List Event) : String :=
  String.join (events.filterMap pick)

section
variable {pick pick' : Event → Option String}

theorem texts_append (first second : List Event) :
    texts pick (first ++ second) = texts pick first ++ texts pick second := by
  simp only [texts, List.filterMap_append, String.join_append]

theorem texts_flatMap {α : Type} (f : α → List Event) (items : List α) :
    texts pick (items.flatMap f) = String.join (items.map fun item => texts pick (f item)) := by
  induction items with
  | nil => rfl
  | cons item items ih =>
    rw [List.flatMap_cons, texts_append, ih, List.map_cons, String.join_cons]

theorem texts_congr {events : List Event} (same : ∀ event ∈ events, pick event = pick' event) :
    texts pick events = texts pick' events :=
  congrArg String.join (List.filterMap_congr same)

theorem texts_eq_empty {events : List Event} (none : ∀ event ∈ events, pick event = none) :
    texts pick events = "" :=
  congrArg String.join (List.filterMap_eq_nil_iff.2 none)

theorem texts_notes (silent : ∀ record, pick (.note record) = none) (records : List Record) :
    texts pick (records.map .note) = "" :=
  texts_eq_empty (List.forall_mem_map.2 fun record _ => silent record)

end

namespace Outcome

def complaints (outcome : Outcome) : String := texts Event.err? outcome.events

def logged (outcome : Outcome) (verbosity : Nat) : String :=
  texts (Event.note? verbosity) outcome.events

section
variable (exitCode : Nat) (records : List Record)

theorem stdout_notes_append (events : List Event) :
    (mk exitCode (records.map .note ++ events)).stdout = texts Event.out? events := by
  change texts Event.out? _ = _
  rw [texts_append, texts_notes (fun _ => rfl), String.empty_append]

theorem complaints_notes_append (events : List Event) :
    (mk exitCode (records.map .note ++ events)).complaints = texts Event.err? events := by
  rw [complaints, texts_append, texts_notes (fun _ => rfl), String.empty_append]

theorem stderr_notes_append {events : List Event} (plain : ∀ record, Event.note record ∉ events)
    (verbosity : Nat) :
    (mk exitCode (records.map .note ++ events)).stderr verbosity =
      (mk exitCode (records.map .note ++ events)).logged verbosity ++
        (mk exitCode (records.map .note ++ events)).complaints := by
  let shown (event : Event) : Option String := event.err?.or (event.note? verbosity)
  have stderr : (mk exitCode (records.map .note ++ events)).stderr verbosity =
      texts shown (records.map .note ++ events) := by
    refine texts_congr fun event _ => ?_
    cases event <;> rfl
  have notes : texts shown (records.map .note) =
      texts (Event.note? verbosity) (records.map .note) :=
    texts_congr (List.forall_mem_map.2 fun record _ => rfl)
  have others (event : Event) (member : event ∈ events) : event.note? verbosity = none := by
    cases event with
    | out text => rfl
    | err text => rfl
    | note record => exact absurd member (plain record)
  have lines : texts shown events = texts Event.err? events :=
    texts_congr fun event member => by simp only [shown, others event member, Option.or_none]
  rw [stderr, complaints_notes_append, logged, texts_append, texts_append, notes, lines,
    texts_eq_empty others, String.append_empty]

end

end Outcome

/-- A run of the command, with what it leaves of the files and its outcome. The machine,
the time it takes and the log of its batch can be any. -/
inductive Ran {σ : Type} (system : FileSystem σ) (state : σ) (request : Request) :
    σ → Outcome → Prop
  | of_batch (machine : Machine) (duration : Duration) (batch : Logged Report)
      (possible : Possible machine (system.read state) request.settings request.jobList
        batch.value) :
      Ran system state request ((plan request duration batch).save system state).1
        (conclude request duration (plan request duration batch)
          ((plan request duration batch).save system state).2)

theorem ran_run {σ : Type} (system : FileSystem σ) (machine : Machine) (duration : Duration)
    (request : Request) (state : σ) :
    Ran system state request (run system machine duration request state).1
      (run system machine duration request state).2 :=
  .of_batch machine duration (request.compile machine (system.read state))
    (possible_runIn machine (.refl _))

def resultAt (files : Reader) (path : String) : Result :=
  .ofOutcome path ((Template.file path).compile files)

theorem map_alone_jobList (files : Reader) (request : Request) :
    request.jobList.map (Job.alone files request.settings.options) =
      request.paths.map (resultAt files) := by
  rw [← map_value_run, Request.jobList, List.map_map]
  exact List.map_congr_left fun path _ => (Job.ofPath path).value_run files _

theorem settled_resultAt (files : Reader) (path : String) : (resultAt files path).Settled := by
  rw [resultAt]
  cases (Template.file path).compile files <;> rfl

theorem report_eq {machine : Machine} {files : Reader} {request : Request} {report : Report}
    (possible : Possible machine files request.settings request.jobList report) :
    report = .ofFull request.keepGoing (request.paths.map (resultAt files)) := by
  rw [possible.report_eq, map_alone_jobList]
  rfl

def fails (files : Reader) (path : String) : Bool := (resultAt files path).failed

theorem fails_eq_false_iff {files : Reader} {path : String} :
    fails files path = false ↔ ∃ document, (Template.file path).compile files = .ok document := by
  cases outcome : (Template.file path).compile files <;>
    simp [fails, Result.failed, resultAt, Result.ofOutcome, outcome]

/-- The paths that a run gets to. -/
def processed (files : Reader) (request : Request) : List String :=
  if request.keepGoing then request.paths
  else request.paths.take (request.paths.findIdx (fails files) + 1)

theorem reported_eq_map_processed (files : Reader) (request : Request) :
    reported request.keepGoing (request.paths.map (resultAt files)) =
      (processed files request).map (resultAt files) := by
  rw [reported, processed]
  split
  · rfl
  · rw [throughFailure, List.findIdx_map, List.map_take]
    rfl

def shown (files : Reader) (path : String) : String :=
  match (Template.file path).compile files with
  | .ok document => String.ofList document.code ++ "\n"
  | .error _ => ""

def complaint (files : Reader) (path : String) : String :=
  match (Template.file path).compile files with
  | .ok _ => ""
  | .error fault =>
    match fault.line? with
    | some line => path ++ ":" ++ toString line ++ ": " ++ fault.message ++ "\n"
    | none => "error: " ++ fault.message ++ "\n"

def skippedLine (skipped : Nat) : String :=
  if skipped = 0 then ""
  else "skipped " ++ toString skipped ++ " template(s) after the first failure; " ++
    "pass --keep-going to compile them\n"

theorem out_resultEvents (files : Reader) (path : String) :
    texts Event.out? (resultEvents true (resultAt files path)) = shown files path := by
  cases outcome : (Template.file path).compile files with
  | ok document =>
    simp [resultEvents, resultAt, Result.ofOutcome, outcome, shown, texts, Event.out?, printed]
  | error fault =>
    cases line : fault.line? <;>
      simp [resultEvents, resultAt, Result.ofOutcome, Failure.ofFault, outcome, shown, texts,
        List.filterMap_cons, Event.out?, line]

theorem err_resultEvents (files : Reader) (path : String) :
    texts Event.err? (resultEvents true (resultAt files path)) = complaint files path := by
  cases outcome : (Template.file path).compile files with
  | ok document =>
    simp [resultEvents, resultAt, Result.ofOutcome, outcome, complaint, texts,
      List.filterMap_cons, Event.err?]
  | error fault =>
    cases line : fault.line? <;>
      simp [resultEvents, resultAt, Result.ofOutcome, Failure.ofFault, outcome, complaint, texts,
        Event.err?, line]

theorem out_skippedEvents (report : Report) : texts Event.out? (skippedEvents report) = "" := by
  rw [skippedEvents]
  split <;> rfl

theorem err_skippedEvents (report : Report) :
    texts Event.err? (skippedEvents report) = skippedLine report.skipped := by
  rw [skippedEvents, skippedLine]
  split <;> simp [texts, Event.err?]

theorem note_notMem_resultEvents (toStdout : Bool) (result : Result) (record : Record) :
    Event.note record ∉ resultEvents toStdout result := by
  rw [resultEvents]
  repeat' split
  all_goals simp

theorem note_notMem_reportEvents (request : Request) (duration : Duration) (report : Report)
    (record : Record) : Event.note record ∉ reportEvents request duration report := by
  rw [reportEvents]
  split
  · simp
  · rw [List.mem_append, List.mem_flatMap, skippedEvents]
    rintro (⟨result, -, member⟩ | member)
    · exact note_notMem_resultEvents _ result record member
    · split at member <;> simp at member

/-- What a run that prints its results says of the paths. -/
structure Prints (files : Reader) (request : Request) (outcome : Outcome) : Prop where
  stdout : outcome.stdout = String.join ((processed files request).map (shown files))
  complaints : outcome.complaints =
    String.join ((processed files request).map (complaint files)) ++
      skippedLine (request.paths.length - (processed files request).length)
  stderr : ∀ verbosity, outcome.stderr verbosity = outcome.logged verbosity ++ outcome.complaints
  exitCode_le : outcome.exitCode ≤ 1
  exitCode_eq_zero : outcome.exitCode = 0 ↔
    ∀ path ∈ request.paths, ∃ document, (Template.file path).compile files = .ok document

theorem Plan.save_of_nothing {σ : Type} {plan : Plan} (nothing : plan.targets = .ok none)
    (system : FileSystem σ) (state : σ) : plan.save system state = (state, {}) := by
  simp only [save, nothing]

theorem conclude_of_nothing {plan : Plan} (nothing : plan.targets = .ok none) (request : Request)
    (duration : Duration) :
    conclude request duration plan {} =
      ⟨if plan.report.allSucceeded then 0 else 1,
        plan.notes.map .note ++ reportEvents request duration plan.report⟩ := by
  simp [conclude, nothing]

section
variable {σ : Type} {system : FileSystem σ} {state after : σ} {request : Request}
  {outcome : Outcome}

theorem Ran.exists_report (ran : Ran system state request after outcome)
    (console : request.outDir = none) :
    after = state ∧ ∃ (duration : Duration) (records : List Record),
      let report := Report.ofFull request.keepGoing
        (request.paths.map (resultAt (system.read state)))
      outcome = ⟨if report.allSucceeded then 0 else 1,
        records.map .note ++ reportEvents request duration report⟩ := by
  cases ran with | of_batch machine duration batch possible =>
  have nothing : (plan request duration batch).targets = .ok none := by simp only [plan, console]
  rw [Plan.save_of_nothing nothing, conclude_of_nothing nothing, ← report_eq possible]
  exact ⟨rfl, duration, _, rfl⟩

theorem Ran.prints (ran : Ran system state request after outcome)
    (few : request.paths.length < 2 ^ 32) (console : request.outDir = none)
    (plain : request.json = false) :
    after = state ∧ Prints (system.read state) request outcome := by
  obtain ⟨kept, duration, records, rfl⟩ := ran.exists_report console
  generalize system.read state = files
  have few : (request.paths.map (resultAt files)).length < 2 ^ 32 := by
    rwa [List.length_map]
  have settled : ∀ result ∈ request.paths.map (resultAt files), result.Settled :=
    List.forall_mem_map.2 fun path _ => settled_resultAt files path
  have results := reported_eq_map_processed files request
  have total := Report.total_ofFull request.keepGoing few
  have succeeded := Report.allSucceeded_ofFull request.keepGoing few settled
  change (Report.ofFull request.keepGoing _).results = _ at results
  generalize Report.ofFull request.keepGoing (request.paths.map (resultAt files)) = report at *
  have printed : reportEvents request duration report =
      ((processed files request).map (resultAt files)).flatMap (resultEvents true) ++
        skippedEvents report := by
    simp [reportEvents, plain, console, results]
  refine ⟨kept, ?_⟩
  constructor
  case stdout =>
    simp only [Outcome.stdout_notes_append, printed, texts_append, texts_flatMap, List.map_map,
      Function.comp_def, out_resultEvents, out_skippedEvents, String.append_empty]
  case complaints =>
    simp only [Outcome.complaints_notes_append, printed, texts_append, texts_flatMap,
      List.map_map, Function.comp_def, err_resultEvents, err_skippedEvents, Report.skipped, total,
      results, List.length_map]
  case stderr =>
    exact Outcome.stderr_notes_append _ records (note_notMem_reportEvents request duration report)
  case exitCode_le =>
    change ite _ _ _ ≤ 1
    split <;> decide
  case exitCode_eq_zero =>
    have fine : report.allSucceeded = true ↔ ∀ path ∈ request.paths, fails files path = false := by
      simpa [fails] using succeeded
    simp only [← fails_eq_false_iff, ← fine]
    simp

end

section
variable {files : Reader} {request other : Request} {outcome outcome' : Outcome}

theorem Prints.exitCode_eq (prints : Prints files request outcome)
    (prints' : Prints files other outcome') (same : other.paths = request.paths) :
    outcome'.exitCode = outcome.exitCode := by
  have zero : outcome'.exitCode = 0 ↔ outcome.exitCode = 0 := by
    rw [prints.exitCode_eq_zero, prints'.exitCode_eq_zero, same]
  have le := prints.exitCode_le
  have le' := prints'.exitCode_le
  omega

theorem Prints.stdout_eq (prints : Prints files request outcome)
    (prints' : Prints files other outcome') (same : other.paths = request.paths)
    (mode : other.keepGoing = request.keepGoing) : outcome'.stdout = outcome.stdout := by
  rw [prints.stdout, prints'.stdout, processed, processed, same, mode]

theorem processed_prefix_of_stops (files : Reader) (same : other.paths = request.paths)
    (stops : request.keepGoing = false) : processed files request <+: processed files other := by
  rw [processed, processed, same, stops, if_neg Bool.false_ne_true]
  split
  · exact List.take_prefix _ _
  · exact List.prefix_rfl

theorem Prints.stdout_prefix (prints : Prints files request outcome)
    (prints' : Prints files other outcome') (same : other.paths = request.paths)
    (stops : request.keepGoing = false) : outcome.stdout.toList <+: outcome'.stdout.toList := by
  obtain ⟨rest, whole⟩ := processed_prefix_of_stops files same stops
  rw [prints.stdout, prints'.stdout, ← whole, List.map_append, String.join_append,
    String.toList_append]
  exact List.prefix_append _ _

end

/-- A run without an output directory and a report prints the codes of the paths it gets to,
complains of those that fail and exits with zero only if no path fails. Whether it keeps
going decides how far it gets; jobs, cache and verbosity decide nothing of this. -/
theorem streams_of_every_run {σ : Type} (system : FileSystem σ) (state : σ) (request : Request)
    (few : request.paths.length < 2 ^ 32) (console : request.outDir = none)
    (plain : request.json = false) :
    (∀ machine duration, Ran system state request (run system machine duration request state).1
      (run system machine duration request state).2) ∧
    ∀ after outcome, Ran system state request after outcome →
      after = state ∧ Prints (system.read state) request outcome ∧
      ∀ keepGoing jobs cache verbosity after' outcome',
        Ran system state { request with keepGoing, jobs, cache, verbosity } after' outcome' →
          outcome'.exitCode = outcome.exitCode ∧
          (keepGoing = request.keepGoing → outcome'.stdout = outcome.stdout) ∧
          (request.keepGoing = false → outcome.stdout.toList <+: outcome'.stdout.toList) := by
  refine ⟨fun machine duration => ran_run system machine duration request state,
    fun after outcome ran => ?_⟩
  obtain ⟨kept, prints⟩ := ran.prints few console plain
  refine ⟨kept, prints, fun keepGoing jobs cache verbosity after' outcome' ran' => ?_⟩
  obtain ⟨-, prints'⟩ := ran'.prints few console plain
  exact ⟨prints.exitCode_eq prints' rfl, prints.stdout_eq prints' rfl,
    prints.stdout_prefix prints' rfl⟩

theorem streams_of_every_run_mixed :
    let disk : Disk :=
      { nodes := [(["a"], .file "%p a".toUTF8), (["b"], .file "%p b\n   c".toUTF8)] }
    let request : Request := { paths := ["a", "b", "missing", "a"] }
    let start := run Disk.fileSystem .willing ⟨"1.0", "1.0"⟩
    let outcome := (start request disk).2
    let going := (start { request with keepGoing := true, jobs := some 3 } disk).2
    outcome.stdout = "<p>a</p>\n" ∧
      outcome.complaints =
        "b:2: invalid indentation on line 2: 3 leading spaces is not a multiple of two\n" ++
        "skipped 2 template(s) after the first failure; pass --keep-going to compile them\n" ∧
      outcome.exitCode = 1 ∧ going.exitCode = outcome.exitCode ∧
      outcome.stdout.toList <+: going.stdout.toList := by
  intro disk request start outcome going
  obtain ⟨runs, told⟩ := streams_of_every_run Disk.fileSystem disk request (by decide) rfl rfl
  obtain ⟨-, prints, others⟩ := told _ outcome (runs .willing ⟨"1.0", "1.0"⟩)
  obtain ⟨exit, -, begins⟩ := others true (some 3) false 0 _ going (ran_run _ _ _ _ _)
  refine ⟨?_, ?_, ?_, exit, begins rfl⟩
  · rw [prints.stdout]
    decide +kernel
  · rw [prints.complaints]
    decide +kernel
  · have failed : outcome.exitCode ≠ 0 := by
      rw [Ne, prints.exitCode_eq_zero]
      intro all
      have fine := fails_eq_false_iff.2 (all "b" (by decide))
      exact absurd fine (by decide +kernel)
    have le := prints.exitCode_le
    omega

end IndentMarkup.Command
