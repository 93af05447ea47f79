import IndentMarkup.Proofs.Interleaving

/-! The report of a batch. It is the same whatever the workers' order, it tells of each
job what its template comes to alone, and a batch that stops reports a beginning of what
it would report had it kept going. -/
namespace IndentMarkup.Batch

def Failure.telling : Fault → Failure
  | .tooDeep line => ⟨"invalid indentation on line " ++ toString line, some line⟩
  | .oddIndentation line spaces =>
    ⟨"invalid indentation on line " ++ toString line ++ ": " ++ toString spaces ++
      " leading spaces is not a multiple of two", some line⟩
  | .unreadable path cause => ⟨"cannot read template " ++ path ++ ": " ++ cause.message, none⟩

theorem Failure.ofFault_eq_telling (fault : Fault) : ofFault fault = telling fault := by
  cases fault <;> rfl

namespace Result

def Settled (result : Result) : Prop := result.document?.isSome = !result.failed

/-- A result that shows a document has it and no failure; one that shows a fault has no
document, and the text and line of the fault. -/
def Shows (result : Result) : Except Fault Document → Prop
  | .ok document => result.document? = some document ∧ result.failure? = none
  | .error fault => result.document? = none ∧ result.failure? = some (.telling fault)

end Result

/-- What a job comes to when its template is the only one. -/
def Job.alone (files : Reader) (options : Options) (job : Job) : Result :=
  match (job.template.compileLogged files options).value with
  | .ok document => ⟨job.id, some document, none⟩
  | .error fault => ⟨job.id, none, some (.telling fault)⟩

namespace Job
variable (files : Reader) (options : Options) (job : Job)

theorem value_run_eq_alone : (job.run files options).value = job.alone files options := by
  rw [value_run, result, alone, Template.value_compileLogged]
  cases job.template.compile files with
  | ok document => rfl
  | error fault => rw [Result.ofOutcome, Failure.ofFault_eq_telling]

theorem id_alone : (job.alone files options).id = job.id := by
  rw [alone]
  split <;> rfl

theorem shows_alone :
    (job.alone files options).Shows (job.template.compileLogged files options).value := by
  rw [alone]
  split
  · next compiled =>
    rw [compiled]
    exact ⟨rfl, rfl⟩
  · next failed =>
    rw [failed]
    exact ⟨rfl, rfl⟩

theorem settled_alone : (job.alone files options).Settled := by
  rw [alone]
  split <;> rfl

theorem failed_alone_eq_false_iff :
    (job.alone files options).failed = false ↔
      ∃ document, (job.template.compileLogged files options).value = .ok document := by
  rw [alone]
  split
  · next compiled => simp [Result.failed, compiled]
  · next failed => simp [Result.failed, failed]

end Job

def throughFailure (results : List Result) : List Result :=
  results.take (results.findIdx Result.failed + 1)

theorem throughFailure_cons (result : Result) (results : List Result) :
    throughFailure (result :: results) =
      result :: if result.failed then [] else throughFailure results := by
  cases failed : result.failed <;> simp [throughFailure, List.findIdx_cons, failed]

theorem throughFailure_eq_self {results : List Result} (none : results.any Result.failed = false) :
    throughFailure results = results := by
  rw [throughFailure, List.findIdx_eq_length_of_false (by simpa using none)]
  exact List.take_of_length_le (Nat.le_succ _)

theorem length_throughFailure_le (results : List Result) :
    (throughFailure results).length ≤ results.length := by
  rw [throughFailure, List.length_take]
  exact Nat.min_le_right _ _

theorem any_failed_throughFailure (results : List Result) :
    (throughFailure results).any Result.failed = results.any Result.failed := by
  induction results with
  | nil => rfl
  | cons result results ih =>
    rw [throughFailure_cons, List.any_cons, List.any_cons]
    cases failed : result.failed with
    | true => rfl
    | false => simpa using ih

def reported (keepGoing : Bool) (full : List Result) : List Result :=
  if keepGoing then full else throughFailure full

section
variable (keepGoing : Bool) {full : List Result}

theorem length_reported_le : (reported keepGoing full).length ≤ full.length := by
  cases keepGoing with
  | true => exact Nat.le_refl _
  | false => exact length_throughFailure_le full

theorem getElem?_reported {position : Nat} {result : Result}
    (found : (reported keepGoing full)[position]? = some result) :
    full[position]? = some result := by
  cases keepGoing with
  | true => exact found
  | false =>
    rw [reported, if_neg Bool.false_ne_true, throughFailure, List.getElem?_take] at found
    split at found
    · exact found
    · cases found

theorem mem_of_mem_reported {result : Result} (member : result ∈ reported keepGoing full) :
    result ∈ full := by
  obtain ⟨position, found⟩ := List.mem_iff_getElem?.1 member
  exact List.mem_iff_getElem?.2 ⟨position, getElem?_reported keepGoing found⟩

theorem any_failed_reported :
    (reported keepGoing full).any Result.failed = full.any Result.failed := by
  cases keepGoing with
  | true => rfl
  | false => exact any_failed_throughFailure full

theorem reported_eq_self (none : full.any Result.failed = false) :
    reported keepGoing full = full := by
  cases keepGoing with
  | true => rfl
  | false => exact throughFailure_eq_self none

end

theorem Tally.ofResults_eq {results : List Result} (few : results.length < 2 ^ 32)
    (settled : ∀ result ∈ results, result.Settled) :
    ofResults results =
      ⟨results.countP fun result => result.document?.isSome,
        results.countP fun result => result.failure?.isSome⟩ := by
  have short (p : Result → Bool) : results.countP p % countLimit = results.countP p :=
    Nat.mod_eq_of_lt (Nat.lt_of_le_of_lt List.countP_le_length few)
  have succeeded : results.countP (fun result => !result.failed) =
      results.countP fun result => result.document?.isSome :=
    List.countP_congr fun result member => by rw [settled result member]
  rw [ofResults, short, short, succeeded]
  rfl

theorem countP_failure?_eq_zero_iff {results : List Result} :
    results.countP (fun result => result.failure?.isSome) = 0 ↔
      results.any Result.failed = false := by
  simp [List.countP_eq_zero, Result.failed]

theorem countP_document?_eq_length {results : List Result}
    (settled : ∀ result ∈ results, result.Settled) (none : results.any Result.failed = false) :
    results.countP (fun result => result.document?.isSome) = results.length := by
  refine List.countP_eq_length.2 fun result member => ?_
  rw [settled result member]
  simpa using List.any_eq_false.1 none result member

namespace Settings
variable {settings : Settings}

theorem keepsGoing_eq_true
    (going : settings.keepGoing = some true ∨ settings.keepGoing = none) :
    settings.keepsGoing = true := by
  rcases going with going | going <;> simp [keepsGoing, going]

theorem keepsGoing_eq_false_iff :
    settings.keepsGoing = false ↔ settings.keepGoing = some false := by
  rcases mode : settings.keepGoing with _ | going <;> simp [keepsGoing, mode]

end Settings

namespace Report

def ofFull (keepGoing : Bool) (full : List Result) : Report :=
  ⟨reported keepGoing full, full.length % countLimit, Tally.ofResults (reported keepGoing full)⟩

section
variable (keepGoing : Bool) {full : List Result}

theorem tally_ofFull (few : full.length < 2 ^ 32) (settled : ∀ result ∈ full, result.Settled) :
    (ofFull keepGoing full).tally =
      ⟨(ofFull keepGoing full).results.countP fun result => result.document?.isSome,
        (ofFull keepGoing full).results.countP fun result => result.failure?.isSome⟩ :=
  Tally.ofResults_eq (Nat.lt_of_le_of_lt (length_reported_le keepGoing) few)
    fun result member => settled result (mem_of_mem_reported keepGoing member)

theorem total_ofFull (few : full.length < 2 ^ 32) : (ofFull keepGoing full).total = full.length :=
  Nat.mod_eq_of_lt few

theorem allSucceeded_ofFull (few : full.length < 2 ^ 32)
    (settled : ∀ result ∈ full, result.Settled) :
    (ofFull keepGoing full).allSucceeded = true ↔ full.any Result.failed = false := by
  rw [allSucceeded, tally_ofFull keepGoing few settled, total_ofFull keepGoing few,
    Bool.and_eq_true, decide_eq_true_eq, decide_eq_true_eq, countP_failure?_eq_zero_iff]
  constructor
  · rintro ⟨none, -⟩
    rwa [← any_failed_reported keepGoing]
  · intro none
    have whole : (ofFull keepGoing full).results = full := reported_eq_self keepGoing none
    rw [whole]
    exact ⟨none, countP_document?_eq_length settled none⟩

theorem skipped_ofFull (few : full.length < 2 ^ 32) :
    (ofFull keepGoing full).skipped =
      if keepGoing then 0 else (full.drop (full.findIdx Result.failed + 1)).length := by
  rw [skipped, total_ofFull keepGoing few]
  cases keepGoing with
  | true => exact Nat.sub_self _
  | false =>
    change full.length - (throughFailure full).length = _
    rw [throughFailure, List.length_take, if_neg Bool.false_ne_true, List.length_drop]
    omega

end

/-- What a report says of the jobs of a batch. A batch that is not told whether to keep
going keeps going. -/
structure Tells (files : Reader) (settings : Settings) (jobs : List Job) (report : Report) :
    Prop where
  full : settings.keepGoing = some true ∨ settings.keepGoing = none →
    report.results = jobs.map (Job.alone files settings.options)
  beginning : settings.keepGoing = some false →
    report.results = throughFailure (jobs.map (Job.alone files settings.options))
  shown : ∀ (position : Nat) (job : Job) (result : Result), jobs[position]? = some job →
    report.results[position]? = some result →
    result.id = job.id ∧ result.Shows (job.template.compileLogged files settings.options).value
  succeeded : report.tally.succeeded =
    report.results.countP fun result => result.document?.isSome
  failed : report.tally.failed = report.results.countP fun result => result.failure?.isSome
  total : report.total = jobs.length
  fits : report.results.length ≤ report.total
  skipped : report.skipped =
    let failing (job : Job) : Bool := (job.alone files settings.options).failed
    if settings.keepGoing = some false then (jobs.drop (jobs.findIdx failing + 1)).length else 0
  allSucceeded : report.allSucceeded = true ↔ ∀ job ∈ jobs, ∃ document,
    (job.template.compileLogged files settings.options).value = .ok document

theorem tells_ofFull (files : Reader) (settings : Settings) {jobs : List Job}
    (few : jobs.length < 2 ^ 32) :
    (ofFull settings.keepsGoing (jobs.map (Job.alone files settings.options))).Tells
      files settings jobs := by
  have few : (jobs.map (Job.alone files settings.options)).length < 2 ^ 32 := by
    rwa [List.length_map]
  have settled : ∀ result ∈ jobs.map (Job.alone files settings.options), result.Settled :=
    List.forall_mem_map.2 fun job _ => job.settled_alone files settings.options
  have tally := tally_ofFull settings.keepsGoing few settled
  have total := total_ofFull settings.keepsGoing few
  constructor
  case full =>
    intro going
    rw [Settings.keepsGoing_eq_true going]
    rfl
  case beginning =>
    intro stopping
    rw [Settings.keepsGoing_eq_false_iff.2 stopping]
    rfl
  case shown =>
    intro position job result given found
    have own := getElem?_reported settings.keepsGoing found
    rw [List.getElem?_map, given] at own
    cases own
    exact ⟨job.id_alone files settings.options, job.shows_alone files settings.options⟩
  case succeeded => exact congrArg Tally.succeeded tally
  case failed => exact congrArg Tally.failed tally
  case total => rw [total, List.length_map]
  case fits =>
    rw [total]
    exact length_reported_le settings.keepsGoing
  case skipped =>
    rw [skipped_ofFull settings.keepsGoing few, ← List.map_drop, List.length_map, List.findIdx_map]
    simp only [← Settings.keepsGoing_eq_false_iff]
    cases settings.keepsGoing <;> rfl
  case allSucceeded =>
    rw [allSucceeded_ofFull settings.keepsGoing few settled]
    simp [Job.failed_alone_eq_false_iff]

end Report

namespace Progress

structure Filled (done : List Result) (free : Nat) (progress : Progress) : Prop where
  slots : progress.slots.toList = done.map some ++ List.replicate free none
  tally : progress.tally = Tally.ofResults done

section
variable {progress : Progress} {done : List Result} {free : Nat}

theorem filled_start (jobs : Nat) : (start jobs).Filled [] jobs where
  slots := by simp [start]
  tally := rfl

theorem Filled.settle (filled : progress.Filled done (free + 1)) (result : Logged Result) :
    (progress.settle done.length result).Filled (done ++ [result.value]) free where
  slots := by
    simp [Progress.settle, filled.slots, List.replicate_succ]
  tally := by
    rw [Progress.settle, filled.tally, ← Tally.ofResults_cons]
    exact Tally.ofResults_perm (List.perm_append_singleton _ _).symm

theorem Filled.untilFailure {jobs : List Job} (filled : progress.Filled done jobs.length)
    (work : Job → Logged Result) :
    ∃ free, (untilFailure work progress done.length jobs).Filled
      (done ++ throughFailure (jobs.map fun job => (work job).value)) free := by
  induction jobs generalizing progress done with
  | nil => exact ⟨0, by simpa [Progress.untilFailure, throughFailure] using filled⟩
  | cons job jobs ih =>
    have settled := filled.settle (work job)
    rw [Progress.untilFailure, List.map_cons, throughFailure_cons]
    cases failed : (work job).value.failed with
    | true => exact ⟨jobs.length, settled⟩
    | false =>
      obtain ⟨free, rest⟩ := ih settled
      refine ⟨free, ?_⟩
      simpa [failed] using rest

theorem Filled.report_eq (filled : progress.Filled done free) (total : Nat) :
    (progress.report total).value = ⟨done, total, Tally.ofResults done⟩ := by
  have held : progress.results = done := by
    simp [results, filled.slots, List.filterMap_append, List.filterMap_replicate_of_none]
  rw [report, held, filled.tally]

end

end Progress

/-- A report that a batch can end with. Workers that keep going are at it together, and
their results are collected by the places of their jobs; a batch that stops at a failure
takes the jobs in turn. -/
inductive Possible (machine : Machine) (files : Reader) (settings : Settings) (jobs : List Job) :
    Report → Prop
  | together {crew : Crew} {results : List Result} (going : settings.keepsGoing = true)
      (steps : Crew.Steps (Job.run files settings.options) (settings.pool machine).value
        (.start jobs) crew)
      (finished : crew.Finished) (collects : crew.Collects results) :
      Possible machine files settings jobs ⟨results, jobs.length % countLimit, crew.tally⟩
  | inTurn (stopping : settings.keepsGoing = false) :
      Possible machine files settings jobs
        ((Progress.untilFailure (Job.run files settings.options) (.start jobs.length) 0 jobs).report
          (jobs.length % countLimit)).value

section
variable {machine : Machine} {files : Reader} {settings : Settings} {jobs : List Job}
  {report : Report}

theorem map_value_run (files : Reader) (options : Options) (jobs : List Job) :
    (jobs.map fun job => (job.run files options).value) = jobs.map (Job.alone files options) :=
  List.map_congr_left fun job _ => job.value_run_eq_alone files options

theorem Possible.report_eq (possible : Possible machine files settings jobs report) :
    report = .ofFull settings.keepsGoing (jobs.map (Job.alone files settings.options)) := by
  cases possible with
  | together going steps finished collects =>
    rw [(finished.collects_iff steps).1 collects, steps.tally_eq, finished.counted_eq_map steps,
      map_value_run, Report.ofFull, List.length_map, going]
    rfl
  | inTurn stopping =>
    obtain ⟨free, filled⟩ :=
      (Progress.filled_start jobs.length).untilFailure (Job.run files settings.options)
    refine (filled.report_eq _).trans ?_
    rw [map_value_run, Report.ofFull, List.length_map, stopping]
    rfl

theorem possible_runIn (machine : Machine) {order : List Nat}
    (all : order.Perm (List.range jobs.length)) :
    Possible machine files settings jobs (runIn order machine files settings jobs).value := by
  rw [runIn]
  cases mode : settings.keepsGoing with
  | true =>
    obtain ⟨arrivals, steps⟩ := Progress.steps_inOrder (Job.run files settings.options)
      (settings.pool machine).value all
    have finished := Progress.finished_inOrder (Job.run files settings.options) all arrivals
    have collects := (finished.collects_iff steps).2 rfl
    rw [Progress.counted_inOrder _ all] at collects
    exact .together mode steps finished collects
  | false => exact .inTurn mode

/-- Workers always get to the end of a batch, and there is one report it can end with,
whatever the pool they are in and the order of their steps. Whether all jobs succeeded does
not depend on whether the batch keeps going. -/
theorem report_of_every_order (machine : Machine) (files : Reader) (settings : Settings)
    (jobs : List Job) (few : jobs.length < 2 ^ 32) :
    (WellFounded fun next crew =>
      Crew.Step (Job.run files settings.options) (settings.pool machine).value crew next) ∧
    (∀ crew : Crew, ¬ crew.Finished → ∃ next,
      Crew.Step (Job.run files settings.options) (settings.pool machine).value crew next) ∧
    (∀ report, Possible machine files settings jobs report ↔
      report = (run machine files settings jobs).value) ∧
    (run machine files settings jobs).value.Tells files settings jobs ∧
    ∀ (elsewhere : Machine) (other : Settings),
      (run elsewhere files other jobs).value.allSucceeded =
        (run machine files settings jobs).value.allSucceeded := by
  have reached (machine : Machine) (settings : Settings) :
      Possible machine files settings jobs (run machine files settings jobs).value :=
    possible_runIn machine (.refl _)
  have tells (machine : Machine) (settings : Settings) :
      (run machine files settings jobs).value.Tells files settings jobs := by
    rw [(reached machine settings).report_eq]
    exact Report.tells_ofFull files settings few
  refine ⟨Crew.wellFounded_step _ _, fun crew => Crew.exists_step _ _, fun report => ⟨?_, ?_⟩,
    tells machine settings, ?_⟩
  · intro possible
    rw [possible.report_eq, (reached machine settings).report_eq]
  · rintro rfl
    exact reached machine settings
  · intro elsewhere other
    rw [Bool.eq_iff_iff, (tells elsewhere other).allSucceeded, (tells machine settings).allSucceeded]
    simp only [Template.value_compileLogged]

theorem report_of_every_order_three :
    let machine : Machine := ⟨fun _ => .error "no threads", ⟨2, by decide⟩⟩
    let files : Reader := fun _ => .error .notFound
    let texts := [("a", "%p a"), ("b", "%div\n    %p bad"), ("c", "%p c")]
    let jobs : List Job := texts.map fun (id, text) => ⟨id, .inline id text.toList⟩
    let settings : Settings := { workers := some 7 }
    let stopping : Settings := { keepGoing := some false }
    let report := (runIn [3, 1, 2, 0] machine files settings (.ofPath "d" :: jobs)).value
    let beginning := (run machine files stopping jobs).value
    report.results.map (fun result => (result.id, result.document?.map Document.code)) =
        [("d", none), ("a", some "<p>a</p>".toList), ("b", none),
          ("c", some "<p>c</p>".toList)] ∧
      report.results.map Result.failure? =
        [some ⟨"cannot read template d: No such file or directory (os error 2)", none⟩, none,
          some ⟨"invalid indentation on line 2", some 2⟩, none] ∧
      report.tally.succeeded = 2 ∧ report.tally.failed = 2 ∧ report.skipped = 0 ∧
      beginning.results.map Result.failure? =
        [none, some ⟨"invalid indentation on line 2", some 2⟩] ∧
      beginning.skipped = 1 ∧ beginning.allSucceeded = false := by
  intro machine files texts jobs settings stopping report beginning
  obtain ⟨-, -, only, tells, -⟩ :=
    report_of_every_order machine files settings (.ofPath "d" :: jobs) (by decide)
  obtain ⟨-, -, -, stops, -⟩ := report_of_every_order machine files stopping jobs (by decide)
  have run : report = (run machine files settings (.ofPath "d" :: jobs)).value :=
    (only report).1 (possible_runIn machine (by decide))
  have results := tells.full (.inr rfl)
  refine ⟨?_, ?_, ?_, ?_, ?_, ?_, ?_, ?_⟩
  · rw [run, results]
    decide +kernel
  · rw [run, results]
    decide +kernel
  · rw [run, tells.succeeded, results]
    decide +kernel
  · rw [run, tells.failed, results]
    decide +kernel
  · rw [run, tells.skipped]
    rfl
  · rw [stops.beginning rfl]
    decide +kernel
  · rw [stops.skipped]
    decide +kernel
  · rw [← Bool.not_eq_true, stops.allSucceeded]
    intro all
    have fine := (Job.failed_alone_eq_false_iff files {} _).2 (all jobs[1] (List.getElem_mem _))
    exact absurd fine (by decide +kernel)

end

end IndentMarkup.Batch
