import IndentMarkup.Batch.Progress
import Mathlib.Algebra.Ring.Nat
import Mathlib.Data.List.Basic
import Mathlib.Logic.Relation

/-! Workers on one batch. A worker compiles a job and then counts its result in a tally
that all workers share and hands it in; between the two, and between one job and the next,
the others may do anything. Whatever the order of these steps, the batch comes to an end,
and it ends with each result counted once and handed in once. -/
namespace IndentMarkup.Batch

namespace Tally

/-- What is left of the counts of these results once those that are full have started over. -/
def ofResults (results : List Result) : Tally where
  succeeded := results.countP (fun result => !result.failed) % countLimit
  failed := results.countP Result.failed % countLimit

theorem ofResults_cons (result : Result) (results : List Result) :
    ofResults (result :: results) = (ofResults results).record result := by
  cases failed : result.failed <;> simp [ofResults, record, failed]

theorem ofResults_perm {results others : List Result} (same : results.Perm others) :
    ofResults results = ofResults others := by
  rw [ofResults, ofResults, same.countP_eq, same.countP_eq]

end Tally

inductive Stage
  | waiting (job : Job)
  | compiled (result : Result)
  | counted (result : Result)

namespace Stage

def result (work : Job → Logged Result) : Stage → Result
  | waiting job => (work job).value
  | compiled result => result
  | counted result => result

def counted? : Stage → Option Result
  | waiting _ => none
  | compiled _ => none
  | counted result => some result

def isBusy : Stage → Bool
  | waiting _ => false
  | compiled _ => true
  | counted _ => false

def remaining : Stage → Nat
  | waiting _ => 2
  | compiled _ => 1
  | counted _ => 0

end Stage

structure Crew where
  stages : List Stage
  tally : Tally := {}
  /-- The results handed in, the last one first, each with the place of its job. -/
  arrivals : List (Nat × Result) := []

namespace Crew

def start (jobs : List Job) : Crew := { stages := jobs.map .waiting }

def busy (stages : List Stage) : Nat := stages.countP Stage.isBusy

/-- One worker does one thing to one job. A job is compiled by a worker of the pool that
has none in hand. -/
inductive Step (work : Job → Logged Result) (pool : Pool) : Crew → Crew → Prop
  | compile (before after : List Stage) (job : Job) (tally : Tally)
      (arrivals : List (Nat × Result)) (free : busy (before ++ after) < pool.size) :
      Step work pool ⟨before ++ .waiting job :: after, tally, arrivals⟩
        ⟨before ++ .compiled (work job).value :: after, tally, arrivals⟩
  | count (before after : List Stage) (result : Result) (tally : Tally)
      (arrivals : List (Nat × Result)) :
      Step work pool ⟨before ++ .compiled result :: after, tally, arrivals⟩
        ⟨before ++ .counted result :: after, tally.record result,
          (before.length, result) :: arrivals⟩

abbrev Steps (work : Job → Logged Result) (pool : Pool) : Crew → Crew → Prop :=
  Relation.ReflTransGen (Step work pool)

def Finished (crew : Crew) : Prop := ∀ stage ∈ crew.stages, stage.remaining = 0

def counted (crew : Crew) : List Result := crew.stages.filterMap Stage.counted?

def remaining (crew : Crew) : Nat := (crew.stages.map Stage.remaining).sum

/-- What a parallel map promises of the results it collects: each has the place of its job,
whatever the order in which they were handed in. -/
def Collects (crew : Crew) (results : List Result) : Prop :=
  ∀ position : Nat, results[position]? = crew.arrivals.lookup position

section
variable {work : Job → Logged Result} {pool : Pool} {crew next : Crew} {jobs : List Job}

theorem Step.map_result (step : Step work pool crew next) :
    next.stages.map (Stage.result work) = crew.stages.map (Stage.result work) := by
  cases step <;> simp [Stage.result]

theorem counted_mk (before after : List Stage) (stage : Stage) (tally : Tally)
    (arrivals : List (Nat × Result)) :
    (Crew.mk (before ++ stage :: after) tally arrivals).counted =
      before.filterMap Stage.counted? ++
        (stage.counted?.toList ++ after.filterMap Stage.counted?) := by
  cases stage <;> simp [counted, Stage.counted?, List.filterMap_cons]

theorem Step.tally_eq (step : Step work pool crew next)
    (tallied : crew.tally = Tally.ofResults crew.counted) :
    next.tally = Tally.ofResults next.counted := by
  cases step with
  | compile before after job tally arrivals free =>
    rw [counted_mk] at tallied ⊢
    exact tallied
  | count before after result tally arrivals =>
    rw [counted_mk] at tallied ⊢
    calc tally.record result
        = (Tally.ofResults _).record result := congrArg (Tally.record · result) tallied
      _ = Tally.ofResults (result ::
            (before.filterMap Stage.counted? ++ after.filterMap Stage.counted?)) :=
          (Tally.ofResults_cons result _).symm
      _ = _ := Tally.ofResults_perm List.perm_middle.symm

def Placed (crew : Crew) : Prop :=
  ∀ position : Nat, crew.arrivals.lookup position = crew.stages[position]?.bind Stage.counted?

theorem getElem?_middle (before after : List Stage) (stage other : Stage) {position : Nat}
    (apart : position ≠ before.length) :
    (before ++ other :: after)[position]? = (before ++ stage :: after)[position]? := by
  have replaced : before ++ other :: after = (before ++ stage :: after).set before.length other := by
    simp
  rw [replaced, List.getElem?_set_ne (Ne.symm apart)]

theorem Step.placed (step : Step work pool crew next) (placed : crew.Placed) : next.Placed := by
  intro position
  have before_step := placed position
  cases step with
  | compile before after job tally arrivals free =>
    by_cases here : position = before.length
    · simpa [here, Stage.counted?] using before_step
    · rw [getElem?_middle before after (.waiting job) _ here]
      exact before_step
  | count before after result tally arrivals =>
    by_cases here : position = before.length
    · simp [here, Stage.counted?]
    · have other : (position == before.length) = false := by simp [here]
      rw [getElem?_middle before after (.compiled result) _ here, List.lookup_cons, other]
      exact before_step

theorem Step.remaining_eq (step : Step work pool crew next) :
    crew.remaining = next.remaining + 1 := by
  cases step <;> simp [remaining, Stage.remaining] <;> omega

theorem Steps.map_result (steps : Steps work pool crew next) :
    next.stages.map (Stage.result work) = crew.stages.map (Stage.result work) := by
  induction steps with
  | refl => rfl
  | tail _ step ih => exact step.map_result.trans ih

theorem Steps.tally_eq (steps : Steps work pool (start jobs) crew) :
    crew.tally = Tally.ofResults crew.counted := by
  induction steps with
  | refl =>
    have none : (start jobs).counted = [] := by simp [counted, start, Stage.counted?]
    rw [none]
    rfl
  | tail _ step ih => exact step.tally_eq ih

theorem Steps.placed (steps : Steps work pool (start jobs) crew) : crew.Placed := by
  induction steps with
  | refl =>
    intro position
    cases found : jobs[position]? <;> simp [start, found, Stage.counted?]
  | tail _ step ih => exact step.placed ih

theorem lt_size_of_idle (pool : Pool) {before after : List Stage} {job : Job}
    (idle : busy (before ++ .waiting job :: after) = 0) : busy (before ++ after) < pool.size := by
  have none : busy (before ++ after) = 0 := by simpa [busy, Stage.isBusy] using idle
  rw [none]
  exact pool.staffed

theorem exists_step (work : Job → Logged Result) (pool : Pool) (unfinished : ¬ crew.Finished) :
    ∃ next, Step work pool crew next := by
  obtain ⟨stages, tally, arrivals⟩ := crew
  by_cases idle : busy stages = 0
  · obtain ⟨stage, member, left⟩ : ∃ stage ∈ stages, stage.remaining ≠ 0 := by
      simpa [Finished] using unfinished
    obtain ⟨before, after, rfl⟩ := List.append_of_mem member
    cases stage with
    | waiting job =>
      exact ⟨_, .compile before after job tally arrivals (lt_size_of_idle pool idle)⟩
    | compiled result => simp [busy, Stage.isBusy] at idle
    | counted result => exact absurd rfl left
  · obtain ⟨stage, member, inHand⟩ := List.countP_pos_iff.1 (Nat.pos_of_ne_zero idle)
    obtain ⟨before, after, rfl⟩ := List.append_of_mem member
    cases stage with
    | waiting job => cases inHand
    | compiled result => exact ⟨_, .count before after result tally arrivals⟩
    | counted result => cases inHand

theorem wellFounded_step (work : Job → Logged Result) (pool : Pool) :
    WellFounded fun next crew => Step work pool crew next := by
  refine Subrelation.wf ?_ (measure remaining).wf
  intro next crew step
  exact Nat.lt_of_lt_of_eq (Nat.lt_succ_self _) step.remaining_eq.symm

theorem steps_set (work : Job → Logged Result) (pool : Pool) (idle : busy crew.stages = 0)
    {position : Nat} {job : Job} (given : crew.stages[position]? = some (.waiting job)) :
    Steps work pool crew
      ⟨crew.stages.set position (.counted (work job).value),
        crew.tally.record (work job).value, (position, (work job).value) :: crew.arrivals⟩ := by
  obtain ⟨inside, found⟩ := List.getElem?_eq_some_iff.1 given
  obtain ⟨stages, tally, arrivals⟩ := crew
  have parts : stages = stages.take position ++ .waiting job :: stages.drop (position + 1) := by
    rw [← found, List.getElem_cons_drop, List.take_append_drop]
  have place : (stages.take position).length = position :=
    List.length_take_of_le (Nat.le_of_lt inside)
  rw [List.set_eq_take_append_cons_drop, if_pos inside]
  generalize stages.take position = before, stages.drop (position + 1) = after at parts place
  subst parts place
  exact .head (.compile before after job tally arrivals (lt_size_of_idle pool idle))
    (.single (.count before after _ tally arrivals))

theorem Finished.stages_eq (finished : crew.Finished) :
    crew.stages = crew.counted.map .counted := by
  have each : ∀ stage ∈ crew.stages, stage.counted?.map Stage.counted = some stage := by
    intro stage member
    cases stage with
    | waiting job => cases finished _ member
    | compiled result => cases finished _ member
    | counted result => rfl
  rw [counted, List.map_filterMap, List.filterMap_congr each, List.filterMap_some]

theorem Finished.counted_eq_map (finished : crew.Finished)
    (steps : Steps work pool (start jobs) crew) :
    crew.counted = jobs.map fun job => (work job).value := by
  have results := steps.map_result
  rw [finished.stages_eq, start, List.map_map, List.map_map] at results
  simpa [Function.comp_def, Stage.result] using results

theorem Finished.collects_iff (finished : crew.Finished)
    (steps : Steps work pool (start jobs) crew) {results : List Result} :
    crew.Collects results ↔ results = crew.counted := by
  have own (position : Nat) : crew.arrivals.lookup position = crew.counted[position]? := by
    rw [steps.placed position, finished.stages_eq, List.getElem?_map]
    cases crew.counted[position]? <;> rfl
  constructor
  · intro collects
    exact List.ext_getElem? fun position => (collects position).trans (own position)
  · rintro rfl position
    exact (own position).symm

end

end Crew

namespace Progress
open Crew

def stage (job : Job) : Option Result → Stage
  | none => .waiting job
  | some result => .counted result

def crew (jobs : List Job) (progress : Progress) (arrivals : List (Nat × Result)) : Crew :=
  ⟨List.zipWith stage jobs progress.slots.toList, progress.tally, arrivals⟩

section
variable {work : Job → Logged Result} {jobs : List Job} {order : List Nat}

theorem filterMap_zipWith_stage (jobs : List Job) (slots : List (Option Result))
    (size : slots.length = jobs.length) :
    (List.zipWith stage jobs slots).filterMap Stage.counted? = slots.filterMap id := by
  induction jobs generalizing slots with
  | nil => rw [List.eq_nil_of_length_eq_zero size]; rfl
  | cons job jobs ih =>
    obtain _ | ⟨slot, slots⟩ := slots
    · rfl
    · have rest := ih slots (Nat.succ.inj size)
      cases slot with
      | none => exact rest
      | some result => exact congrArg (result :: ·) rest

theorem counted_crew {progress : Progress} (size : progress.slots.size = jobs.length)
    (arrivals : List (Nat × Result)) :
    (progress.crew jobs arrivals).counted = progress.results :=
  filterMap_zipWith_stage jobs progress.slots.toList size

theorem crew_start (jobs : List Job) : (start jobs.length).crew jobs [] = Crew.start jobs := by
  have all : List.zipWith stage jobs (List.replicate jobs.length none) = jobs.map .waiting := by
    induction jobs with
    | nil => rfl
    | cons job jobs ih => exact congrArg (Stage.waiting job :: ·) ih
  simp only [crew, start, Array.toList_replicate, all, Crew.start]

theorem busy_crew (progress : Progress) (arrivals : List (Nat × Result)) :
    busy (progress.crew jobs arrivals).stages = 0 := by
  refine List.countP_eq_zero.2 fun held member => ?_
  obtain ⟨position, found⟩ := List.mem_iff_getElem?.1 member
  obtain ⟨job, slot, -, -, rfl⟩ := List.getElem?_zipWith_eq_some.1 found
  cases slot <;> exact Bool.false_ne_true

theorem advance_eq_settle {position : Nat} (inside : position < jobs.length)
    (progress : Progress) :
    progress.advance work jobs.toArray position =
      progress.settle position (work jobs[position]) := by
  simp [advance, inside]

theorem zipWith_stage_set (jobs : List Job) (slots : List (Option Result)) (position : Nat)
    (result : Result) :
    List.zipWith stage jobs (slots.set position (some result)) =
      (List.zipWith stage jobs slots).set position (.counted result) := by
  induction jobs generalizing slots position with
  | nil => rfl
  | cons job jobs ih =>
    obtain _ | ⟨slot, slots⟩ := slots
    · rfl
    · cases position with
      | zero => rfl
      | succ position => exact congrArg (stage job slot :: ·) (ih slots position)

theorem crew_settle (progress : Progress) (position : Nat) (result : Logged Result)
    (arrivals : List (Nat × Result)) :
    (progress.settle position result).crew jobs arrivals =
      ⟨(progress.crew jobs arrivals).stages.set position (.counted result.value),
        progress.tally.record result.value, arrivals⟩ := by
  simp only [crew, settle, Array.toList_setIfInBounds, zipWith_stage_set]

theorem steps_advance (work : Job → Logged Result) (pool : Pool) {progress : Progress}
    {position : Nat} (inside : position < jobs.length) (free : progress.slots[position]? = some none)
    (arrivals : List (Nat × Result)) :
    ∃ arrivals', Steps work pool (progress.crew jobs arrivals)
      ((progress.advance work jobs.toArray position).crew jobs arrivals') := by
  have idle : (progress.crew jobs arrivals).stages[position]? = some (.waiting jobs[position]) := by
    simp [crew, List.getElem?_zipWith, inside, free, stage]
  refine ⟨(position, (work jobs[position]).value) :: arrivals, ?_⟩
  rw [advance_eq_settle inside, crew_settle]
  exact steps_set work pool (busy_crew progress arrivals) idle

theorem slots_advance {position : Nat} (inside : position < jobs.length) (progress : Progress) :
    (progress.advance work jobs.toArray position).slots =
      progress.slots.setIfInBounds position (some (work jobs[position]).value) := by
  rw [advance_eq_settle inside, settle]

theorem steps_foldl_advance (pool : Pool) (order : List Nat) (progress : Progress)
    (once : order.Nodup) (inside : ∀ position ∈ order, position < jobs.length)
    (free : ∀ position ∈ order, progress.slots[position]? = some none)
    (arrivals : List (Nat × Result)) :
    ∃ arrivals', Steps work pool (progress.crew jobs arrivals)
      ((order.foldl (advance work jobs.toArray) progress).crew jobs arrivals') := by
  induction order generalizing progress arrivals with
  | nil => exact ⟨arrivals, .refl⟩
  | cons position order ih =>
    obtain ⟨apart, once⟩ := List.nodup_cons.1 once
    obtain ⟨here, inside⟩ := List.forall_mem_cons.1 inside
    obtain ⟨empty, free⟩ := List.forall_mem_cons.1 free
    have still : ∀ other ∈ order,
        (progress.advance work jobs.toArray position).slots[other]? = some none := by
      intro other member
      have distinct : position ≠ other := fun same => apart (same ▸ member)
      rw [slots_advance here, Array.getElem?_setIfInBounds_ne distinct]
      exact free other member
    obtain ⟨between, first⟩ := steps_advance work pool here empty arrivals
    obtain ⟨last, later⟩ := ih _ once inside still between
    exact ⟨last, first.trans later⟩

theorem size_slots_foldl (order : List Nat) (progress : Progress)
    (inside : ∀ position ∈ order, position < jobs.length) :
    (order.foldl (advance work jobs.toArray) progress).slots.size = progress.slots.size := by
  induction order generalizing progress with
  | nil => rfl
  | cons position order ih =>
    obtain ⟨here, inside⟩ := List.forall_mem_cons.1 inside
    rw [List.foldl_cons, ih _ inside, slots_advance here, Array.size_setIfInBounds]

theorem not_mem_of_empty (order : List Nat) (progress : Progress)
    (inside : ∀ position ∈ order, position < jobs.length) {position : Nat}
    (empty : (order.foldl (advance work jobs.toArray) progress).slots[position]? = some none) :
    progress.slots[position]? = some none ∧ position ∉ order := by
  induction order generalizing progress with
  | nil => exact ⟨empty, List.not_mem_nil⟩
  | cons first order ih =>
    obtain ⟨here, inside⟩ := List.forall_mem_cons.1 inside
    obtain ⟨before, absent⟩ := ih _ inside empty
    rw [slots_advance here, Array.getElem?_setIfInBounds] at before
    split at before
    · next same => split at before <;> simp at before
    · next other => exact ⟨before, List.not_mem_cons_of_ne_of_not_mem (Ne.symm other) absent⟩

theorem lt_of_mem_order (all : order.Perm (List.range jobs.length)) :
    ∀ position ∈ order, position < jobs.length :=
  fun _ member => List.mem_range.1 (all.subset member)

theorem steps_inOrder (work : Job → Logged Result) (pool : Pool)
    (all : order.Perm (List.range jobs.length)) :
    ∃ arrivals, Steps work pool (Crew.start jobs)
      ((inOrder work jobs.toArray order).crew jobs arrivals) := by
  have inside := lt_of_mem_order all
  rw [← crew_start, inOrder, List.size_toArray]
  refine steps_foldl_advance pool order _ (all.nodup_iff.2 List.nodup_range) inside ?_ []
  intro position member
  simp [start, inside position member]

theorem finished_inOrder (work : Job → Logged Result) (all : order.Perm (List.range jobs.length))
    (arrivals : List (Nat × Result)) :
    ((inOrder work jobs.toArray order).crew jobs arrivals).Finished := by
  have inside := lt_of_mem_order all
  intro stage member
  obtain ⟨position, found⟩ := List.mem_iff_getElem?.1 member
  obtain ⟨job, slot, given, held, rfl⟩ := List.getElem?_zipWith_eq_some.1 found
  cases slot with
  | some result => rfl
  | none =>
    have empty : (inOrder work jobs.toArray order).slots[position]? = some none := by
      simpa using held
    have absent : position ∉ order := (not_mem_of_empty order _ inside empty).2
    obtain ⟨within, -⟩ := List.getElem?_eq_some_iff.1 given
    exact absurd (all.symm.subset (List.mem_range.2 within)) absent

theorem counted_inOrder (work : Job → Logged Result) (all : order.Perm (List.range jobs.length))
    (arrivals : List (Nat × Result)) :
    ((inOrder work jobs.toArray order).crew jobs arrivals).counted =
      (inOrder work jobs.toArray order).results := by
  refine counted_crew ?_ arrivals
  rw [inOrder, size_slots_foldl order _ (lt_of_mem_order all)]
  simp [start]

end

end Progress

end IndentMarkup.Batch
