import IndentMarkup.Command.Output
import IndentMarkup.Proofs.Storage
import Mathlib.Data.List.Nodup

/-! Targets of outputs. Each is named by one step below the output directory, whatever the
path it comes from; they are claimed one after the other, and the first that is taken
already is found out, with the one output that holds it. Where none is taken, the list of
targets has one place for each result, so that the two can be gone through together. -/
namespace IndentMarkup

namespace Path

theorem mem_steps_of_mem_components {path : Path} {step : String}
    (member : step ∈ path.components) : step ∈ path.steps := by
  unfold components at member
  split at member
  · next relative =>
    rcases List.mem_cons.1 member with rfl | member
    · have first : path.steps.head? = some "." := by simpa using (Bool.and_eq_true_iff.1 relative).2
      exact List.mem_of_head? first
    · exact (List.mem_filter.1 member).1
  · exact (List.mem_filter.1 member).1

theorem mem_of_mem_stemOf {name : String} {c : Char} (member : c ∈ (stemOf name).toList) :
    c ∈ name.toList := by
  simp only [stemOf] at member
  split at member
  · next stem rest =>
    split at member
    · exact member
    · rw [String.toList_ofList, List.mem_reverse] at member
      have behind : c ∈ name.toList.reverse :=
        List.mem_of_mem_drop (rest ▸ List.mem_cons_of_mem '.' member)
      exact List.mem_reverse.1 behind
  · exact member

theorem slash_notMem_stem {spelling stem : String} (found : (ofString spelling).stem? = some stem) :
    '/' ∉ stem.toList := by
  obtain ⟨name, named, rfl⟩ := Option.map_eq_some_iff.1 found
  have last : (ofString spelling).components.getLast? = some name := by
    unfold fileName? at named
    split at named
    · next step last =>
      split at named
      · cases named
      · rwa [← Option.some.inj named]
    · cases named
  have step := mem_steps_of_mem_components (List.mem_of_getLast? last)
  exact fun member => not_mem_of_mem_steps step (mem_of_mem_stemOf member)

end Path

namespace Command
open Batch

def fileNameOf (id : String) : String := (Path.ofString id).stem?.getD anonymousStem ++ ".php"

theorem targetOf_eq (directory id : String) :
    targetOf directory id = inDirectory directory (fileNameOf id) := rfl

theorem isFileName_fileNameOf (id : String) : IsFileName (fileNameOf id) := by
  have long : 4 ≤ (fileNameOf id).toList.length := by simp [fileNameOf]
  refine ⟨?_, ?_, ?_, ?_⟩
  · have stem : '/' ∉ ((Path.ofString id).stem?.getD anonymousStem).toList := by
      cases found : (Path.ofString id).stem? with
      | none => decide
      | some stem => exact Path.slash_notMem_stem found
    rw [fileNameOf, String.toList_append, List.mem_append, not_or]
    exact ⟨stem, by decide⟩
  all_goals
    intro same
    rw [same] at long
    exact absurd long (by decide)

def target? (directory : String) (result : Result) : Option String :=
  result.document?.map fun _ => targetOf directory result.id

/-- The outputs before `second` have targets of their own, so it is the first whose target
is taken, and only `first` can have taken it. -/
inductive FirstClash : List Output → Collision → Prop
  | intro (front between rest : List Output) (first second : Output)
      (taken : first.target = second.target)
      (alone : ∀ other ∈ front ++ between, other.target ≠ second.target)
      (distinct : ((front ++ first :: between).map Output.target).Nodup) :
      FirstClash (front ++ first :: (between ++ second :: rest))
        ⟨first.id, second.id, second.target⟩

inductive Claimed (outputs : List Output) (targets : List (Option String)) :
    Except Collision (List (Option String)) → Prop
  | distinct (nodup : (outputs.map Output.target).Nodup) : Claimed outputs targets (.ok targets)
  | clash {collision : Collision} (first : FirstClash outputs collision) :
      Claimed outputs targets (.error collision)

theorem Claimed.cons {outputs : List Output} {targets : List (Option String)}
    {found : Except Collision (List (Option String))} (claimed : Claimed outputs targets found)
    (slot : Option String) : Claimed outputs (slot :: targets) (found.map (slot :: ·)) := by
  cases claimed with
  | distinct nodup => exact .distinct nodup
  | clash first => exact .clash first

end Command

end IndentMarkup
