import IndentMarkup.Proofs.Streams
import IndentMarkup.Proofs.Targets

/-! What a run leaves in its output directory. Outputs are written one after the other to
places of their own, so none of them is written over by another and a run that is cut short
leaves the ones before the cut. -/
namespace IndentMarkup.Command
open Batch

inductive Writes : Disk → List Output → Disk → Prop
  | nil (disk : Disk) : Writes disk [] disk
  | cons {disk between after : Disk} {output : Output} {outputs : List Output}
      (first : disk.write output.target output.content = (between, none))
      (others : Writes between outputs after) : Writes disk (output :: outputs) after

/-- Each output is in a file of its own, and no other file differs. -/
structure Wrote (before after : Disk) (outputs : List Output) : Prop where
  held : ∀ output ∈ outputs, ∃ place, after.locate output.target = .ok place ∧
    after.fileAt? place = some output.content.toUTF8
  apart : outputs.Pairwise fun first second =>
    after.locate first.target ≠ after.locate second.target
  others : ∀ place, (∀ output ∈ outputs, after.locate output.target ≠ .ok place) →
    after.fileAt? place = before.fileAt? place

theorem wrote_nil (disk : Disk) : Wrote disk disk [] where
  held := by simp
  apart := .nil
  others _ _ := rfl

section
variable {disk after : Disk} {outputs : List Output}

theorem Writes.keeps (writes : Writes disk outputs after) : disk.Keeps after := by
  induction writes with
  | nil disk => exact .refl disk
  | cons first _ ih =>
    obtain ⟨place, -, free, rfl⟩ := Disk.exists_place_of_write first
    exact (Disk.Keeps.put free _).trans ih

theorem locate_ne_of_target_ne {before after : Disk} (keeps : before.Keeps after)
    {directory : String} {first second : Output} (own : first.target = targetOf directory first.id)
    (own' : second.target = targetOf directory second.id) (apart : first.target ≠ second.target)
    {place : Location} (led : before.locate first.target = .ok place) :
    after.locate second.target ≠ .ok place := by
  intro led'
  rw [own, targetOf_eq] at led apart
  rw [own', targetOf_eq] at led' apart
  have names : fileNameOf first.id ≠ fileNameOf second.id := fun same => apart (by rw [same])
  exact Disk.place_ne_of_name_ne keeps (isFileName_fileNameOf _) (isFileName_fileNameOf _)
    names led led' rfl

theorem Writes.wrote {directory : String} (writes : Writes disk outputs after)
    (named : ∀ output ∈ outputs, output.target = targetOf directory output.id)
    (distinct : (outputs.map Output.target).Nodup) : Wrote disk after outputs := by
  induction writes with
  | nil disk => exact wrote_nil disk
  | @cons disk between after output outputs first later ih =>
    obtain ⟨own, named⟩ := List.forall_mem_cons.1 named
    obtain ⟨fresh, distinct⟩ := List.nodup_cons.1 distinct
    have wrote := ih named distinct
    obtain ⟨place, led, free, rfl⟩ := Disk.exists_place_of_write first
    have keeps : disk.Keeps after := (Disk.Keeps.put free _).trans later.keeps
    have led' : after.locate output.target = .ok place := keeps.locate led
    have untouched : ∀ other ∈ outputs, after.locate other.target ≠ .ok place := by
      intro other member
      have differs : output.target ≠ other.target := fun same =>
        fresh (List.mem_map.2 ⟨other, member, same.symm⟩)
      exact locate_ne_of_target_ne keeps own (named other member) differs led
    constructor
    case held =>
      refine List.forall_mem_cons.2 ⟨⟨place, led', ?_⟩, wrote.held⟩
      rw [wrote.others place untouched, Disk.fileAt?_put free]
    case apart =>
      refine List.pairwise_cons.2 ⟨fun other member => ?_, wrote.apart⟩
      rw [led']
      exact (untouched other member).symm
    case others =>
      intro here elsewhere
      obtain ⟨elsewhere, rest⟩ := List.forall_mem_cons.1 elsewhere
      have differs : here ≠ place := fun same => elsewhere (same ▸ led')
      rw [wrote.others here rest, Disk.fileAt?_put_of_ne disk differs]

end

section
variable {disk after : Disk} {outputs : List Output}

end

section
variable {plan : Plan} (request : Request) (duration : Duration)

end

end IndentMarkup.Command
