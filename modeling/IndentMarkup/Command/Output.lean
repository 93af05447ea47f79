import IndentMarkup.Batch.Basic
import IndentMarkup.Disk.Directory

/-! Output files. Every template that compiled has a target in the output
directory, named after the file it came from; two of them with one target are
found out before anything is written. The targets are a list of their own, which
is then gone through beside the results. -/
namespace IndentMarkup

/-- What a run needs of the files it works on. An operation returns what it leaves
also when it fails. -/
structure FileSystem (σ : Type) where
  read : σ → Reader
  createDirectory : σ → String → σ × Option AccessFailure
  write : σ → String → String → σ × Option AccessFailure

namespace Disk

def fileSystem : FileSystem Disk := ⟨read, createDirectory, write⟩

@[simp] theorem createDirectory_fileSystem : fileSystem.createDirectory = createDirectory := rfl

@[simp] theorem write_fileSystem : fileSystem.write = write := rfl

end Disk

namespace Command
open Batch

structure Output where
  id : String
  target : String
  content : String
  deriving DecidableEq, Repr

structure Collision where
  first : String
  second : String
  target : String
  deriving DecidableEq, Repr

def anonymousStem : String := "template"

def targetOf (directory id : String) : String :=
  inDirectory directory (((Path.ofString id).stem?.getD anonymousStem) ++ ".php")

def printed (document : Document) : String := String.ofList (document.code ++ ['\n'])

/-- The target of each result, or none where it has failed. `claimed` are the
targets of the results before, with their ids. -/
def claim (directory : String) (claimed : List (String × String)) :
    List Result → Except Collision (List (Option String))
  | [] => .ok []
  | result :: rest =>
    if result.document?.isNone then (claim directory claimed rest).map (none :: ·)
    else
      let target := targetOf directory result.id
      match claimed.lookup target with
      | some earlier => .error ⟨earlier, result.id, target⟩
      | none => (claim directory ((target, result.id) :: claimed) rest).map (some target :: ·)

def outputTargets (directory : String) (results : List Result) :
    Except Collision (List (Option String)) :=
  claim directory [] results

inductive SaveFault
  | directory (path : String) (cause : AccessFailure)
  | file (target : String) (cause : AccessFailure)
  deriving DecidableEq, Repr

structure Saved where
  written : List Output := []
  fault : Option SaveFault := none
  deriving DecidableEq, Repr

section
variable {σ : Type} (system : FileSystem σ)

def writeOutputs (state : σ) : List (Result × Option String) → σ × Saved
  | [] => (state, {})
  | (result, target?) :: rest =>
    match result.document?, target? with
    | some document, some target =>
      match system.write state target (printed document) with
      | (state, some cause) => (state, { fault := some (.file target cause) })
      | (state, none) =>
        let (state, saved) := writeOutputs state rest
        (state, { saved with written := ⟨result.id, target, printed document⟩ :: saved.written })
    | _, _ => writeOutputs state rest

def save (state : σ) (directory : String) (results : List Result)
    (targets : List (Option String)) : σ × Saved :=
  match system.createDirectory state directory with
  | (state, some cause) => (state, { fault := some (.directory directory cause) })
  | (state, none) => writeOutputs system state (results.zip targets)

end

end Command

end IndentMarkup
