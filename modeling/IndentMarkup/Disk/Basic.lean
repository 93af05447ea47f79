import IndentMarkup.Disk.Failure
import IndentMarkup.Disk.Path

/-! Disks: files and directories by their location, without links. A path is
followed step by step from the root or from the working directory, and every step
is taken from a directory that exists. A disk may refuse to use a path, as it does
without permission, and a write may run short, as it does on a full disk; both can
depend on all that the disk holds by then. An operation returns the disk it leaves
also when it fails. -/
namespace IndentMarkup

inductive Node
  | directory
  | file (content : ByteArray)

abbrev Location := List String

abbrev Nodes := List (Location × Node)

inductive Access
  | read | write | create
  deriving DecidableEq, Repr

structure Disk where
  nodes : Nodes := []
  home : Location := []
  /-- Why a path is not to be used, for reasons of the disk's own. -/
  refusal? : Nodes → Access → Path → Option AccessFailure := fun _ _ _ => none
  /-- How many bytes of a content get to an open file if not all of them do. -/
  shortage? : Nodes → Location → (content : ByteArray) →
    Option (Fin content.size × AccessFailure) := fun _ _ _ => none

namespace Disk

def node? (disk : Disk) (place : Location) : Option Node :=
  if place.isEmpty then some .directory else disk.nodes.lookup place

def isDirectoryAt (disk : Disk) (place : Location) : Bool :=
  match disk.node? place with
  | some .directory => true
  | _ => false

def put (disk : Disk) (place : Location) (node : Node) : Disk :=
  { disk with nodes := (place, node) :: disk.nodes.filter (·.1 ≠ place) }

theorem node?_put (disk : Disk) {place : Location} (below : place ≠ []) (node : Node) :
    (disk.put place node).node? place = some node := by
  simp [node?, put, below]

def nameLimit : Nat := 255

def pathLimit : Nat := 4095

def step (disk : Disk) (place : Location) (name : String) : Except AccessFailure Location :=
  match disk.node? place with
  | none => .error .notFound
  | some (.file _) => .error .notDirectory
  | some .directory =>
    if name = "" || name = "." then .ok place
    else if name = ".." then .ok place.dropLast
    else if nameLimit < name.utf8ByteSize then .error .nameTooLong
    else .ok (place ++ [name])

/-- Where the steps of a path lead; at the last of them nothing need exist. -/
def follow (disk : Disk) (path : Path) : Except AccessFailure Location :=
  path.steps.foldlM disk.step (if path.absolute then [] else disk.home)

def locate (disk : Disk) (spelling : String) : Except AccessFailure Location :=
  if spelling.toList.contains '\x00' then .error .nulInPath
  else if spelling.isEmpty then .error .notFound
  else if pathLimit < spelling.utf8ByteSize then .error .nameTooLong
  else disk.follow (Path.ofString spelling)

def reach (disk : Disk) (access : Access) (spelling : String) : Except AccessFailure Location :=
  match disk.refusal? disk.nodes access (Path.ofString spelling) with
  | some failure => .error failure
  | none => disk.locate spelling

def readBytes (disk : Disk) (path : String) : Except AccessFailure ByteArray := do
  match disk.node? (← disk.reach .read path) with
  | none => throw .notFound
  | some .directory => throw .isDirectory
  | some (.file content) => return content

def read (disk : Disk) (path : String) : Except AccessFailure String := do
  match String.fromUTF8? (← disk.readBytes path) with
  | some text => return text
  | none => throw .invalidEncoding

def fill (disk : Disk) (place : Location) (content : ByteArray) : Disk × Option AccessFailure :=
  match disk.shortage? disk.nodes place content with
  | some (size, failure) => (disk.put place (.file (content.extract 0 size)), some failure)
  | none => (disk.put place (.file content), none)

/-- Opens a file, which makes it or empties it, and then fills it. -/
def writeBytes (disk : Disk) (path : String) (content : ByteArray) : Disk × Option AccessFailure :=
  match disk.reach .write path with
  | .error failure => (disk, some failure)
  | .ok place =>
    if disk.isDirectoryAt place then (disk, some .isDirectory)
    else (disk.put place (.file .empty)).fill place content

def write (disk : Disk) (path text : String) : Disk × Option AccessFailure :=
  disk.writeBytes path text.toUTF8

def files (disk : Disk) : List (String × ByteArray) :=
  disk.nodes.filterMap fun (place, node) =>
    match node with
    | .file content =>
      if disk.home.isPrefixOf place then
        some ("/".intercalate (place.drop disk.home.length), content)
      else none
    | .directory => none

def changes (before after : Disk) : List (String × ByteArray) :=
  (after.files.filter fun file => !before.files.contains file).mergeSort fun a b => a.1 ≤ b.1

end Disk

end IndentMarkup
