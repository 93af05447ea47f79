import IndentMarkup.Text.Blank

/-! Paths. A path keeps its steps as they are spelled, the empty ones included,
because a trailing slash and a final `.` matter when a file is looked up; its
components leave out what does not matter when names are compared. -/
namespace IndentMarkup

structure Path where
  absolute : Bool
  steps : List String
  deriving DecidableEq, Repr

namespace Path

def ofString (spelling : String) : Path where
  absolute := spelling.toList.head? = some '/'
  steps := (spelling.toList.splitOn '/').map String.ofList

/-- Empty steps fall away, and so does `.` except as the first step of a path
that is not absolute. -/
def components (path : Path) : List String :=
  let kept := path.steps.filter fun step => step ≠ "" && step ≠ "."
  if !path.absolute && path.steps.head? = some "." then "." :: kept else kept

/-- The paths above the components of a path, the nearest first. The empty path,
which is where a path that is not absolute starts, is not among them. -/
def above (path : Path) : List Path :=
  let components := path.components
  let shorter := (List.range components.length).reverse.map fun n =>
    ({ path with steps := components.take n } : Path)
  if path.absolute then shorter else shorter.filter fun p => !p.steps.isEmpty

def fileName? (path : Path) : Option String :=
  match path.components.getLast? with
  | some name => if name = "." || name = ".." then none else some name
  | none => none

/-- A name up to its last dot, or all of it if it has no other dot than a first one. -/
def stemOf (name : String) : String :=
  let reversed := name.toList.reverse
  let extension := reversed.takeWhile (· ≠ '.')
  match reversed.drop extension.length with
  | '.' :: stem => if stem.isEmpty then name else String.ofList stem.reverse
  | _ => name

def stem? (path : Path) : Option String := path.fileName?.map stemOf

end Path

def inDirectory (directory name : String) : String :=
  if directory = "" || directory.toList.getLast? = some '/' then directory ++ name
  else directory ++ "/" ++ name

end IndentMarkup
