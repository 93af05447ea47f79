import IndentMarkup.Disk.Basic

/-! Directories: they are made one at a time, each in one that exists, or with
all that is missing above them. -/
namespace IndentMarkup.Disk

def isDirectory (disk : Disk) (path : Path) : Bool :=
  match disk.follow path with
  | .ok place => disk.isDirectoryAt place
  | .error _ => false

/-- Makes one directory, in a directory that exists. Slashes at the end of the
path do not count. -/
def makeDirectory (disk : Disk) (path : Path) : Disk × Option AccessFailure :=
  match disk.refusal? disk.nodes .create path, path.steps.reverse.dropWhile (· = "") with
  | some failure, _ => (disk, some failure)
  | none, [] => (disk, some .alreadyExists)
  | none, name :: before =>
    match disk.follow { path with steps := before.reverse ++ [name] } with
    | .error failure => (disk, some failure)
    | .ok place =>
      if name = "." || name = ".." || (disk.node? place).isSome then (disk, some .alreadyExists)
      else (disk.put place .directory, none)

/-- A directory that could not be made because it is there already will do. -/
def orPresent (path : Path) : Disk × Option AccessFailure → Disk × Option AccessFailure
  | (disk, some failure) => (disk, if disk.isDirectory path then none else some failure)
  | (disk, none) => (disk, none)

def makeDirectories (disk : Disk) (path : Path) : List Path → Disk × Option AccessFailure
  | [] => orPresent path (disk.makeDirectory path)
  | parent :: further =>
    match disk.makeDirectory path with
    | (_, some .notFound) =>
      match disk.makeDirectories parent further with
      | (disk, some failure) => (disk, some failure)
      | (disk, none) => orPresent path (disk.makeDirectory path)
    | result => orPresent path result

def createDirectory (disk : Disk) (spelling : String) : Disk × Option AccessFailure :=
  if spelling.toList.contains '\x00' then (disk, some .nulInPath)
  else if pathLimit < spelling.utf8ByteSize then (disk, some .nameTooLong)
  else
    let path := Path.ofString spelling
    disk.makeDirectories path path.above

def install (disk : Disk) (path : String) : Node → Disk
  | .directory => (disk.createDirectory path).1
  | .file content =>
    let prepared := match (Path.ofString path).above with
      | [] => disk
      | parent :: further => (disk.makeDirectories parent further).1
    (prepared.writeBytes path content).1

/-- A disk with a working directory that no path from the root spells out, and
in it the given files and directories. -/
def ofFiles (files : List (String × Node)) : Disk :=
  let empty : Disk := { nodes := [([""], .directory)], home := [""] }
  files.foldl (fun disk (path, node) => disk.install path node) empty

end IndentMarkup.Disk
