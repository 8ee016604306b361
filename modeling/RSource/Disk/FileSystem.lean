import RSource.Disk.Basic

/-! File systems as values: what stands at which place.  Paths start at the root, which is also the
current directory. -/

namespace RSource

/-- A place in a file system: the names on the way from the root. -/
abbrev Location := List String

/-- What stands at a place. -/
inductive FileNode where
  | file (bytes : Bytes)
  | directory
  deriving DecidableEq, Repr, Inhabited

def FileNode.kind : FileNode → FileKind
  | .file _ => .file
  | .directory => .directory

/-- Files and directories with their places.  The root is always there. -/
structure FileSystem where
  nodes : List (Location × FileNode)
  deriving Repr, Inhabited

namespace FileSystem

def empty : FileSystem := ⟨[]⟩

/-- What stands at a place. -/
def node? (fs : FileSystem) (place : Location) : Option FileNode :=
  if place = [] then some .directory else fs.nodes.lookup place

/-- The file system without what stands at a place. -/
def erase (fs : FileSystem) (place : Location) : FileSystem :=
  ⟨fs.nodes.filter (·.1 != place)⟩

/-- The file system with something at a place. -/
def put (fs : FileSystem) (place : Location) (node : FileNode) : FileSystem :=
  ⟨(place, node) :: (fs.erase place).nodes⟩

/-- The names of what stands directly below a place. -/
def names (fs : FileSystem) (place : Location) : List String :=
  fs.nodes.filterMap fun (l, _) => if l.dropLast = place then l.getLast? else none

/-- The place that names lead to from a place.  All names but the last are those of directories. -/
def walk (fs : FileSystem) (here : Location) : List String → Except IoError Location
  | [] => .ok here
  | name :: rest =>
    if name = ".." then walk fs here.dropLast rest
    else
      let next := here ++ [name]
      match rest, fs.node? next with
      | [], _ => .ok next
      | _, some .directory => walk fs next rest
      | _, some (.file _) => .error .notDirectory
      | _, none => .error .notFound

/-- The path can only be that of a directory: it ends in a slash or in the name of the directory
itself. -/
def endsInDirectory (p : Path) : Bool :=
  p.pieces.getLast?.any fun part => part = "" || part = "."

/-- The place that a path leads to. -/
def locate (fs : FileSystem) (p : Path) : Except IoError Location := do
  if p.text.isEmpty then throw .notFound
  let place ← fs.walk [] p.parts
  match fs.node? place with
  | some (.file _) => if endsInDirectory p then throw .notDirectory else return place
  | _ => return place

/-- What a path leads to. -/
def at? (fs : FileSystem) (p : Path) : Except IoError FileNode := do
  match fs.node? (← fs.locate p) with
  | some node => return node
  | none => throw .notFound

def read (fs : FileSystem) (p : Path) : Except IoError Bytes := do
  match ← fs.at? p with
  | .file bytes => return bytes
  | .directory => throw .isDirectory

def write (fs : FileSystem) (p : Path) (bytes : Bytes) : Except IoError FileSystem := do
  let place ← fs.locate p
  if fs.node? place = some .directory then throw .isDirectory
  return fs.put place (.file bytes)

/-- Moves a file.  A directory does not give way to a file. -/
def move (fs : FileSystem) (source target : Path) : Except IoError FileSystem := do
  let bytes ← fs.read source
  let place ← fs.locate source
  let fs' ← fs.write target bytes
  if (← fs.locate target) = place then return fs' else return fs'.erase place

def remove (fs : FileSystem) (p : Path) : Except IoError FileSystem := do
  let _ ← fs.read p
  return fs.erase (← fs.locate p)

/-- Makes the directories on the way along names. -/
def makeAlong (fs : FileSystem) (here : Location) : List String → Except IoError FileSystem
  | [] => .ok fs
  | name :: rest =>
    if name = ".." then makeAlong fs here.dropLast rest
    else
      let next := here ++ [name]
      match fs.node? next with
      | some .directory => makeAlong fs next rest
      | some (.file _) => .error (if rest.isEmpty then .alreadyExists else .notDirectory)
      | none => makeAlong (fs.put next .directory) next rest

def makeDirectory (fs : FileSystem) (p : Path) : Except IoError FileSystem :=
  fs.makeAlong [] p.parts

def list (fs : FileSystem) (p : Path) : Except IoError (List String) := do
  let place ← fs.locate p
  match fs.node? place with
  | some .directory => return fs.names place
  | some (.file _) => throw .notDirectory
  | none => throw .notFound

/-- Keeps the file system that an operation gives.  An operation that fails changes nothing. -/
def update (change : FileSystem → Except IoError FileSystem) :
    StateM FileSystem (Except IoError Unit) := fun fs =>
  match change fs with
  | .ok fs' => (.ok (), fs')
  | .error e => (.error e, fs)

instance : MonadDisk (StateM FileSystem) where
  kind? p := return ((← get).at? p).toOption.map FileNode.kind
  readFile p := return (← get).read p
  writeFile p bytes := update (·.write p bytes)
  rename source target := update (·.move source target)
  removeFile p := update (·.remove p)
  makeDirectory p := update (·.makeDirectory p)
  list p := return (← get).list p

end FileSystem

end RSource
