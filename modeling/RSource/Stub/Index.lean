import RSource.Stub.Extract
import RSource.Stub.NameTable

/-! Indexes of the stubs of many files.  A file is registered, and then indexed from its source or
from stubs that are at hand.  Files that are to be indexed wait in a queue.  When a file has
changed, its old stubs can still be found until it is indexed again.  A table of names is kept along
with the files, so that stubs are found by name without looking at every file. -/

namespace RSource

/-- Whether the stubs of a file are those of its current source. -/
inductive FileState where
  | unindexed
  | indexed
  deriving DecidableEq, Repr, Inhabited

def FileState.name : FileState → String
  | .unindexed => "Unindexed"
  | .indexed => "Indexed"

/-- A file of an index, with the stubs it was last given. -/
structure IndexedFile where
  id : FileId
  state : FileState
  stubs : StubTree
  deriving DecidableEq, Repr, Inhabited

/-- The file is not registered. -/
structure UnknownFile where
  file : FileId
  deriving DecidableEq, Repr

def UnknownFile.message (e : UnknownFile) : String :=
  s!"file #{e.file} is not registered with the index"

/-- Registered files, with increasing numbers, the table of their names, and the files that wait to
be indexed. -/
structure StubIndex where
  files : List IndexedFile
  names : NameTable
  queue : List FileId
  deriving Repr, Inhabited

/-- A stub of an index. -/
structure Hit where
  file : FileId
  id : StubId
  stub : Stub
  deriving DecidableEq, Repr, Inhabited

namespace StubIndex

def empty : StubIndex := ⟨[], .empty, []⟩

/-- Puts a file among files, in the place of the one with its number or in order. -/
def put (file : IndexedFile) : List IndexedFile → List IndexedFile
  | [] => [file]
  | f :: fs =>
    if file.id < f.id then file :: f :: fs
    else if file.id = f.id then file :: fs
    else f :: put file fs

def file? (x : StubIndex) (id : FileId) : Option IndexedFile := x.files.find? (·.id == id)

/-- The numbers of the registered files. -/
def ids (x : StubIndex) : List FileId := x.files.map IndexedFile.id

def state? (x : StubIndex) (id : FileId) : Option FileState := (x.file? id).map IndexedFile.state

def stubs? (x : StubIndex) (id : FileId) : Option StubTree := (x.file? id).map IndexedFile.stubs

/-! ### Changes -/

/-- The index with a file.  A new file has no stubs and waits to be indexed. -/
def register (x : StubIndex) (id : FileId) : StubIndex :=
  if (x.file? id).isSome then x
  else
    { x with
      files := put ⟨id, .unindexed, .empty⟩ x.files
      queue := x.queue ++ [id] }

/-- The stubs that a file was last given, empty if it is not registered. -/
def committed (x : StubIndex) (id : FileId) : StubTree := (x.stubs? id).getD .empty

/-- The index without a file. -/
def remove (x : StubIndex) (id : FileId) : StubIndex :=
  { x with
    files := x.files.filter (·.id != id)
    names := x.names.replace id (x.committed id) .empty }

/-- The source of a file has changed: a file that is indexed waits to be indexed again. -/
def invalidate (x : StubIndex) (id : FileId) : Except UnknownFile StubIndex :=
  match x.file? id with
  | none => .error ⟨id⟩
  | some file =>
    match file.state with
    | .indexed =>
      .ok { x with
        files := put { file with state := .unindexed } x.files
        queue := x.queue ++ [id] }
    | .unindexed => .ok x

/-- The index after a file, registered if need be, is given stubs. -/
def commit (x : StubIndex) (id : FileId) (stubs : StubTree) : StubIndex :=
  let x := x.register id
  { x with
    files := put ⟨id, .indexed, stubs⟩ x.files
    names := x.names.replace id (x.committed id) stubs }

/-- The index after a file is given the stubs of a source. -/
def indexSource (x : StubIndex) (id : FileId) (text : String) (limit : Nat) :
    Except TreeError StubIndex :=
  return x.commit id (← StubTree.ofSource text limit)

/-- What is left of the index when a source of a file has no tree: the file, registered if need be,
keeps its stubs and is not indexed.  It does not wait again. -/
def abandon (x : StubIndex) (id : FileId) : StubIndex :=
  let x := x.register id
  { x with files := put ⟨id, .unindexed, x.committed id⟩ x.files }

/-! ### The queue -/

/-- The waiting files from the first that is not indexed on. -/
def waiting (x : StubIndex) : List FileId :=
  x.queue.dropWhile fun id => x.state? id ≠ some .unindexed

/-- The next file to index, which is taken from the queue. -/
def next (x : StubIndex) : Option FileId × StubIndex :=
  (x.waiting.head?, { x with queue := x.waiting.tail })

/-- Every file to index, in the order of the queue, and the index with an empty queue. -/
def drain (x : StubIndex) : List FileId × StubIndex :=
  ((x.queue.filter fun id => x.state? id = some .unindexed).eraseDups, { x with queue := [] })

/-! ### Queries -/

/-- The stubs of a file that satisfy `p`. -/
def hitsIn (x : StubIndex) (p : Stub → Bool) (id : FileId) : List Hit :=
  ((x.committed id).select p).map fun (stub, s) => ⟨id, stub, s⟩

/-- The stubs with a name that satisfy `p`, file by file. -/
def find (x : StubIndex) (name : String) (p : Stub → Bool) : List Hit :=
  (x.names.filesOf name).flatMap (x.hitsIn fun stub => stub.name == name && p stub)

/-- The assignments to a name. -/
def findAssignments (x : StubIndex) (name : String) : List Hit :=
  x.find name (·.declaration.isAssignment)

/-- The parameters with a name. -/
def findParameters (x : StubIndex) (name : String) : List Hit :=
  x.find name (!·.declaration.isAssignment)

/-- The assignments that are statements of their source. -/
def topLevel (x : StubIndex) : List Hit := x.ids.flatMap (x.hitsIn (·.declaration.isTopLevel))

end StubIndex

end RSource
