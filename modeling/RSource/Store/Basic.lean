import RSource.Disk.Basic
import RSource.Stub.Extract
import RSource.Stub.Stored

/-! Stores of stubs on disk.  A store is a directory with one file for every source, named by a hash
of the source's path.  An entry for other text is as good as none, and one that cannot be read is
built again; other entries are not touched. -/

namespace RSource

/-! ### Entries

The stubs of one source with the path and the hash of the text they were built from. -/

structure StoreEntry where
  source : String
  hash : ContentHash
  /-- The stored form of the stubs. -/
  stubs : Bytes
  deriving DecidableEq, Repr

namespace StoreEntry

/-- The entry of stubs. -/
def ofStubs (source : String) (hash : ContentHash) (stubs : StubTree) : StoreEntry :=
  ⟨source, hash, stubs.encode⟩

def write (e : StoreEntry) : Bytes :=
  Bytes.ofText e.source ++ Bytes.ofNat 8 e.hash.value.toNat ++
    (Bytes.ofNat 8 e.stubs.length ++ e.stubs)

def reader : Reader StoreEntry := do
  let source ← Reader.text
  let hash ← Reader.number 8
  let stubs ← Reader.bytes
  return ⟨source, ⟨UInt64.ofNat hash⟩, stubs⟩

/-- The entry that bytes write. -/
def read (bytes : Bytes) : Except StoredError StoreEntry :=
  match reader.run bytes with
  | .ok (entry, _) => .ok entry
  | .error cause => .error (.entry cause)

/-- The stubs that bytes hold for a source, or nothing if they hold those of another source or of
another text. -/
def stubsFor (bytes : Bytes) (source : String) (hash : ContentHash) :
    Except StoredError (Option StubTree) := do
  let entry ← read bytes
  if entry.source ≠ source ∨ entry.hash ≠ hash then return none
  return some (← StubTree.decode entry.stubs)

end StoreEntry

/-! ### Directories -/

/-- Why stubs cannot be had from a store. -/
inductive StoreError where
  | io (path : Path) (cause : IoError)
  | corrupt (cause : StoredError)
  | tree (cause : TreeError)
  deriving DecidableEq, Repr

def StoreError.message : StoreError → String
  | .io path cause => s!"I/O error on {path}: {cause.message}"
  | .corrupt cause => cause.message
  | .tree cause => cause.message

/-- How a store came by stubs. -/
inductive Loaded where
  /-- There was an entry for the text. -/
  | hit
  /-- There was no entry for the text. -/
  | miss
  /-- The entry could not be read. -/
  | repaired
  deriving DecidableEq, Repr, Inhabited

def Loaded.name : Loaded → String
  | .hit => "Hit"
  | .miss => "Miss"
  | .repaired => "Repaired"

/-- A directory of entries, and the number of errors that a parse keeps. -/
structure Store where
  dir : Path
  limit : Nat
  deriving DecidableEq, Repr, Inhabited

namespace Store

/-- The name of the entry of a source, without its extension. -/
def key (source : Path) : String := toString (ContentHash.ofText source.text)

/-- The file with the entry of a source. -/
def entryPath (s : Store) (source : Path) : Path := s.dir.join (key source ++ ".stubs")

/-- Where an entry is written before it takes its place. -/
def temporaryPath (s : Store) (source : Path) : Path := s.dir.join (key source ++ ".tmp")

variable {m : Type → Type} [Monad m] [MonadDisk m]

/-- The store in a directory, which is made if need be. -/
def «open» (dir : Path) (limit : Nat) : m (Except StoreError Store) := do
  match ← MonadDisk.makeDirectory dir with
  | .ok () => return .ok ⟨dir, limit⟩
  | .error cause => return .error (.io dir cause)

/-- The stubs of a source, if there is an entry for its text. -/
def load (s : Store) (source : Path) (hash : ContentHash) :
    m (Except StoreError (Option StubTree)) := do
  match ← MonadDisk.readFile (s.entryPath source) with
  | .error .notFound => return .ok none
  | .error cause => return .error (.io (s.entryPath source) cause)
  | .ok bytes =>
    match StoreEntry.stubsFor bytes source.text hash with
    | .ok stubs => return .ok stubs
    | .error cause => return .error (.corrupt cause)

/-- Writes the entry of a source, all at once. -/
def save (s : Store) (source : Path) (hash : ContentHash) (stubs : StubTree) :
    m (Except StoreError Unit) := do
  let entry := StoreEntry.ofStubs source.text hash stubs
  match ← MonadDisk.writeFile (s.temporaryPath source) entry.write with
  | .error cause => return .error (.io (s.temporaryPath source) cause)
  | .ok () =>
    match ← MonadDisk.rename (s.temporaryPath source) (s.entryPath source) with
    | .error cause => return .error (.io (s.entryPath source) cause)
    | .ok () => return .ok ()

/-- Builds the stubs of a source and saves them. -/
def build (s : Store) (source : Path) (text : String) (loaded : Loaded) :
    m (Except StoreError (StubTree × Loaded)) := do
  match StubTree.ofSource text s.limit with
  | .error cause => return .error (.tree cause)
  | .ok stubs =>
    match ← s.save source (.ofText text) stubs with
    | .error e => return .error e
    | .ok () => return .ok (stubs, loaded)

/-- The stubs of a source: those of its entry, or else built and saved. -/
def loadOrBuild (s : Store) (source : Path) (text : String) :
    m (Except StoreError (StubTree × Loaded)) := do
  match ← s.load source (.ofText text) with
  | .ok (some stubs) => return .ok (stubs, .hit)
  | .ok none => s.build source text .miss
  | .error (.corrupt _) => s.build source text .repaired
  | .error e => return .error e

/-- Removes the entry of a source, if there is one. -/
def remove (s : Store) (source : Path) : m (Except StoreError Unit) := do
  match ← MonadDisk.removeFile (s.entryPath source) with
  | .ok () | .error .notFound => return .ok ()
  | .error cause => return .error (.io (s.entryPath source) cause)

end Store

end RSource
