import RSource.Text.Utf8

/-! Disks.  A program that works with files does so through these operations, and runs on anything
that has them: on the files of the machine, or on a file system that is a value. -/

namespace RSource

/-! ### Paths

A path is kept as it was written; what it names is told by its parts. -/

/-- The path of a file. -/
structure Path where
  text : String
  deriving DecidableEq, Repr, Inhabited

namespace Path

instance : ToString Path := ⟨Path.text⟩

/-- What stands between slashes. -/
def pieces (p : Path) : List String := (p.text.toList.splitOn '/').map String.ofList

/-- The names between slashes, except those that stand for the directory itself. -/
def parts (p : Path) : List String := p.pieces.filter fun part => part ≠ "" && part ≠ "."

/-- The path of an entry of a directory. -/
def join (p : Path) (name : String) : Path :=
  if p.text.isEmpty || p.text.toList.getLast? = some '/' then ⟨p.text ++ name⟩
  else ⟨p.text ++ "/" ++ name⟩

/-- The last name, unless it leads back to a parent. -/
def fileName? (p : Path) : Option String := p.parts.getLast?.filter (· ≠ "..")

/-- What follows the last dot of the file name, if something comes before the dot. -/
def extension? (p : Path) : Option String := do
  let name := (← p.fileName?).toList.reverse
  let stem := (name.dropWhile (· ≠ '.')).tail
  if stem.isEmpty then none else some (.ofList (name.takeWhile (· ≠ '.')).reverse)

/-- The first names do not come after the second: at the first place where they differ they are in
order, or the first names end there. -/
def inOrder : List String → List String → Bool
  | [], _ => true
  | _ :: _, [] => false
  | a :: as, b :: bs => a < b || (a == b && inOrder as bs)

/-- The first path does not come after the second.  Paths are compared name by name. -/
def notAfter (p q : Path) : Bool := inOrder p.parts q.parts

end Path

/-! ### Operations -/

/-- Why an operation on a file fails. -/
inductive IoError where
  | notFound
  | permissionDenied
  | alreadyExists
  | notDirectory
  | isDirectory
  | notUtf8
  | other (text : String)
  deriving DecidableEq, Repr, Inhabited

def IoError.message : IoError → String
  | .notFound => "No such file or directory (os error 2)"
  | .permissionDenied => "Permission denied (os error 13)"
  | .alreadyExists => "File exists (os error 17)"
  | .notDirectory => "Not a directory (os error 20)"
  | .isDirectory => "Is a directory (os error 21)"
  | .notUtf8 => "stream did not contain valid UTF-8"
  | .other text => text

/-- What a path leads to. -/
inductive FileKind where
  | file
  | directory
  | other
  deriving DecidableEq, Repr, Inhabited

/-- The operations of a disk. -/
class MonadDisk (m : Type → Type) where
  /-- What a path leads to, if there is anything. -/
  kind? : Path → m (Option FileKind)
  readFile : Path → m (Except IoError Bytes)
  /-- Writes a file, in the place of one that is there. -/
  writeFile : Path → Bytes → m (Except IoError Unit)
  /-- Moves a file, in the place of one that is there. -/
  rename : Path → Path → m (Except IoError Unit)
  removeFile : Path → m (Except IoError Unit)
  /-- Makes a directory, with those around it that are missing. -/
  makeDirectory : Path → m (Except IoError Unit)
  /-- The names of the entries of a directory, in any order. -/
  list : Path → m (Except IoError (List String))

/-- The text that the bytes of a file write. -/
def textOfFile (bytes : Bytes) : Except IoError String :=
  match Utf8.decode bytes with
  | .ok text => .ok text
  | .error _ => .error .notUtf8

/-- The text of a file. -/
def readText {m : Type → Type} [Monad m] [MonadDisk m] (path : Path) :
    m (Except IoError String) := do
  match ← MonadDisk.readFile path with
  | .ok bytes => return textOfFile bytes
  | .error e => return .error e

end RSource
