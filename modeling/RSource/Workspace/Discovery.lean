import RSource.Disk.Basic
import RSource.Parse

/-! Finding sources: the files below a directory that have the extension of a source.  Hidden files
are left out, and so are directories that hold what was built or what belongs to others. -/

namespace RSource

/-- What is indexed and how. -/
structure IndexConfig where
  /-- The directory of a store, if there is one. -/
  cache : Option Path
  /-- The extensions of sources. -/
  extensions : List String
  /-- The number of errors that a parse keeps. -/
  limit : Nat
  deriving DecidableEq, Repr, Inhabited

namespace IndexConfig

def default : IndexConfig := ⟨none, ["R", "r"], Parse.defaultLimit⟩

def isSource (config : IndexConfig) (path : Path) : Bool :=
  path.extension?.any config.extensions.contains

end IndexConfig

namespace Discovery

/-- Directories that are left out. -/
def skipped : List String := ["target", "node_modules", "renv", "packrat"]

/-- No path is so long that it leads through more directories. -/
def maxDepth : Nat := 4096

variable {m : Type → Type} [Monad m] [MonadDisk m]

/-- The sources in a directory and at most `depth - 1` directories below it.  A directory that
cannot be listed has none. -/
def below (config : IndexConfig) : Nat → Path → m (List Path)
  | 0, _ => return []
  | depth + 1, dir => do
    match ← MonadDisk.list dir with
    | .error _ => return []
    | .ok names =>
      let found ← names.mapM fun name => do
        let path := dir.join name
        if name.startsWith "." then return []
        match ← MonadDisk.kind? path with
        | some .directory => if name ∈ skipped then return [] else below config depth path
        | _ => return if config.isSource path then [path] else []
      return found.flatten

/-- The sources at a path, in order: the file itself, or those below the directory. -/
def sources (config : IndexConfig) (root : Path) : m (List Path) := do
  match ← MonadDisk.kind? root with
  | some .file => return if config.isSource root then [root] else []
  | _ => return (← below config maxDepth root).mergeSort Path.notAfter

end Discovery

end RSource
