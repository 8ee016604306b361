import RSource.Store.Basic
import RSource.Stub.Index
import RSource.Workspace.Discovery

/-! Workspaces: all sources below a directory, with an index of their stubs.  The sources are
numbered in the order of their paths.  Stubs come from a store if there is one, so that only what
has changed is parsed. -/

namespace RSource

/-- A source with its number and the text it was last read with. -/
structure SourceFile where
  id : FileId
  path : Path
  text : String
  deriving DecidableEq, Repr, Inhabited

/-- Why a source is not indexed. -/
inductive FailureCause where
  | unreadable (cause : IoError)
  | store (cause : StoreError)
  deriving DecidableEq, Repr

def FailureCause.message : FailureCause → String
  | .unreadable cause => cause.message
  | .store cause => cause.message

/-- A source that is not indexed. -/
structure Failure where
  path : Path
  cause : FailureCause
  deriving DecidableEq, Repr

/-- Numbers of files at the time a workspace was loaded. -/
structure LoadStats where
  /-- Files that could be read. -/
  files : Nat
  /-- Files whose stubs were in the store. -/
  hits : Nat
  /-- Files whose stubs were built. -/
  misses : Nat
  /-- Files whose entry in the store could not be read. -/
  repaired : Nat
  failed : Nat
  deriving DecidableEq, Repr, Inhabited

structure Workspace where
  root : Path
  config : IndexConfig
  store : Option Store
  /-- The sources, in the order of their numbers. -/
  files : Array SourceFile
  index : StubIndex
  stats : LoadStats
  failures : List Failure
  deriving Repr

/-- Why a workspace cannot be loaded, or a file not be loaded again. -/
inductive WorkspaceError where
  | notFound (root : Path)
  | unknownFile (error : UnknownFile)
  | store (cause : StoreError)
  deriving DecidableEq, Repr

def WorkspaceError.message : WorkspaceError → String
  | .notFound root => s!"'{root}' is not a file or directory"
  | .unknownFile error => error.message
  | .store cause => cause.message

namespace Workspace

variable {m : Type → Type} [Monad m] [MonadDisk m]

/-- The stubs of a source, and how the store came by them if there is one. -/
def stubsOf (store : Option Store) (limit : Nat) (file : SourceFile) :
    m (Except StoreError (StubTree × Option Loaded)) := do
  match store with
  | some store =>
    match ← store.loadOrBuild file.path file.text with
    | .ok (stubs, loaded) => return .ok (stubs, some loaded)
    | .error e => return .error e
  | none =>
    match StubTree.ofSource file.text limit with
    | .ok stubs => return .ok (stubs, none)
    | .error cause => return .error (.tree cause)

/-! ### Loading -/

/-- The store of a configuration. -/
def openStore (config : IndexConfig) : m (Except StoreError (Option Store)) := do
  match config.cache with
  | none => return .ok none
  | some dir =>
    match ← Store.open dir config.limit with
    | .ok store => return .ok (some store)
    | .error e => return .error e

/-- The files that could be read among files and what became of reading them, numbered in order. -/
def readable (reads : List (Path × Except IoError String)) : List SourceFile :=
  let texts := reads.filterMap fun (path, read) => read.toOption.map fun text => (path, text)
  texts.mapIdx fun id (path, text) => ⟨id, path, text⟩

/-- The files that could not be read. -/
def unreadable (reads : List (Path × Except IoError String)) : List Failure :=
  reads.filterMap fun (path, read) =>
    match read with
    | .ok _ => none
    | .error cause => some ⟨path, .unreadable cause⟩

/-- What became of the stubs of a file. -/
abbrev Result := Except StoreError (StubTree × Option Loaded)

/-- The index of files that are all to be indexed. -/
def registered (files : List SourceFile) : StubIndex :=
  files.foldl (fun index file => index.register file.id) .empty

/-- The index after the stubs of a file could be had, or could not. -/
def settle (index : StubIndex) (id : FileId) : Result → StubIndex
  | .ok (stubs, _) => index.commit id stubs
  | .error _ => index

/-- The index of files after all results. -/
def settleAll (index : StubIndex) (files : List SourceFile) (results : List Result) : StubIndex :=
  (files.zip results).foldl (fun index (file, result) => settle index file.id result) index

/-- The files whose stubs could not be had. -/
def unindexed (files : List SourceFile) (results : List Result) : List Failure :=
  (files.zip results).filterMap fun (file, result) =>
    match result with
    | .ok _ => none
    | .error cause => some ⟨file.path, .store cause⟩

/-- How often the store came by stubs in a way that satisfies `p`. -/
def countLoaded (results : List Result) (p : Option Loaded → Bool) : Nat :=
  results.countP fun result =>
    match result with
    | .ok (_, loaded) => p loaded
    | .error _ => false

/-- The store, and the sources at a path with what became of reading them. -/
def prepare (root : Path) (config : IndexConfig) :
    m (Except WorkspaceError (Option Store × List (Path × Except IoError String))) := do
  if (← MonadDisk.kind? root).isNone then return .error (.notFound root)
  match ← openStore config with
  | .error cause => return .error (.store cause)
  | .ok store =>
    let paths ← Discovery.sources config root
    let reads ← paths.mapM fun path => return (path, ← readText path)
    return .ok (store, reads)

/-- The workspace of sources that were read, with the results of their files.  No file waits, also
none that could not be indexed. -/
def loaded (root : Path) (config : IndexConfig) (store : Option Store)
    (reads : List (Path × Except IoError String)) (results : List Result) (index : StubIndex) :
    Workspace :=
  let files := readable reads
  let failures := unreadable reads ++ unindexed files results
  { root, config, store, failures
    files := files.toArray
    index := index.drain.2
    stats := {
      files := files.length
      hits := countLoaded results (· == some .hit)
      misses := countLoaded results (· != some .hit)
      repaired := countLoaded results (· == some .repaired)
      failed := failures.length } }

/-- The sources at a path, read and indexed. -/
def load (root : Path) (config : IndexConfig) : m (Except WorkspaceError Workspace) := do
  match ← prepare root config with
  | .error e => return .error e
  | .ok (store, reads) =>
    let files := readable reads
    let results ← files.mapM (stubsOf store config.limit)
    return .ok (loaded root config store reads results
      (settleAll (registered files) files results))

/-! ### Loading again -/

/-- Indexes one file from its text. -/
def reindex (w : Workspace) (id : FileId) : m (Except WorkspaceError Unit × Workspace) := do
  match w.files[id]? with
  | none => return (.ok (), w)
  | some file =>
    match ← stubsOf w.store w.config.limit file with
    | .error cause => return (.error (.store cause), w)
    | .ok (stubs, _) =>
      return (.ok (), { w with
        index := w.index.commit id stubs
        failures := w.failures.filter (·.path != file.path) })

/-- Indexes the files that wait, at most `bound` of them. -/
def reindexWaiting : Nat → Workspace → m (Except WorkspaceError Unit × Workspace)
  | 0, w => return (.ok (), w)
  | bound + 1, w => do
    match w.index.next with
    | (none, index) => return (.ok (), { w with index })
    | (some id, index) =>
      match ← reindex { w with index } id with
      | (.ok (), w) => reindexWaiting bound w
      | (.error e, w) => return (.error e, w)

/-- Reads a file again and indexes it, and then all files that wait. -/
def reload (w : Workspace) (id : FileId) : m (Except WorkspaceError Unit × Workspace) := do
  match w.files[id]? with
  | none => return (.error (.unknownFile ⟨id⟩), w)
  | some file =>
    match ← readText file.path with
    | .error cause => return (.error (.store (.io file.path cause)), w)
    | .ok text =>
      let w := { w with files := w.files.setIfInBounds id { file with text } }
      match w.index.invalidate id with
      | .error e => return (.error (.unknownFile e), w)
      | .ok index =>
        match ← reindex { w with index } id with
        | (.ok (), w) => reindexWaiting w.index.queue.length w
        | (.error e, w) => return (.error e, w)

/-- The source that a stub was found in. -/
def sourceOf? (w : Workspace) (hit : Hit) : Option SourceFile := w.files[hit.file]?

end Workspace

end RSource
