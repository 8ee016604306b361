import RSource.Diagnostic.Queue
import RSource.Diagnostic.Render
import RSource.Disk.Basic
import RSource.Stub.Extract
import RSource.Text.Lines
import RSource.Text.Quoted
import RSource.Tree.Dump
import RSource.Workspace.Basic

/-! Commands.  A command gives a code for the caller, and text for each of the two output streams.
Some show what is read in one source: its tokens, its tree, its stubs.  Others work on all sources
below a directory: they list what these declare, or find a name. -/

namespace RSource.Command

structure Output where
  /-- The exit code: 0 for success. -/
  code : Nat
  out : String
  err : String
  deriving DecidableEq, Repr, Inhabited

/-- Lines as text. -/
def unlines (lines : List String) : String := String.join (lines.map (· ++ "\n"))

namespace Output

/-- The command has succeeded. -/
def success (lines : List String) : Output := ⟨0, unlines lines, ""⟩

/-- The command has failed. -/
def failure (lines : List String) : Output := ⟨1, "", unlines lines⟩

end Output

/-! ### One source -/

/-- The message for a source that cannot be read. -/
def unreadable (path : Path) : IoError → String
  | .notFound => s!"cannot find file '{path}'"
  | .permissionDenied => s!"permission denied reading '{path}'"
  | .notUtf8 => s!"'{path}' contains invalid UTF-8 data"
  | cause => s!"error reading '{path}': {cause.message}"

/-- Shows something of a source. -/
def inspect {m : Type → Type} [Monad m] [MonadDisk m] (command : Path → String → Output)
    (path : Path) : m Output := do
  match ← readText path with
  | .ok text => return command path text
  | .error cause => return .failure [unreadable path cause]

/-- The tokens of a source. -/
def showTokens (path : Path) (text : String) : Output :=
  let tokens := lex text
  .success (s!"Tokens for '{path}' ({tokens.length} tokens):" ::
    tokens.map fun t => s!"  {t.kind.name} @ {t.span} {Text.quoted (t.text text)}")

/-- The message for a source that has no tree. -/
def noTree (path : Path) (cause : TreeError) : Output :=
  .failure [s!"internal error parsing '{path}': {cause.message}"]

/-- The tree of a source and its errors.  With errors the command fails. -/
def showTree (terminal : Bool) (path : Path) (text : String) : Output :=
  match parse text Parse.defaultLimit with
  | .error cause => noTree path cause
  | .ok p =>
    let out := unlines [s!"Parse result for '{path}':", s!"  Nodes: {p.tree.size}",
      s!"  Errors: {p.errors.length}", ""] ++ p.tree.dump
    if p.hasErrors then
      let queue := (DiagnosticQueue.empty .default).addAll text p.diagnostics
      let emitter : Emitter := ⟨ColorMode.auto.colors terminal, toString path, text⟩
      ⟨1, out, emitter.report queue.diagnostics⟩
    else ⟨0, out, ""⟩

/-- For every stub the number of stubs around it. -/
def depths (t : StubTree) : Array Nat :=
  t.stubs.foldl (fun done stub =>
    match stub.parent.bind fun p => done[p]? with
    | some depth => done.push (depth + 1)
    | none => done.push 0) #[]

/-- The properties of an assignment, between brackets. -/
def flagNames (isFunction isTopLevel isRight : Bool) : String :=
  let names := [(isFunction, "function"), (isTopLevel, "top-level"), (isRight, "right")]
  let shown := ", ".intercalate ((names.filter Prod.fst).map Prod.snd)
  s!"[{shown}]"

/-- The line of a stub with some stubs around it. -/
def stubLine (table : Text.LineTable) (text : String) (depth : Nat) (s : Stub) : String :=
  let (line, column) := table.position text s.span.start
  let indent := Emitter.fill (2 * depth + 2) ' '
  match s.declaration with
  | .assignment name isFunction isTopLevel isRight =>
    s!"{indent}{name} @ {line}:{column} {flagNames isFunction isTopLevel isRight}"
  | .parameter name => s!"{indent}param {name} @ {line}:{column}"

/-- The stubs of a source. -/
def showStubs (path : Path) (text : String) : Output :=
  match StubTree.ofSource text Parse.defaultLimit with
  | .error cause => noTree path cause
  | .ok stubs =>
    let table := Text.LineTable.ofText text
    let lines := ((depths stubs).zip stubs.stubs).toList.map fun (depth, stub) =>
      stubLine table text depth stub
    .success (s!"Stubs for '{path}' ({stubs.size} stubs):" :: lines)

/-! ### All sources -/

variable {m : Type → Type} [Monad m] [MonadDisk m]

/-- Where a stub's name stands: path, line and column. -/
def location (w : Workspace) (hit : Hit) : String :=
  match w.sourceOf? hit with
  | some file =>
    let (line, column) := Text.positionIn file.text hit.stub.span.start
    s!"{file.path}:{line}:{column}"
  | none => s!"#{hit.file}"

/-- The line of an assignment, with the parameters of a function. -/
def assignmentLine (w : Workspace) (hit : Hit) : String :=
  let name := hit.stub.name
  let place := location w hit
  if hit.stub.declaration.isFunction then
    let names := ((w.index.stubs? hit.file).map (·.parameterNames hit.id)).getD []
    let parameters := ", ".intercalate names
    s!"  {name}({parameters}) @ {place}"
  else s!"  {name} @ {place}"

/-- What a load has found. -/
def survey (dir : Path) (w : Workspace) : Output :=
  let stats := w.stats
  let cache := if w.config.cache.isNone then [] else
    [s!"  Cache: {stats.hits} hits, {stats.misses} misses, {stats.repaired} repaired"]
  let top := w.index.topLevel
  let listing := if top.isEmpty then [] else
    "" :: "Top-level assignments:" :: top.map (assignmentLine w)
  ⟨0, unlines (s!"Indexed '{dir}': {stats.files} files" :: cache ++ listing),
    unlines (w.failures.map fun f => s!"  failed: {f.path}: {f.cause.message}")⟩

/-- The word for what a stub declares. -/
def noun : Declaration → String
  | .assignment _ true _ _ => "function"
  | .assignment _ false _ _ => "assignment"
  | .parameter _ => "parameter"

/-- The first hit does not come after the second. -/
def notAfter (h i : Hit) : Bool :=
  h.file < i.file || (h.file == i.file && h.stub.span.start ≤ i.stub.span.start)

/-- The declarations of a name.  Without any the command fails. -/
def found (dir : Path) (name : String) (w : Workspace) : Output :=
  let hits := (w.index.findAssignments name ++ w.index.findParameters name).mergeSort notAfter
  if hits.isEmpty then .failure [s!"no definitions of '{name}' in '{dir}'"]
  else
    .success (hits.map fun hit =>
      s!"{noun hit.stub.declaration} {hit.stub.name} @ {location w hit}")

/-- Loads the sources below a directory and shows something of them. -/
def onWorkspace (dir : Path) (config : IndexConfig) (command : Workspace → Output) : m Output := do
  match ← Workspace.load dir config with
  | .ok w => return command w
  | .error e => return .failure [s!"error: {e.message}"]

end RSource.Command
