import RSource.Diagnostic.Basic
import RSource.Text.Lines

/-! Queues of diagnostics.  A queue takes no more once it holds as many errors as its limit allows,
may drop what it already holds at the same place, and gives back the rest in the order of the
source. -/

namespace RSource

/-- What a queue takes. -/
structure QueueConfig where
  /-- The number of errors after which nothing is taken; 0 stands for no limit. -/
  limit : Nat
  /-- A diagnostic whose code and position are queued already is dropped. -/
  deduplicate : Bool
  deriving DecidableEq, Repr, Inhabited

namespace QueueConfig

def default : QueueConfig := ⟨50, true⟩

/-- Everything is taken. -/
def unlimited : QueueConfig := ⟨0, false⟩

end QueueConfig

/-- A diagnostic with the line and column of its place. -/
structure QueueEntry where
  line : Nat
  column : Nat
  diagnostic : Diagnostic
  deriving DecidableEq, Repr, Inhabited

namespace QueueEntry

/-- The entries have the same code at the same place. -/
def repeats (e f : QueueEntry) : Bool :=
  e.diagnostic.code == f.diagnostic.code && e.line == f.line && e.column == f.column

/-- The first entry does not stand after the second. -/
def notAfter (e f : QueueEntry) : Bool :=
  e.line < f.line || (e.line == f.line && e.column ≤ f.column)

end QueueEntry

/-- Diagnostics in the order they were taken. -/
structure DiagnosticQueue where
  config : QueueConfig
  entries : List QueueEntry
  deriving Repr, Inhabited

namespace DiagnosticQueue

def empty (config : QueueConfig) : DiagnosticQueue := ⟨config, []⟩

def length (q : DiagnosticQueue) : Nat := q.entries.length

def isEmpty (q : DiagnosticQueue) : Bool := q.entries.isEmpty

/-- The number of queued errors. -/
def errorCount (q : DiagnosticQueue) : Nat := q.entries.countP (·.diagnostic.isError)

def hasErrors (q : DiagnosticQueue) : Bool := q.errorCount != 0

/-- Nothing more is taken. -/
def limitReached (q : DiagnosticQueue) : Bool :=
  q.config.limit != 0 && q.config.limit ≤ q.errorCount

/-- The queue takes an entry. -/
def takes (q : DiagnosticQueue) (e : QueueEntry) : Bool :=
  !q.limitReached && !(q.config.deduplicate && q.entries.any e.repeats)

/-- The queue after an entry is offered to it. -/
def add (q : DiagnosticQueue) (e : QueueEntry) : DiagnosticQueue :=
  if q.takes e then { q with entries := q.entries ++ [e] } else q

/-- The entry of a diagnostic at the place of its primary label, or at the start of the text. -/
def entryIn (text : String) (d : Diagnostic) : QueueEntry :=
  match d.primarySpan? with
  | some span =>
    let (line, column) := Text.positionIn text span.start
    ⟨line, column, d⟩
  | none => ⟨1, 1, d⟩

/-- The queue after diagnostics of a text are offered to it in order. -/
def addAll (q : DiagnosticQueue) (text : String) (ds : List Diagnostic) : DiagnosticQueue :=
  ds.foldl (fun q d => q.add (entryIn text d)) q

/-- The queued diagnostics in the order of their places; those at one place keep their order. -/
def diagnostics (q : DiagnosticQueue) : List Diagnostic :=
  (q.entries.mergeSort QueueEntry.notAfter).map QueueEntry.diagnostic

/-- The queue after its diagnostics are taken out. -/
def cleared (q : DiagnosticQueue) : DiagnosticQueue := empty q.config

end DiagnosticQueue

end RSource
