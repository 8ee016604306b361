import RSource.Parser.Basic

/-! Parsers that write events.  Such a parser keeps a list of events, to which it adds while it
reads, and a log of errors.  A node is opened by a marker, which keeps a place in the list for the
start of the node.  The marker is completed, which makes the node one of some kind; or abandoned,
which leaves what was read without the node; or rolled back, which undoes all that came after it.
A node that is completed can still get another node around it: its start is given a link to a marker
that is opened later. -/

namespace RSource

/-- The state of a parser that writes events. -/
structure Recording where
  cursor : Cursor
  /-- The flags of the region that the cursor stands in. -/
  context : Context
  events : List Event
  log : ErrorLog

/-- A node that is being read. -/
structure Marker where
  /-- The index of the event that is kept for the start of the node. -/
  place : Nat
  /-- The cursor position where the node was opened. -/
  position : Nat
  /-- The number of errors that were kept then. -/
  kept : Nat
  /-- The place of the last error met before. -/
  last : Option Nat

/-- The marker of a node that is opened here. -/
def Recording.marker (s : Recording) : Marker :=
  ⟨s.events.length, s.cursor.position, s.log.kept.length, s.log.last⟩

/-- A node that has been read, by the index of its start. -/
structure Completed where
  place : Nat

/-- The link of a start. -/
def Event.link? : Event → Option Nat
  | .start _ outer => outer
  | _ => none

/-- The start with another link. -/
def Event.withLink (outer : Nat) : Event → Event
  | .start kind _ => .start kind (some outer)
  | e => e

/-- A parser that writes events.  It gives nothing if a loop or a recursion in it goes on for longer
than there are items to take up. -/
abbrev Recorder : Type → Type := StateT Recording Option

namespace Recorder

variable {α : Type}

/-! ### Looking -/

/-- A fact about the cursor. -/
def look (f : Cursor → α) : Recorder α := fun s => some (f s.cursor, s)

/-- The kind of the current item. -/
def kind : Recorder TokenKind := look Cursor.kind

/-- The current item has this kind. -/
def isAt (k : TokenKind) : Recorder Bool := look (·.kind == k)

/-- The kind of the current item is in a set. -/
def isIn (set : TokenSet) : Recorder Bool := look fun c => set.contains c.kind

def atEnd : Recorder Bool := look Cursor.atEnd

/-- A line end before the item `n` places ahead ends the expression. -/
def newlineBreaks (n : Nat) : Recorder Bool :=
  fun s => some (s.context.newlinesTerminate && (s.cursor.ahead n).newlineBefore, s)

/-! ### Reading -/

/-- Takes up the current item, unless it is the end. -/
def bump : Recorder Unit := modify fun s =>
  if s.cursor.atEnd then s
  else { s with
    cursor := s.cursor.advance
    events := s.events ++ (s.cursor.here.index.map Event.token).toList }

/-- Writes down a problem at the current item. -/
def report (problem : Problem) : Recorder Unit := modify fun s =>
  let c := s.cursor
  { s with log :=
    s.log.record ⟨c.position, problem, if c.atEnd then .point c.span.start else c.span⟩ }

/-- Takes up the current item if it has this kind, and tells whether it has. -/
def eat (k : TokenKind) : Recorder Bool := do
  if ← isAt k then
    bump
    return true
  else return false

/-- Takes up the current item if it has this kind, and otherwise writes down a problem with what is
there instead. -/
def expect (k : TokenKind) (problem : TokenKind → Problem) : Recorder Bool := do
  if ← eat k then return true
  else
    report (problem (← kind))
    return false

/-- Reads in a region with other flags; afterwards the flags are those from before. -/
def within (change : Context → Context) (x : Recorder α) : Recorder α := fun s => do
  let (a, t) ← x { s with context := change s.context }
  return (a, { t with context := s.context })

/-- Reads where line ends are layout. -/
def bracketed (x : Recorder α) : Recorder α := within (·.union .brackets) x

/-- Reads where line ends end expressions. -/
def braced (x : Recorder α) : Recorder α := within (·.diff .brackets) x

/-! ### Markers -/

/-- Opens a node.  An event that does nothing is kept for its start. -/
def start : Recorder Marker := modifyGet fun s =>
  (s.marker, { s with events := s.events ++ [.tombstone] })

end Recorder

namespace Marker

/-- Closes the node and gives it a kind.  A link that its start has by now stays. -/
def complete (m : Marker) (kind : NodeKind) : Recorder Completed := modifyGet fun s =>
  let outer := (s.events[m.place]?).bind Event.link?
  (⟨m.place⟩, { s with events := s.events.set m.place (.start kind outer) ++ [.finish] })

/-- Drops the node; what was read since belongs to the node around it. -/
def abandon (m : Marker) : Recorder Unit := modify fun s =>
  { s with events :=
    if m.place + 1 = s.events.length then s.events.dropLast
    else s.events.set m.place .tombstone }

/-- Goes back to where the node was opened. -/
def rollback (m : Marker) : Recorder Unit := modify fun s =>
  { s with
    cursor := s.cursor.moveTo m.position
    events := s.events.take m.place
    log := { s.log with kept := s.log.kept.take m.kept, last := m.last } }

end Marker

/-- Opens a node around one that is completed: the start of this gets a link to the start of the new
one. -/
def Completed.precede (c : Completed) : Recorder Marker := do
  let m ← Recorder.start
  modify fun s =>
    { s with events := s.events.modify c.place (Event.withLink (m.place - c.place)) }
  return m

namespace Recorder

/-- A node around what is read. -/
def node (kind : NodeKind) (body : Recorder Unit) : Recorder Completed := do
  let m ← start
  body
  m.complete kind

/-- A node around the current item. -/
def leaf (kind : NodeKind) : Recorder Completed := node kind bump

/-- A node around one that is completed and what is read after it. -/
def around (inner : Completed) (kind : NodeKind) (body : Recorder Unit) : Recorder Completed := do
  let m ← inner.precede
  body
  m.complete kind

/-! ### Repeating -/

/-- Repeats a step as long as it says so.  There is no result if the step still says so after a
number of rounds. -/
def loopUpTo (step : Recorder Bool) : Nat → Recorder Unit
  | 0 => failure
  | rounds + 1 => do
    if ← step then loopUpTo step rounds else return ()

/-- Repeats a step as long as it says so.  Every round before the last must take up an item: what
goes on for more rounds than there are items has no result. -/
def loop (step : Recorder Bool) : Recorder Unit := do
  loopUpTo step ((← look Cursor.remaining) + 1)

/-- Repeats a step that puts a node around the last one, as long as it gives one.  There is no
result if it still gives one after a number of rounds. -/
def growUpTo (step : Completed → Recorder (Option Completed)) :
    Nat → Completed → Recorder Completed
  | 0, _ => failure
  | rounds + 1, c => do
    match ← step c with
    | some c => growUpTo step rounds c
    | none => return c

/-- Repeats a step that puts a node around the last one, as long as it gives one.  What goes on for
more rounds than there are items has no result. -/
def grow (step : Completed → Recorder (Option Completed)) (c : Completed) : Recorder Completed := do
  growUpTo step ((← look Cursor.remaining) + 1) c

/-- Takes up items as long as `p` holds and the end is not reached. -/
def bumpWhile (p : Cursor → Bool) : Recorder Unit := loop do
  if ← look fun c => !c.atEnd && p c then
    bump
    return true
  else return false

end Recorder

end RSource
