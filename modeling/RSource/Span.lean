/-! Half-open byte ranges `start..stop` of one source text.  Tokens, tree nodes, stubs and
diagnostic labels carry one.  Offsets count bytes of the UTF-8 form and stay at or below
`maxOffset`, so a source has fewer than 4 GiB. -/

namespace RSource

/-- The largest offset a span may hold. -/
def maxOffset : Nat := 4294967295

/-- The bytes from `start` up to but not including `stop`. -/
structure Span where
  start : Nat
  stop : Nat
  deriving DecidableEq, Repr, Inhabited

/-- Both ends are offsets, and one of them is too large. -/
structure SpanError where
  start : Nat
  stop : Nat
  deriving DecidableEq, Repr

namespace SpanError

def message (e : SpanError) : String :=
  s!"range {e.start}..{e.stop} exceeds the 4 GiB source limit"

end SpanError

namespace Span

/-- The zero-length span at an offset: where an empty node or a missing token sits. -/
def point (offset : Nat) : Span := ⟨offset, offset⟩

/-- The span of a range whose ends are both offsets. -/
def ofRange? (start stop : Nat) : Except SpanError Span :=
  if start ≤ maxOffset ∧ stop ≤ maxOffset then .ok ⟨start, stop⟩ else .error ⟨start, stop⟩

/-- The number of bytes covered. -/
def length (s : Span) : Nat := s.stop - s.start

def isEmpty (s : Span) : Bool := s.start == s.stop

/-- The offset lies inside; the end is exclusive. -/
def contains (s : Span) (offset : Nat) : Bool := s.start ≤ offset && offset < s.stop

def containsSpan (s other : Span) : Bool := s.start ≤ other.start && other.stop ≤ s.stop

/-- The smallest span that covers both. -/
def merge (s other : Span) : Span := ⟨min s.start other.start, max s.stop other.stop⟩

/-- Where an offset at or after the end of `edit` lands once `newLength` bytes stand there instead.
A place that is no offset becomes 0. -/
def shift (edit : Span) (newLength offset : Nat) : Nat :=
  let moved := (offset : Int) - edit.length + newLength
  if moved ≤ maxOffset then moved.toNat else 0

/-- Where a span lands after the text under `edit` is replaced by `newLength` bytes.  A span from
the edit's end on moves as a whole, one that reaches the edit's end keeps its start and moves its
end, and one that stops before it stays. -/
def adjustForEdit (s edit : Span) (newLength : Nat) : Span :=
  if edit.stop ≤ s.start then ⟨shift edit newLength s.start, shift edit newLength s.stop⟩
  else if edit.stop ≤ s.stop then ⟨s.start, shift edit newLength s.stop⟩
  else s

/-- Spans in order of their start, then of their end. -/
protected def compare (s other : Span) : Ordering :=
  (Ord.compare s.start other.start).then (Ord.compare s.stop other.stop)

instance : Ord Span := ⟨Span.compare⟩

/-- The written form `start..stop`. -/
protected def toString (s : Span) : String := s!"{s.start}..{s.stop}"

instance : ToString Span := ⟨Span.toString⟩

@[simp] theorem length_point (offset : Nat) : (point offset).length = 0 := by simp [point, length]

@[simp] theorem contains_iff {s : Span} {offset : Nat} :
    s.contains offset ↔ s.start ≤ offset ∧ offset < s.stop := by
  simp [contains]

theorem not_contains_point (p offset : Nat) : ¬ (point p).contains offset := by
  simp [point]

end Span

end RSource
