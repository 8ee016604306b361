import RSource.Text.Slice
import RSource.Text.Trim

/-! Lines and columns.  Both count from 1; a column counts characters.  A line starts at offset 0
and after every line feed.  Line starts, lines and columns have 32 bits, as offsets have: a line
start that does not fit stands at `maxOffset`. -/

namespace RSource.Text

/-- The offsets after each line feed, when the first character stands at `offset`. -/
def lineStartsFrom (offset : Nat) : List Char → List Nat
  | [] => []
  | c :: cs =>
    let next := offset + c.utf8Size
    if c = '\n' then next :: lineStartsFrom next cs else lineStartsFrom next cs

/-- The number of what has `n` others before it, counted from 1 in 32 bits.  A count that does not
fit is taken for the last but one that does.  The largest that fits has no successor: an unchecked
sum starts at 0 again. -/
def ordinal (n : Nat) : UInt32 :=
  (if n ≤ maxOffset then UInt32.ofNatClamp n else UInt32.ofNatClamp (maxOffset - 1)) + 1

/-- The offsets at which the lines of a text start, none above the next. -/
structure LineTable where
  starts : Array UInt32
  deriving Repr

namespace LineTable

/-- The lines of a text. -/
def ofText (text : String) : LineTable :=
  ⟨((0 :: lineStartsFrom 0 text.toList).map UInt32.ofNatClamp).toArray⟩

/-- The number of lines. -/
def count (t : LineTable) : Nat := t.starts.size

/-- The number of lines among those from `low` to `high` that start at or before an offset, plus
`low`, found by halving. -/
def bisect (t : LineTable) (offset low high : Nat) : Nat :=
  if low < high then
    let middle := (low + high) / 2
    if (t.starts[middle]?).any (·.toNat ≤ offset) then bisect t offset (middle + 1) high
    else bisect t offset low middle
  else low
termination_by high - low

/-- The line an offset lies in: the last that starts at or before it. -/
def lineAt (t : LineTable) (offset : Nat) : UInt32 := ordinal (t.bisect offset 0 t.count - 1)

/-- Where a line starts, 0 for a line there is none of. -/
def startOf (t : LineTable) (line : UInt32) : UInt32 := (t.starts[(line - 1).toNat]?).getD 0

/-- The line and column of an offset.  An offset past the end counts as the end, and one inside a
character stands in column 1. -/
def position (t : LineTable) (text : String) (offset : Nat) : Nat × Nat :=
  let line := t.lineAt offset
  let before := slice? text ⟨(t.startOf line).toNat, min offset (byteLength text)⟩
  (line.toNat, (ordinal ((before.map String.length).getD 0)).toNat)

/-- The text of a line without its line end. -/
def lineText? (t : LineTable) (text : String) (line : Nat) : Option String :=
  if line = 0 then none
  else do
    let start ← t.starts[line - 1]?
    let stop := ((t.starts[line]?).map UInt32.toNat).getD (byteLength text)
    let covered ← slice? text ⟨start.toNat, stop⟩
    return trimEnd (fun c => c = '\n' || c = '\r') covered

end LineTable

/-- The line and column of an offset in a text. -/
def positionIn (text : String) (offset : Nat) : Nat × Nat :=
  (LineTable.ofText text).position text offset

/-- The part of a text before its first line end, which is `\n` or `\r\n`. -/
def firstLine (text : String) : String :=
  let line := text.toList.takeWhile (· ≠ '\n')
  let ended := line.length < text.length
  String.ofList (if ended && line.getLast? = some '\r' then line.dropLast else line)

end RSource.Text
