/-! Sets of characters as closed ranges of code points. -/

namespace RSource.Unicode

/-- The code points from the first component to the second, both included. -/
abbrev Range := Nat × Nat

/-- One of the ranges holds the character. -/
def covers (ranges : List Range) (c : Char) : Bool :=
  ranges.any fun r => r.1 ≤ c.toNat && c.toNat ≤ r.2

/-! ### White space -/

/-- The white space past ASCII. -/
def blankRanges : List Range := [
  (0x85, 0x85), (0xA0, 0xA0), (0x1680, 0x1680), (0x2000, 0x200A), (0x2028, 0x2029),
  (0x202F, 0x202F), (0x205F, 0x205F), (0x3000, 0x3000)]

/-- The character is white space. In ASCII these are the space and U+0009 to U+000D. -/
def isBlank (c : Char) : Bool :=
  if c.toNat < 0x80 then c = ' ' || (0x09 ≤ c.toNat && c.toNat ≤ 0x0D) else covers blankRanges c

end RSource.Unicode
