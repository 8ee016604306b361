import RSource.Bytes.Basic

/-! Hexadecimal writing of numbers and bytes. -/

namespace RSource.Text

/-- The digits of a number in lower case, without leading zeros. -/
def hexDigits (n : Nat) : List Char := Nat.toDigits 16 n

/-- The digits of a number, at least `width` of them. -/
def hexPadded (width n : Nat) : String :=
  let digits := hexDigits n
  String.ofList (List.replicate (width - digits.length) '0' ++ digits)

/-- Two digits for every byte. -/
def ofBytes (bytes : Bytes) : String := String.join (bytes.map fun b => hexPadded 2 b.toNat)

/-- The value of a digit. -/
def hexValue? (c : Char) : Option Nat :=
  if '0' ≤ c && c ≤ '9' then some (c.toNat - '0'.toNat)
  else if 'a' ≤ c && c ≤ 'f' then some (c.toNat - 'a'.toNat + 10)
  else if 'A' ≤ c && c ≤ 'F' then some (c.toNat - 'A'.toNat + 10)
  else none

/-- The bytes written by pairs of digits. -/
def bytesOf? : List Char → Option Bytes
  | [] => some []
  | [_] => none
  | a :: b :: cs => do
    let high ← hexValue? a
    let low ← hexValue? b
    return UInt8.ofNat (high * 16 + low) :: (← bytesOf? cs)

/-- The bytes written by pairs of digits. -/
def toBytes? (s : String) : Option Bytes := bytesOf? s.toList

end RSource.Text
