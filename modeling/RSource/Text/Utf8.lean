import RSource.Bytes.Basic

/-! Text as UTF-8.  A character is one to four bytes; the first byte tells how many follow and which
bytes may come second.  What is no UTF-8 is refused where the first wrong character starts. -/

namespace RSource.Utf8

/-- The bytes of a character. -/
def encodeChar (c : Char) : Bytes :=
  let n := c.toNat
  let tail (shift : Nat) : UInt8 := UInt8.ofNat (0x80 + n / shift % 64)
  if n < 0x80 then [UInt8.ofNat n]
  else if n < 0x800 then [UInt8.ofNat (0xC0 + n / 64), tail 1]
  else if n < 0x10000 then [UInt8.ofNat (0xE0 + n / 4096), tail 64, tail 1]
  else [UInt8.ofNat (0xF0 + n / 262144), tail 4096, tail 64, tail 1]

def encode (text : String) : Bytes := text.toList.flatMap encodeChar

/-- Why bytes are no UTF-8. -/
inductive Error where
  /-- No character begins with the `length` bytes at `offset`. -/
  | invalid (offset length : Nat)
  /-- The bytes end inside the character that starts at `offset`. -/
  | incomplete (offset : Nat)
  deriving DecidableEq, Repr

def Error.message : Error → String
  | .invalid offset length => s!"invalid utf-8 sequence of {length} bytes from index {offset}"
  | .incomplete offset => s!"incomplete utf-8 byte sequence from index {offset}"

/-- A character of which some bytes are read. -/
structure Pending where
  /-- The number of bytes read. -/
  read : Nat
  /-- What these bytes contribute to the code point. -/
  value : Nat
  /-- The number of bytes to come. -/
  left : Nat
  /-- The least byte that may come next. -/
  low : Nat
  /-- The greatest byte that may come next. -/
  high : Nat
  deriving DecidableEq, Repr

/-- The character that a first byte outside ASCII begins. -/
def begin? (b : UInt8) : Option Pending :=
  let n := b.toNat
  if 0xC2 ≤ n ∧ n ≤ 0xDF then some ⟨1, n - 0xC0, 1, 0x80, 0xBF⟩
  else if 0xE0 ≤ n ∧ n ≤ 0xEF then
    some ⟨1, n - 0xE0, 2, if n = 0xE0 then 0xA0 else 0x80, if n = 0xED then 0x9F else 0xBF⟩
  else if 0xF0 ≤ n ∧ n ≤ 0xF4 then
    some ⟨1, n - 0xF0, 3, if n = 0xF0 then 0x90 else 0x80, if n = 0xF4 then 0x8F else 0xBF⟩
  else none

/-- The characters of bytes, of which the first stands at `offset` or belongs to the pending
character that starts there. -/
def decodeFrom (offset : Nat) : Option Pending → Bytes → Except Error (List Char)
  | none, [] => .ok []
  | some _, [] => .error (.incomplete offset)
  | none, b :: bs =>
    if b.toNat < 0x80 then return Char.ofNat b.toNat :: (← decodeFrom (offset + 1) none bs)
    else
      match begin? b with
      | some p => decodeFrom offset (some p) bs
      | none => .error (.invalid offset 1)
  | some p, b :: bs =>
    if p.low ≤ b.toNat ∧ b.toNat ≤ p.high then
      let value := p.value * 64 + (b.toNat - 0x80)
      match p.left with
      | left + 2 => decodeFrom offset (some ⟨p.read + 1, value, left + 1, 0x80, 0xBF⟩) bs
      | _ => return Char.ofNat value :: (← decodeFrom (offset + p.read + 1) none bs)
    else .error (.invalid offset p.read)

/-- The text that bytes write. -/
def decode (bytes : Bytes) : Except Error String :=
  return String.ofList (← decodeFrom 0 none bytes)

end RSource.Utf8
