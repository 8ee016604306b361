import RSource.Text.Hex
import RSource.Text.Utf8

/-! Hashes of contents, by which stored stubs are matched with the source they were built from.  Two
words run over the bytes sixteen at a time; each round multiplies words to 128 bits and folds the
two halves of the product. -/

namespace RSource

/-- A hash of 64 bits. -/
structure ContentHash where
  value : UInt64
  deriving DecidableEq, Repr, Inhabited

namespace ContentHash

/-- The halves of the 128-bit product, folded. -/
def mix (x y : UInt64) : UInt64 :=
  let product := x.toNat * y.toNat
  UInt64.ofNat product ^^^ UInt64.ofNat (product >>> 64)

/-- The word that the first `width` bytes write. -/
def word (width : Nat) (bytes : Bytes) : UInt64 := UInt64.ofNat (Bytes.toNat (bytes.take width))

/-- The words after some rounds, each of which takes sixteen bytes. -/
def absorb (s0 s1 : UInt64) (bytes : Bytes) : Nat → UInt64 × UInt64
  | 0 => (s0, s1)
  | rounds + 1 =>
    let t := mix (s0 ^^^ word 8 bytes) (0xa4093822299f31d0 ^^^ word 8 (bytes.drop 8))
    absorb s1 t (bytes.drop 16) rounds

/-- The words that bytes are turned into before they are mixed.  There is a round for every sixteen
bytes before the last byte, and the last bytes may be read twice. -/
def words (bytes : Bytes) : UInt64 × UInt64 :=
  let n := bytes.length
  let s0 := 0x243f6a8885a308d3
  let s1 := 0x13198a2e03707344
  let last (width : Nat) := word width (bytes.drop (n - width))
  if n ≥ 17 then
    let (s0, s1) := absorb s0 s1 bytes ((n - 1) / 16)
    (s0 ^^^ word 8 (bytes.drop (n - 16)), s1 ^^^ last 8)
  else if n ≥ 8 then (s0 ^^^ word 8 bytes, s1 ^^^ last 8)
  else if n ≥ 4 then (s0 ^^^ word 4 bytes, s1 ^^^ last 4)
  else if n ≥ 1 then
    (s0 ^^^ word 1 bytes, s1 ^^^ (last 1 <<< 8 ||| word 1 (bytes.drop (n / 2))))
  else (s0, s1)

/-- The factor that the number of bytes and the last word are multiplied with. -/
def factor : UInt64 := 0xf1357aea2e62a9c5

/-- The hash of bytes. -/
def ofBytes (bytes : Bytes) : ContentHash :=
  let n := UInt64.ofNat bytes.length
  let (s0, s1) := words bytes
  let h := (n * factor + (mix s0 s1 ^^^ n)) * factor
  ⟨h <<< 26 ||| h >>> 38⟩

/-- The hash of a text. -/
def ofText (text : String) : ContentHash := ofBytes (Utf8.encode text)

/-- The sixteen hexadecimal digits of a hash. -/
protected def toString (h : ContentHash) : String := Text.hexPadded 16 h.value.toNat

instance : ToString ContentHash := ⟨ContentHash.toString⟩

end ContentHash

end RSource
