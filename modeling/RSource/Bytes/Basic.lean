/-! Bytes, and numbers written as a fixed number of bytes, the lowest first. -/

namespace RSource

abbrev Bytes : Type := List UInt8

namespace Bytes

/-- The lowest `width` bytes of a number. -/
def ofNat : Nat → Nat → Bytes
  | 0, _ => []
  | width + 1, n => UInt8.ofNat (n % 256) :: ofNat width (n / 256)

/-- The number that bytes write. -/
def toNat : Bytes → Nat
  | [] => 0
  | b :: bs => b.toNat + 256 * toNat bs

/-- The numbers below this one are those that `width` bytes can write. -/
def capacity : Nat → Nat
  | 0 => 1
  | width + 1 => 256 * capacity width

@[simp] theorem length_ofNat (width n : Nat) : (ofNat width n).length = width := by
  induction width generalizing n with
  | zero => rfl
  | succ width ih => simp [ofNat, ih]

theorem toNat_ofNat (width n : Nat) : toNat (ofNat width n) = n % capacity width := by
  induction width generalizing n with
  | zero => simp [ofNat, toNat, capacity, Nat.mod_one]
  | succ width ih => simp [ofNat, toNat, capacity, ih, Nat.mod_mul]

end Bytes

end RSource
