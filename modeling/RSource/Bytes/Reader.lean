import RSource.Text.Utf8

/-! Stored values.  A number takes a fixed number of bytes, the lowest first.  A text or a list is
written after its length, which takes eight bytes; a value that may be missing is written after a
byte, 1 if it is there and 0 if not.  Readers take values off the start of bytes. -/

namespace RSource

/-- Why no value can be read. -/
inductive ReadError where
  | endOfInput
  /-- A text is longer than what is left. -/
  | longText
  /-- The byte before a value that may be missing is neither 0 nor 1. -/
  | badOption (tag : Nat)
  | badText (cause : Utf8.Error)
  deriving DecidableEq, Repr

def ReadError.message : ReadError → String
  | .endOfInput => "io error: unexpected end of file"
  | .longText => "io error: "
  | .badOption tag => s!"tag for enum is not valid, found {tag}"
  | .badText cause => s!"string is not valid utf8: {cause.message}"

namespace Bytes

/-! ### Writing -/

def ofText (text : String) : Bytes :=
  let bytes := Utf8.encode text
  ofNat 8 bytes.length ++ bytes

def ofOption {α : Type} (write : α → Bytes) : Option α → Bytes
  | none => [0]
  | some a => 1 :: write a

def ofList {α : Type} (write : α → Bytes) (as : List α) : Bytes :=
  ofNat 8 as.length ++ as.flatMap write

end Bytes

/-- Takes a value off the start of bytes. -/
abbrev Reader (α : Type) : Type := StateT Bytes (Except ReadError) α

namespace Reader

variable {α : Type}

/-- The next `n` bytes; with fewer the input has ended too early, which `error` tells. -/
def take (n : Nat) (error : ReadError) : Reader Bytes := fun bytes =>
  if n ≤ bytes.length then .ok (bytes.take n, bytes.drop n) else .error error

/-- A number of `width` bytes. -/
def number (width : Nat) : Reader Nat := return (← take width .endOfInput).toNat

def text : Reader String := do
  let bytes ← take (← number 8) .longText
  match Utf8.decode bytes with
  | .ok text => return text
  | .error cause => throw (.badText cause)

def option (value : Reader α) : Reader (Option α) := do
  match ← number 1 with
  | 0 => return none
  | 1 => return some (← value)
  | tag => throw (.badOption tag)

/-- So many values in a row. -/
def times (value : Reader α) : Nat → Reader (List α)
  | 0 => return []
  | n + 1 => return (← value) :: (← times value n)

/-- Values after their number. -/
def list (value : Reader α) : Reader (List α) := do times value (← number 8)

/-- Bytes after their number. -/
def bytes : Reader Bytes := do take (← number 8) .endOfInput

end Reader

end RSource
