import RSource.Span

/-! Pieces of a text by byte offset.  An offset is a boundary when no character of the text
straddles it; only spans between boundaries have a text. -/

namespace RSource.Text

/-- The number of bytes of the UTF-8 form. -/
def byteLength (text : String) : Nat := text.utf8ByteSize

/-- The offset is at most the text's length and lies inside no character. -/
def isBoundary (text : String) (offset : Nat) : Bool :=
  String.Pos.Raw.isValid text ⟨offset⟩

/-- The text a span covers, if its ends are boundaries in order. -/
def slice? (text : String) (s : Span) : Option String :=
  if s.start ≤ s.stop ∧ isBoundary text s.start ∧ isBoundary text s.stop then
    some (String.Pos.Raw.extract text ⟨s.start⟩ ⟨s.stop⟩)
  else none

/-- The text a span covers, empty when it covers none. -/
def slice (text : String) (s : Span) : String := (slice? text s).getD ""

/-- The text with the part under a span replaced. -/
def splice (text : String) (s : Span) (part : String) : String :=
  slice text ⟨0, s.start⟩ ++ part ++ slice text ⟨s.stop, byteLength text⟩

/-- The number of bytes of a list of characters. -/
def size : List Char → Nat
  | [] => 0
  | c :: cs => c.utf8Size + size cs

@[simp] theorem size_nil : size [] = 0 := rfl

@[simp] theorem size_cons (c : Char) (cs : List Char) :
    size (c :: cs) = c.utf8Size + size cs := rfl

@[simp] theorem size_append (cs ds : List Char) : size (cs ++ ds) = size cs + size ds := by
  induction cs with
  | nil => simp
  | cons c cs ih => simp [ih, Nat.add_assoc]

theorem size_pos {cs : List Char} (h : cs ≠ []) : 0 < size cs := by
  cases cs with
  | nil => exact absurd rfl h
  | cons c cs => simp only [size_cons]; have := c.utf8Size_pos; omega

theorem size_eq_byteLength (cs : List Char) : size cs = byteLength (String.ofList cs) := by
  induction cs with
  | nil => rfl
  | cons c cs ih =>
    rw [size_cons, ih, ← List.singleton_append, String.ofList_append, byteLength, byteLength,
      String.utf8ByteSize_append, ← String.singleton_eq_ofList, String.utf8ByteSize_singleton]

/-- A text has the bytes of its characters. -/
@[simp] theorem size_toList (text : String) : size text.toList = byteLength text := by
  rw [size_eq_byteLength, String.ofList_toList]

/-- The characters from a boundary on, or none when the offset is no boundary. -/
def charsFrom? (offset : Nat) : List Char → Option (List Char)
  | [] => if offset = 0 then some [] else none
  | c :: cs =>
    if offset = 0 then some (c :: cs)
    else if offset < c.utf8Size then none
    else charsFrom? (offset - c.utf8Size) cs

end RSource.Text
