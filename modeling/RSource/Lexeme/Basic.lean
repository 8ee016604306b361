import RSource.Token.Basic

/-! Lexemes.  A lexeme is a piece of text with its kind; a token is a lexeme that has been given its
place, and holds a span instead of the text.  Laid end to end, lexemes give tokens that tile the
text they were cut from. -/

namespace RSource

/-- Characters that belong together, and their kind. -/
structure Lexeme where
  kind : TokenKind
  chars : List Char
  deriving DecidableEq, Repr, Inhabited

namespace Lexeme

/-- The number of bytes. -/
def size (l : Lexeme) : Nat := Text.size l.chars

/-- The lexeme as a token that starts at an offset. -/
def tokenAt (offset : Nat) (l : Lexeme) : Token := ⟨l.kind, ⟨offset, offset + l.size⟩⟩

/-- The tokens of lexemes that stand end to end from an offset on, closed by an `endOfFile`. -/
def place (offset : Nat) : List Lexeme → List Token
  | [] => [⟨.endOfFile, .point offset⟩]
  | l :: ls => l.tokenAt offset :: place (offset + l.size) ls

/-- A lexeme that is left out when it has no characters. -/
def nonempty (kind : TokenKind) (chars : List Char) : List Lexeme :=
  if chars.isEmpty then [] else [⟨kind, chars⟩]

theorem place_ne_nil (offset : Nat) (ls : List Lexeme) : place offset ls ≠ [] := by
  cases ls <;> simp [place]

@[simp] theorem length_place (offset : Nat) (ls : List Lexeme) :
    (place offset ls).length = ls.length + 1 := by
  induction ls generalizing offset with
  | nil => rfl
  | cons l ls ih => simp [place, ih]

end Lexeme

end RSource
