import RSource.Lexeme.Scan
import RSource.Token.Set

/-! Closing double brackets.  `x[[i]]` ends with one `]]` and `x[y[1]]` with two `]`, so what two
adjacent `]` are depends on the innermost bracket that is still open. -/

namespace RSource.Lexeme

/-- The opening bracket a closing one belongs to. -/
def opener? : TokenKind → Option TokenKind
  | .rightParen => some .leftParen
  | .rightBrace => some .leftBrace
  | .rightBracket => some .leftBracket
  | .rightDoubleBracket => some .leftDoubleBracket
  | _ => none

def isOpener : TokenKind → Bool
  | .leftParen | .leftBrace | .leftBracket | .leftDoubleBracket => true
  | _ => false

/-- The open brackets, innermost first, after one more lexeme.  A closing bracket takes away the
innermost open one if it belongs to it, and nothing otherwise. -/
def track (opened : List TokenKind) (kind : TokenKind) : List TokenKind :=
  if isOpener kind then kind :: opened
  else if (opener? kind).isSome && opened.head? = opener? kind then opened.tail
  else opened

/-- Joins two adjacent `]` wherever the innermost open bracket is `[[`. -/
def pairBrackets (opened : List TokenKind) : List Lexeme → List Lexeme
  | [] => []
  | [l] => [l]
  | l :: m :: rest =>
    if l.kind = .rightBracket && m.kind = .rightBracket &&
        opened.head? = some .leftDoubleBracket then
      ⟨.rightDoubleBracket, l.chars ++ m.chars⟩ ::
        pairBrackets (track opened .rightDoubleBracket) rest
    else
      l :: pairBrackets (track opened l.kind) (m :: rest)

/-- The lexemes of R text. -/
def ofChars (cs : List Char) : List Lexeme := pairBrackets [] (scanAll cs)

/-- Joining brackets keeps the characters. -/
theorem flatMap_chars_pairBrackets (opened : List TokenKind) (ls : List Lexeme) :
    (pairBrackets opened ls).flatMap Lexeme.chars = ls.flatMap Lexeme.chars := by
  fun_induction pairBrackets opened ls with
  | case1 => rfl
  | case2 => rfl
  | case3 opened l m rest _ ih => simp [ih]
  | case4 opened l m rest _ ih => simp [ih]

theorem flatMap_chars_ofChars (cs : List Char) : (ofChars cs).flatMap Lexeme.chars = cs := by
  rw [ofChars, flatMap_chars_pairBrackets, flatMap_chars_scanAll]

/-- Puts a lexeme in front, fused with the first one when both are of the same kind of the set. -/
def fuseCons (s : TokenSet) (l : Lexeme) : List Lexeme → List Lexeme
  | [] => [l]
  | m :: rest =>
    if l.kind = m.kind && s.contains l.kind then ⟨l.kind, l.chars ++ m.chars⟩ :: rest
    else l :: m :: rest

/-- Fuses every run of neighbours of one kind of the set into one lexeme. -/
def fuse (s : TokenSet) (ls : List Lexeme) : List Lexeme := ls.foldr (fuseCons s) []

end RSource.Lexeme
