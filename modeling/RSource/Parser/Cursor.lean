import RSource.Token.Basic

/-! Cursors.  The grammar sees neither white space nor comments nor line ends; a cursor moves over
the other tokens only, and remembers of each whether a line end comes before it. -/

namespace RSource

/-- A token as the grammar sees it. -/
structure Item where
  /-- Where the token stands among all tokens; none for an end of file that the tokens lack. -/
  index : Option Nat
  token : Token
  /-- A line end separates the token from the last one the grammar sees. -/
  newlineBefore : Bool
  deriving DecidableEq, Repr, Inhabited

namespace Item

/-- The end of file after some tokens, of which `last` is the last. -/
def ending (last : Option Token) (newlineBefore : Bool) : Item :=
  ⟨none, ⟨.endOfFile, .point ((last.map (·.span.stop)).getD 0)⟩, newlineBefore⟩

/-- The items of tokens, closed by an end of file.  The first token has the index `place`, comes
after `last`, and has a line end before it if `newline` holds. -/
def ofTokens (place : Nat) (newline : Bool) (last : Option Token) : List Token → List Item
  | [] => if last.any (·.kind == .endOfFile) then [] else [ending last newline]
  | t :: ts =>
    if t.kind == .newline then ofTokens (place + 1) true (some t) ts
    else if t.kind.isTrivia then ofTokens (place + 1) newline (some t) ts
    else ⟨some place, t, newline⟩ :: ofTokens (place + 1) false (some t) ts

end Item

/-- A place among items: those before it, nearest first, the one at it, and those after it. -/
structure Cursor where
  before : List Item
  here : Item
  after : List Item
  deriving DecidableEq, Repr, Inhabited

namespace Cursor

/-- The cursor at the first of some tokens. -/
def ofTokens (tokens : List Token) : Cursor :=
  match Item.ofTokens 0 false none tokens with
  | item :: items => ⟨[], item, items⟩
  | [] => ⟨[], Item.ending none false, []⟩

/-- The number of items before the cursor. -/
def position (c : Cursor) : Nat := c.before.length

/-- The items from the cursor on. -/
def items (c : Cursor) : List Item := c.here :: c.after

/-- The number of items after the cursor. -/
def remaining (c : Cursor) : Nat := c.after.length

/-- The item `n` places ahead, or the last one. -/
def ahead (c : Cursor) (n : Nat) : Item :=
  (c.items[n]?).getD (c.after.getLastD c.here)

def kind (c : Cursor) : TokenKind := c.here.token.kind

def kindAhead (c : Cursor) (n : Nat) : TokenKind := (c.ahead n).token.kind

def span (c : Cursor) : Span := c.here.token.span

def newlineBefore (c : Cursor) : Bool := c.here.newlineBefore

/-- The span of the item before the cursor, empty at the start. -/
def previousSpan (c : Cursor) : Span := ((c.before.head?).map (·.token.span)).getD (.point 0)

/-- The cursor stands at an end of file. -/
def atEnd (c : Cursor) : Bool := c.kind == .endOfFile

/-- The cursor one item further.  It does not move from an end of file. -/
def advance (c : Cursor) : Cursor :=
  if c.atEnd then c
  else
    match c.after with
    | [] => c
    | item :: items => ⟨c.here :: c.before, item, items⟩

/-- The cursor at a position, or at the last item if there are fewer. -/
def moveTo (c : Cursor) (position : Nat) : Cursor :=
  let items := c.before.reverse ++ c.items
  let position := min position (items.length - 1)
  match items.drop position with
  | item :: rest => ⟨(items.take position).reverse, item, rest⟩
  | [] => c

theorem advance_atEnd {c : Cursor} (h : c.atEnd) : c.advance = c := by simp [advance, h]

end Cursor

end RSource
