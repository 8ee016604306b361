import RSource.Lexeme.Basic
import RSource.Proofs.Parser.Reading

/-! Steps of a cursor.  A cursor over lexemes that are written end to end takes up those that the
grammar sees, one after another, and passes over the layout between them. -/

namespace RSource.Cursor

variable {place : Nat} {k : TokenKind} {newline : Bool} {l : Lexeme} {ls : List Lexeme}
variable {c d : Cursor} {x y : Item} {items : List Item}

theorem items_advance (h : c.items = x :: y :: items) (hx : x.token.kind ≠ .endOfFile) :
    c.advance.items = y :: items ∧ c.advance.remaining < c.remaining := by
  obtain ⟨rfl, hafter⟩ := List.cons.inj h
  have hinside : c.atEnd = false := by simpa [atEnd, kind] using hx
  rw [advance, if_neg (by simp [hinside]), hafter]
  exact ⟨rfl, by simp [remaining, hafter]⟩

/-- At `c` stands a token of the kind with the index `place`, and the cursor comes to `d` after it.
-/
structure Takes (place : Nat) (k : TokenKind) (c d : Cursor) : Prop where
  index : c.here.index = some place
  kind : c.kind = k
  inside : k ≠ .endOfFile
  remaining : c.advance.remaining < c.remaining
  next : d = c.advance

/-- From `c` on stand the lexemes, the last ones of a text.  The first of them has the index
`place`, and `newline` tells whether a line end comes before it. -/
def At (place : Nat) (newline : Bool) (ls : List Lexeme) (c : Cursor) : Prop :=
  ∃ offset last, c.items = Item.ofTokens place newline last (Lexeme.place offset ls)

theorem at_ofTokens (ls : List Lexeme) :
    (Cursor.ofTokens (Lexeme.place 0 ls)).At 0 false ls :=
  ⟨0, none, (ofTokens_items _).1⟩

theorem At.ended (h : c.At place newline []) : c.kind = .endOfFile := by
  obtain ⟨offset, last, hitems⟩ := h
  obtain ⟨hhere, -⟩ := List.cons.inj (hitems.trans rfl)
  rw [kind, hhere]

theorem At.trivia (h : c.At place newline (l :: ls)) (hl : l.kind.isTrivia = true) :
    c.At (place + 1) newline ls := by
  obtain ⟨offset, last, hitems⟩ := h
  exact ⟨offset + l.size, _, hitems.trans (Item.ofTokens_trivia hl)⟩

theorem At.line (h : c.At place newline (l :: ls)) (hl : l.kind = .newline) :
    c.At (place + 1) true ls := by
  obtain ⟨offset, last, hitems⟩ := h
  exact ⟨offset + l.size, _, hitems.trans (Item.ofTokens_newline hl)⟩

/-- The cursor takes up a lexeme that the grammar sees. -/
theorem At.takes (h : c.At place newline (l :: ls)) (hl : l.kind.isLayout = false)
    (hend : l.kind ≠ .endOfFile) :
    c.Takes place l.kind c.advance ∧ c.newlineBefore = newline ∧
      c.advance.At (place + 1) false ls := by
  obtain ⟨offset, last, hitems⟩ := h
  have hitems := hitems.trans (Item.ofTokens_seen hl)
  obtain ⟨item, hlast, -⟩ := Item.getLast?_ofTokens (Lexeme.place (offset + l.size) ls) (place + 1)
    false (some (l.tokenAt offset)) fun hnil => absurd hnil (Lexeme.place_ne_nil _ _)
  -- An end of file stands behind every lexeme, so that there is a place to go to.
  cases hrest : Item.ofTokens (place + 1) false (some (l.tokenAt offset))
      (Lexeme.place (offset + l.size) ls) with
  | nil =>
    rw [hrest] at hlast
    cases hlast
  | cons y items =>
    rw [hrest] at hitems
    obtain ⟨hadvance, hless⟩ := items_advance hitems hend
    obtain ⟨hhere, -⟩ := List.cons.inj hitems
    refine ⟨⟨?_, ?_, hend, hless, rfl⟩, ?_, _, _, hadvance.trans hrest.symm⟩
    · rw [hhere]
    · rw [kind, hhere]
      rfl
    · rw [newlineBefore, hhere]

end RSource.Cursor
