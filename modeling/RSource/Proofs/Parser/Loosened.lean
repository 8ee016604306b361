import RSource.Grammar.Rule
import RSource.Proofs.Parser.Built
import RSource.Proofs.Parser.Reading

/-! Line ends that are layout.  Inside parentheses and brackets, and after an operator, more line
ends may stand without a change.  Two parsers match on such items when the second finds on the items
with more line ends what the first finds, as long as the first meets no problem. -/

namespace RSource

/-! ### Where line ends are layout -/

namespace TokenKind

/-- The brackets inside which line ends are layout. -/
def brackets : List TokenKind := [.leftParen, .leftBracket, .leftDoubleBracket]

def openers : List TokenKind := .leftBrace :: brackets

def closers : List TokenKind := [.rightParen, .rightBracket, .rightDoubleBracket, .rightBrace]

/-- The brackets and braces that stand open after tokens, innermost first.  The last token comes
first; at the end of a file nothing is open. -/
def opened : List TokenKind → List TokenKind
  | [] => []
  | k :: past =>
    if k = .endOfFile then []
    else if k ∈ openers then k :: opened past
    else if k ∈ closers then (opened past).tail
    else opened past

/-- The tokens that an operand or a name has to follow: the operators between and before operands,
but for `=`, and what stands between a name and its owner. -/
def continued : List TokenKind :=
  (Grammar.Rule.all.flatMap fun rule => rule.operators.kinds.filter (· ≠ .equal)) ++
    [.not, .question, .dollar, .at, .doubleColon, .tripleColon]

/-- A line end ends what may end, inside these brackets. -/
def linesCount (opened : List TokenKind) : Bool := !opened.head?.any brackets.contains

/-- A line end after tokens, the last of which comes first, is layout. -/
def lineIsLayout (past : List TokenKind) : Bool :=
  !linesCount (opened past) || past.head?.any continued.contains

/-- A token of this kind opens nothing, closes nothing and is no end of file. -/
def plain (k : TokenKind) : Bool :=
  k != .endOfFile && !openers.contains k && !closers.contains k

variable {k : TokenKind} {past : List TokenKind}

theorem opened_plain (h : k.plain = true) : opened (k :: past) = opened past := by
  simp only [plain, Bool.and_eq_true, bne_iff_ne, Bool.not_eq_true', List.contains_eq_mem,
    decide_eq_false_iff_not] at h
  obtain ⟨⟨hend, hopener⟩, hcloser⟩ := h
  rw [opened, if_neg hend, if_neg hopener, if_neg hcloser]

theorem opened_opener (h : k ∈ openers) : opened (k :: past) = k :: opened past := by
  have hother : ∀ k ∈ openers, k ≠ .endOfFile := by decide
  rw [opened, if_neg (hother k h), if_pos h]

theorem opened_closer (h : k ∈ closers) : opened (k :: past) = (opened past).tail := by
  have hother : ∀ k ∈ closers, k ≠ .endOfFile ∧ k ∉ openers := by decide
  rw [opened, if_neg (hother k h).1, if_neg (hother k h).2, if_pos h]

end TokenKind

open TokenKind

/-- The second items are the first with more line ends, where line ends are layout. -/
inductive Item.Loosened : List TokenKind → List Item → List Item → Prop
  | nil (past : List TokenKind) : Loosened past [] []
  | cons {past : List TokenKind} {i j : Item} {is js : List Item}
      (hkind : j.token.kind = i.token.kind) (hindex : j.index.isSome = i.index.isSome)
      (hline : j.newlineBefore = i.newlineBefore ∨
        j.newlineBefore = true ∧ lineIsLayout past = true)
      (hrest : Loosened (i.token.kind :: past) is js) : Loosened past (i :: is) (j :: js)

theorem Item.Loosened.length_eq {past : List TokenKind} {is js : List Item}
    (h : Loosened past is js) : js.length = is.length := by
  induction h with
  | nil => rfl
  | cons _ _ _ _ ih => rw [List.length_cons, List.length_cons, ih]

namespace Cursor

/-- The kinds of the items before the cursor, nearest first. -/
def past (c : Cursor) : List TokenKind := c.before.map (·.token.kind)

structure Loosened (c d : Cursor) : Prop where
  items : Item.Loosened c.past c.items d.items
  closed : ∃ item, c.items.getLast? = some item ∧ item.token.kind = .endOfFile

variable {c d : Cursor} {s : List TokenKind}

namespace Loosened

theorem kind_eq (h : c.Loosened d) : d.kind = c.kind := by
  cases h.items with
  | cons hkind => exact hkind

theorem isSome_index (h : c.Loosened d) : d.here.index.isSome = c.here.index.isSome := by
  cases h.items with
  | cons _ hindex => exact hindex

theorem line (h : c.Loosened d) : d.newlineBefore = c.newlineBefore ∨
    d.newlineBefore = true ∧ lineIsLayout c.past = true := by
  cases h.items with
  | cons _ _ hline => exact hline

theorem atEnd_eq (h : c.Loosened d) : d.atEnd = c.atEnd := by rw [atEnd, atEnd, h.kind_eq]

theorem remaining_eq (h : c.Loosened d) : d.remaining = c.remaining :=
  Nat.succ.inj h.items.length_eq

end Loosened

/-- Before the end there is a next item. -/
theorem Loosened.after_eq (h : c.Loosened d) (hend : c.atEnd = false) :
    c.advance.past = c.kind :: c.past ∧ c.after = c.advance.items := by
  have hkind : c.here.token.kind ≠ .endOfFile := by simpa [atEnd, kind] using hend
  obtain ⟨item, hlast, hitem⟩ := h.closed
  rw [Cursor.advance, if_neg (by simp [hend])]
  split
  · next hafter =>
    rw [Cursor.items, hafter, List.getLast?_singleton, Option.some_inj] at hlast
    exact absurd (hlast ▸ hitem) hkind
  · next hafter => exact ⟨rfl, hafter⟩

theorem Loosened.advance (h : c.Loosened d) (hend : c.atEnd = false) :
    c.advance.Loosened d.advance := by
  obtain ⟨hpast, hafter⟩ := h.after_eq hend
  obtain ⟨item, hlast, hitem⟩ := h.closed
  have hrest : Item.Loosened c.advance.past c.advance.items d.after := by
    rw [hpast, ← hafter]
    cases h.items with
    | cons _ _ _ hrest => exact hrest
  have hd : d.advance.items = d.after := by
    rw [Cursor.advance, if_neg (by rw [h.atEnd_eq, hend]; exact Bool.false_ne_true)]
    split
    · next hnone =>
      rw [hnone] at hrest
      cases hrest
    · next hsome => exact hsome.symm
  refine ⟨hd ▸ hrest, item, ?_, hitem⟩
  rw [Cursor.items, hafter] at hlast
  rwa [Cursor.items, ← List.getLast?_cons_cons (a := c.here)]

/-- The next item is of the same kind in both. -/
theorem Loosened.kindAhead_eq (h : c.Loosened d) (hend : c.atEnd = false) :
    d.kindAhead 1 = c.kindAhead 1 := by
  rw [← kind_advance hend, ← kind_advance (by rw [h.atEnd_eq, hend])]
  exact (h.advance hend).kind_eq

/-- These brackets stand open at the cursor. -/
def Inside (s : List TokenKind) (c : Cursor) : Prop := opened c.past = s

/-- The cursor stands inside these brackets, and not after a token that is continued. -/
structure Settled (s : List TokenKind) (c : Cursor) : Prop where
  inside : c.Inside s
  last : ∀ k ∈ c.past.head?, k ∉ continued

section

variable {k : TokenKind} (h : c.Inside s) (hpast : d.past = k :: c.past)

include h hpast

theorem Inside.plain (hk : k.plain = true) : d.Inside s := by
  rw [Inside, hpast, opened_plain hk]
  exact h

theorem Inside.opener (hk : k ∈ openers) : d.Inside (k :: s) := by
  rw [Inside, hpast, opened_opener hk]
  exact congrArg (k :: ·) h

theorem Inside.closer (hk : k ∈ closers) : d.Inside s.tail := by
  rw [Inside, hpast, opened_closer hk]
  exact congrArg List.tail h

end

theorem Inside.settled {k : TokenKind} {past : List TokenKind} (h : d.Inside s)
    (hpast : d.past = k :: past) (hk : k ∉ continued) : d.Settled s := by
  refine ⟨h, fun j hj => ?_⟩
  rw [hpast] at hj
  exact Option.some.inj hj ▸ hk

/-- Where line ends count, there are no more of them. -/
theorem Loosened.line_eq (h : c.Loosened d) (hc : c.Settled s) (hs : linesCount s = true) :
    d.newlineBefore = c.newlineBefore := by
  refine h.line.resolve_right fun ⟨_, hlayout⟩ => ?_
  rw [lineIsLayout, hc.inside, hs, Bool.not_true, Bool.false_or, Option.any_eq_true] at hlayout
  obtain ⟨k, hk, hcontinued⟩ := hlayout
  exact hc.last k hk (by simpa using hcontinued)

end Cursor

end RSource
