import RSource.Parser.Basic

/-! Parsers that are built from a few: those that look, take up an item, report a problem or read in
another region, one after another.  What holds of these and is kept by sequence holds of the whole
grammar.  A parser that is not sighted looks at the kinds of items and at the line ends between
them, but not at where they stand in the text. -/

namespace RSource

/-- The item without its place in the text. -/
def Item.bare (item : Item) : Item := { item with token := ⟨item.token.kind, .point 0⟩ }

namespace Cursor

def bare (c : Cursor) : Cursor := ⟨c.before.map Item.bare, c.here.bare, c.after.map Item.bare⟩

variable (c : Cursor)

@[simp] theorem kind_bare : c.bare.kind = c.kind := rfl

@[simp] theorem atEnd_bare : c.bare.atEnd = c.atEnd := rfl

@[simp] theorem remaining_bare : c.bare.remaining = c.remaining := List.length_map _

@[simp] theorem items_bare : c.bare.items = c.items.map Item.bare := rfl

theorem ahead_bare (n : Nat) : c.bare.ahead n = (c.ahead n).bare := by
  have hlast : c.bare.after.getLastD c.bare.here = (c.after.getLastD c.here).bare := by
    rw [bare]
    cases c.after.eq_nil_or_concat with
    | inl h => rw [h]; rfl
    | inr h =>
      obtain ⟨items, item, h⟩ := h
      simp [h]
  rw [ahead, ahead, hlast, items_bare, List.getElem?_map]
  cases c.items[n]? with
  | none => rfl
  | some item => rfl

@[simp] theorem kindAhead_bare (n : Nat) : c.bare.kindAhead n = c.kindAhead n := by
  rw [kindAhead, kindAhead, ahead_bare]
  rfl

theorem advance_bare : c.bare.advance = c.advance.bare := by
  rw [advance, advance, atEnd_bare]
  split
  · rfl
  · cases hafter : c.after with
    | nil => simp [bare, hafter]
    | cons item items => simp [bare, hafter]

end Cursor

namespace Parser

@[simp] theorem look_bind {α β : Type} (f : Cursor → α) (g : α → Parser β) (context : Context)
    (c : Cursor) : (look f >>= g) context c = g (f c) context c := rfl

@[simp] theorem newlineBreaks_bind {β : Type} (n : Nat) (g : Bool → Parser β) (context : Context)
    (c : Cursor) : (newlineBreaks n >>= g) context c =
      g (context.newlinesTerminate && (c.ahead n).newlineBefore) context c := rfl

/-! ### Repetition

A part is tried once for every item; which items they are does not matter. -/

theorem manyFor_replicate (p : Parser (Option (List Outline))) (items : List Item) :
    manyFor p (List.replicate items.length default) = manyFor p items := by
  induction items with
  | nil => rfl
  | cons item items ih =>
    rw [List.length_cons, List.replicate_succ, manyFor, manyFor, ih]

theorem many_eq (p : Parser (Option (List Outline))) :
    many p = look (fun c => c.items.length) >>= fun n => manyFor p (List.replicate n default) := by
  funext context c
  rw [look_bind, manyFor_replicate]
  rfl

theorem growFor_replicate (step : Outline → Parser (Option Outline)) (items : List Item) : ∀ o,
    growFor step (List.replicate items.length default) o = growFor step items o := by
  induction items with
  | nil => exact fun _ => rfl
  | cons item items ih =>
    intro o
    rw [List.length_cons, List.replicate_succ, growFor, growFor]
    congr
    funext p
    cases p with
    | none => rfl
    | some p => exact ih p

theorem grow_eq (step : Outline → Parser (Option Outline)) (o : Outline) :
    grow step o = look (fun c => c.items.length) >>= fun n =>
      growFor step (List.replicate n default) o := by
  funext context c
  rw [look_bind, growFor_replicate]
  rfl

/-! ### Building -/

/-- The parser is built from those that look, read and report.  What it looks at does not change
when the places of items are erased, unless it is sighted. -/
inductive Built (sighted : Prop) : {α : Type} → Parser α → Prop
  | pure {α : Type} (a : α) : Built sighted (Pure.pure a : Parser α)
  | bind {α β : Type} {p : Parser α} {f : α → Parser β} (hp : Built sighted p)
      (hf : ∀ a, Built sighted (f a)) : Built sighted (p >>= f)
  | look {α : Type} (f : Cursor → α) (hf : sighted ∨ ∀ c, f c.bare = f c) :
      Built sighted (look f)
  | newlineBreaks (n : Nat) : Built sighted (newlineBreaks n)
  | bump : Built sighted bump
  | report (problem : Problem) : Built sighted (report problem)
  | within {α : Type} {p : Parser α} (change : Context → Context) (hp : Built sighted p) :
      Built sighted (within change p)

namespace Built

variable {α : Type} {sighted : Prop}

theorem ite {condition : Prop} [Decidable condition] {p q : Parser α} (hp : Built sighted p)
    (hq : Built sighted q) : Built sighted (if condition then p else q) := by
  split
  · exact hp
  · exact hq

/-! ### Looking and reading -/

theorem kind : Built sighted kind := look _ (.inr Cursor.kind_bare)

theorem isAt (k : TokenKind) : Built sighted (isAt k) := look _ (.inr fun c => by simp)

theorem isIn (set : TokenSet) : Built sighted (isIn set) := look _ (.inr fun c => by simp)

theorem atEnd : Built sighted atEnd := look _ (.inr Cursor.atEnd_bare)

theorem expect (k : TokenKind) (problem : TokenKind → Problem) :
    Built sighted (expect k problem) :=
  (isAt k).bind fun _ => bump.ite (kind.bind fun _ => (report _).bind fun _ => pure _)

theorem eat (k : TokenKind) : Built sighted (eat k) := (isAt k).bind fun _ => bump.ite (pure _)

/-! ### Combining -/

theorem found {p : Parser α} (hp : Built sighted p) :
    Built sighted (do return some (← p)) :=
  hp.bind fun _ => pure _

theorem one {p : Parser Outline} (hp : Built sighted p) : Built sighted (one p) :=
  hp.bind fun _ => pure _

theorem nil : Built sighted (Parser.row []) := pure _

theorem row {p : Part} {ps : List Part} (hp : Built sighted p) (hps : Built sighted (row ps)) :
    Built sighted (Parser.row (p :: ps)) :=
  hp.bind fun _ => hps.bind fun _ => pure _

theorem node {ps : List Part} (kind : NodeKind) (hps : Built sighted (Parser.row ps)) :
    Built sighted (node kind ps) :=
  hps.bind fun _ => pure _

theorem leaf (kind : NodeKind) : Built sighted (leaf kind) := (bump.row nil).node kind

theorem manyFor {p : Parser (Option (List Outline))} (hp : Built sighted p) (items : List Item) :
    Built sighted (manyFor p items) := by
  induction items with
  | nil => exact pure _
  | cons item items ih =>
    refine hp.bind fun os => ?_
    cases os with
    | none => exact pure _
    | some os => exact ih.bind fun _ => pure _

theorem many {p : Parser (Option (List Outline))} (hp : Built sighted p) :
    Built sighted (many p) := by
  rw [many_eq]
  exact (look _ (.inr fun c => by simp)).bind fun n => hp.manyFor _

theorem growFor {step : Outline → Parser (Option Outline)} (hstep : ∀ o, Built sighted (step o))
    (items : List Item) : ∀ o, Built sighted (growFor step items o) := by
  induction items with
  | nil => exact fun o => pure o
  | cons item items ih =>
    refine fun o => (hstep o).bind fun p => ?_
    cases p with
    | none => exact pure _
    | some p => exact ih p

theorem grow {step : Outline → Parser (Option Outline)} (hstep : ∀ o, Built sighted (step o))
    (o : Outline) : Built sighted (grow step o) := by
  rw [grow_eq]
  exact (look _ (.inr fun c => by simp)).bind fun n => growFor hstep _ o

theorem bumpWhile {p : Cursor → Bool} (hp : sighted ∨ ∀ c, p c.bare = p c) :
    Built sighted (bumpWhile p) :=
  many ((look _ (hp.imp_right fun h c => by rw [Cursor.atEnd_bare, h])).bind fun _ =>
    bump.found.ite (pure _))

end Built

end Parser

end RSource
