import RSource.Parse
import RSource.Proofs.Parser.Built
import RSource.Proofs.Parser.Reading

/-! What a parser does to its cursor.  Whatever it is built from, it goes from item to item, never
back, and reports errors where it stands (`Trace`).  So errors come in the order of their places,
and each is about the item at its place. -/

namespace RSource

/-- What an error at an item is about. -/
def Item.focus (item : Item) : Span :=
  if item.token.kind == .endOfFile then .point item.token.span.start else item.token.span

theorem Item.focus_start (item : Item) : item.focus.start = item.token.span.start := by
  rw [focus]
  split <;> rfl

namespace Cursor

/-- The errors that are reported on the way from one cursor to another. -/
inductive Trace : Cursor → List ParseError → Cursor → Prop
  | done (c : Cursor) : Trace c [] c
  | advance {c d : Cursor} {es : List ParseError} (h : Trace c.advance es d) : Trace c es d
  | report {c d : Cursor} {es : List ParseError} (problem : Problem) (h : Trace c es d) :
      Trace c (⟨c.position, problem, c.here.focus⟩ :: es) d

/-- All items, those before the cursor too. -/
def all (c : Cursor) : List Item := c.before.reverse ++ c.items

variable {c d e : Cursor} {es es' : List ParseError}

theorem Trace.append (h : Trace c es d) (h' : Trace d es' e) : Trace c (es ++ es') e := by
  induction h with
  | done => exact h'
  | advance _ ih => exact .advance (ih h')
  | report problem _ ih => exact .report problem (ih h')

theorem all_advance (c : Cursor) : c.advance.all = c.all := by
  rw [advance]
  split
  · rfl
  · split
    · rfl
    · next item rest hafter => simp [all, items, hafter]

theorem position_le_advance (c : Cursor) : c.position ≤ c.advance.position := by
  rw [advance]
  split
  · exact Nat.le_refl _
  · split
    · exact Nat.le_refl _
    · exact Nat.le_succ _

theorem getElem?_all (c : Cursor) : c.all[c.position]? = some c.here := by
  rw [all, position, ← List.length_reverse, List.getElem?_append_right (Nat.le_refl _),
    Nat.sub_self]
  rfl

/-- Errors come in the order of their places and are about the items there. -/
theorem Trace.ordered (h : Trace c es d) :
    es.Pairwise (fun e e' => e.place ≤ e'.place) ∧
      ∀ e ∈ es, c.position ≤ e.place ∧
        ∃ item, c.all[e.place]? = some item ∧ e.span = item.focus := by
  induction h with
  | done => exact ⟨.nil, fun e he => by cases he⟩
  | @advance c d es h ih =>
    rw [all_advance] at ih
    have hle := c.position_le_advance
    exact ⟨ih.1, fun e he => ⟨Nat.le_trans hle (ih.2 e he).1, (ih.2 e he).2⟩⟩
  | @report c d es problem h ih =>
    refine ⟨List.pairwise_cons.mpr ⟨fun e he => (ih.2 e he).1, ih.1⟩, fun e he => ?_⟩
    rcases List.mem_cons.mp he with rfl | he
    · exact ⟨Nat.le_refl _, c.here, c.getElem?_all, rfl⟩
    · exact ih.2 e he

end Cursor

/-- A parser leaves a trace. -/
theorem Parser.Built.trace {α : Type} {sighted : Prop} {p : Parser α} (h : Built sighted p)
    (context : Context) (c : Cursor) : c.Trace (p context c).errors (p context c).cursor := by
  induction h generalizing context c with
  | pure a => exact .done c
  | bind hp hf ihp ihf => exact (ihp context c).append (ihf _ context _)
  | look f hf => exact .done c
  | newlineBreaks n => exact .done c
  | bump => exact .advance (.done _)
  | report problem => exact .report problem (.done c)
  | within change hp ih => exact ih (change context) c

namespace ParseError

theorem firstAtEach_sublist (es : List ParseError) : ∀ last, (firstAtEach last es).Sublist es := by
  induction es with
  | nil => exact fun _ => .slnil
  | cons e es ih =>
    intro last
    rw [firstAtEach]
    split
    · exact (ih last).cons e
    · exact (ih _).cons_cons e

/-- One error is kept at each place. -/
theorem pairwise_firstAtEach (es : List ParseError) : ∀ last : Option Nat,
    es.Pairwise (fun e e' => e.place ≤ e'.place) → (∀ l ∈ last, ∀ e ∈ es, l ≤ e.place) →
    (firstAtEach last es).Pairwise (fun e e' => e.place < e'.place) ∧
      ∀ l ∈ last, ∀ e ∈ firstAtEach last es, l < e.place := by
  induction es with
  | nil => exact fun _ _ _ => ⟨.nil, fun _ _ e he => by cases he⟩
  | cons e es ih =>
    intro last hordered hlast
    obtain ⟨hfirst, hordered⟩ := List.pairwise_cons.mp hordered
    rw [firstAtEach]
    split
    · exact ih last hordered fun l hl e' he' => hlast l hl e' (List.mem_cons_of_mem _ he')
    · next hne =>
      obtain ⟨hrest, hbehind⟩ := ih (some e.place) hordered fun l hl => by
        obtain rfl := Option.some.inj hl
        exact hfirst
      refine ⟨List.pairwise_cons.mpr ⟨hbehind _ rfl, hrest⟩, fun l hl e' he' => ?_⟩
      have hle := hlast l hl e List.mem_cons_self
      have hlt : l < e.place := Nat.lt_of_le_of_ne hle fun heq => hne (heq ▸ hl)
      rcases List.mem_cons.mp he' with rfl | he'
      · exact hlt
      · exact Nat.lt_trans hlt (hbehind _ rfl e' he')

end ParseError

/-- The errors of a run stand at places in increasing order and are about the items there. -/
theorem Parser.Built.run {sighted : Prop} {p : Parser Outline} (h : Built sighted p)
    (context : Context) (tokens : List Token) :
    (p.run context tokens).2.Pairwise (fun e e' => e.place < e'.place) ∧
      ∀ e ∈ (p.run context tokens).2, ∃ item,
        (Item.ofTokens 0 false none tokens)[e.place]? = some item ∧ e.span = item.focus := by
  obtain ⟨hordered, habout⟩ := (h.trace context (.ofTokens tokens)).ordered
  obtain ⟨hitems, hbefore⟩ := Cursor.ofTokens_items tokens
  have hall : (Cursor.ofTokens tokens).all = Item.ofTokens 0 false none tokens := by
    rw [Cursor.all, hitems, hbefore]
    rfl
  refine ⟨(ParseError.pairwise_firstAtEach _ none hordered fun l hl => by cases hl).1,
    fun e he => ?_⟩
  rw [← hall]
  exact (habout e ((ParseError.firstAtEach_sublist _ none).subset he)).2

end RSource
