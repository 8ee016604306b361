import RSource.Proofs.Parser.Built
import RSource.Proofs.Parser.Reading

/-! Parsers that do the same wherever few items are left.  Two parsers may differ where they have
many items before them, as those do that nest expressions to different depths.  A parser that takes
up an item first leaves fewer items to the parsers after it, so that it asks less of them. -/

namespace RSource.Parser

variable {tokens : List Token} {α β : Type} {c : Cursor} {n : Nat}

/-- A parser that is built from a few goes forward. -/
theorem Built.reads {sighted : Prop} {p : Parser α} (h : Built sighted p) (context : Context)
    (hover : c.Over tokens) : ∃ xs, c.Reads xs (p context c).cursor := by
  induction h generalizing context c with
  | pure a => exact ⟨[], .refl c⟩
  | bind hp hf ihp ihf =>
    obtain ⟨xs, hxs⟩ := ihp context hover
    obtain ⟨ys, hys⟩ := ihf _ context (hover.reads hxs)
    exact ⟨xs ++ ys, hxs.trans hys⟩
  | look f hf => exact ⟨[], .refl c⟩
  | newlineBreaks n => exact ⟨[], .refl c⟩
  | bump =>
    cases hend : c.atEnd with
    | true =>
      have hread : c.Reads [] c.advance := by rw [Cursor.advance_atEnd hend]; exact .refl c
      exact ⟨[], hread⟩
    | false => exact ⟨[c.here], hover.advance hend⟩
  | report problem => exact ⟨[], .refl c⟩
  | within change hp ih => exact ih (change context) hover

/-- Both parsers do the same at a cursor, whatever the region, and go forward from there. -/
def AlikeAt (c : Cursor) (p q : Parser α) : Prop :=
  ∀ context, p context c = q context c ∧ ∃ xs, c.Reads xs (p context c).cursor

/-- Both parsers do the same wherever fewer than `n` items are left. -/
def Alike (tokens : List Token) (n : Nat) (p q : Parser α) : Prop :=
  ∀ c : Cursor, c.Over tokens → c.remaining < n → AlikeAt c p q

namespace AlikeAt

theorem refl {p : Parser α} (h : Built True p) (hover : c.Over tokens) : AlikeAt c p p :=
  fun context => ⟨rfl, h.reads context hover⟩

theorem bind {p q : Parser α} {f g : α → Parser β} (h : AlikeAt c p q)
    (hf : ∀ context, AlikeAt (p context c).cursor (f (p context c).value) (g (p context c).value)) :
    AlikeAt c (p >>= f) (q >>= g) := by
  intro context
  obtain ⟨hpq, xs, hxs⟩ := h context
  obtain ⟨hfg, ys, hys⟩ := hf context context
  exact ⟨by rw [bind_apply, bind_apply, ← hpq, hfg], xs ++ ys, hxs.trans hys⟩

theorem look {f : Cursor → α} {g g' : α → Parser β} (h : AlikeAt c (g (f c)) (g' (f c))) :
    AlikeAt c (look f >>= g) (look f >>= g') := h

theorem newlineBreaks {g g' : Bool → Parser β} (m : Nat) (h : ∀ b, AlikeAt c (g b) (g' b)) :
    AlikeAt c (newlineBreaks m >>= g) (newlineBreaks m >>= g') :=
  fun context => h (context.newlinesTerminate && (c.ahead m).newlineBefore) context

theorem within {p q : Parser α} (change : Context → Context) (h : AlikeAt c p q) :
    AlikeAt c (within change p) (within change q) :=
  fun context => h (change context)

theorem ite {condition : Prop} [Decidable condition] {p q p' q' : Parser α}
    (hp : condition → AlikeAt c p p') (hq : ¬condition → AlikeAt c q q') :
    AlikeAt c (if condition then p else q) (if condition then p' else q') := by
  split
  · next h => exact hp h
  · next h => exact hq h

theorem map {p q : Parser α} (f : α → β) (h : AlikeAt c p q) :
    AlikeAt c (do return f (← p)) (do return f (← q)) :=
  h.bind fun _ _ => ⟨rfl, [], .refl _⟩

/-- What comes after the parsers has no more items left than they have. -/
theorem bind_alike {p q : Parser α} {f g : α → Parser β} (h : AlikeAt c p q) (hover : c.Over tokens)
    (hc : c.remaining < n) (hf : ∀ a, Alike tokens n (f a) (g a)) :
    AlikeAt c (p >>= f) (q >>= g) := by
  refine h.bind fun context => ?_
  obtain ⟨-, xs, hxs⟩ := h context
  have hremaining := hxs.remaining
  exact hf _ _ (hover.reads hxs) (by omega)

end AlikeAt

namespace Alike

theorem refl {p : Parser α} (h : Built True p) : Alike tokens n p p :=
  fun _ hover _ => .refl h hover

theorem bind {p q : Parser α} {f g : α → Parser β} (h : Alike tokens n p q)
    (hf : ∀ a, Alike tokens n (f a) (g a)) : Alike tokens n (p >>= f) (q >>= g) :=
  fun c hover hc => (h c hover hc).bind_alike hover hc hf

theorem look {f : Cursor → α} {g g' : α → Parser β} (h : ∀ a, Alike tokens n (g a) (g' a)) :
    Alike tokens n (look f >>= g) (look f >>= g') :=
  fun c hover hc => h (f c) c hover hc

theorem ite {condition : Prop} [Decidable condition] {p q p' q' : Parser α}
    (hp : Alike tokens n p p') (hq : Alike tokens n q q') :
    Alike tokens n (if condition then p else q) (if condition then p' else q') :=
  fun c hover hc => .ite (fun _ => hp c hover hc) fun _ => hq c hover hc

theorem within {p q : Parser α} (change : Context → Context) (h : Alike tokens n p q) :
    Alike tokens n (within change p) (within change q) :=
  fun c hover hc => (h c hover hc).within change

theorem map {p q : Parser α} (f : α → β) (h : Alike tokens n p q) :
    Alike tokens n (do return f (← p)) (do return f (← q)) :=
  fun c hover hc => (h c hover hc).map f

theorem row {p q : Part} {ps qs : List Part} (h : Alike tokens n p q)
    (hs : Alike tokens n (row ps) (row qs)) : Alike tokens n (row (p :: ps)) (row (q :: qs)) :=
  h.bind fun _ => hs.map _

theorem node {ps qs : List Part} (kind : NodeKind)
    (h : Alike tokens n (Parser.row ps) (Parser.row qs)) :
    Alike tokens n (node kind ps) (node kind qs) :=
  h.map _

theorem one {p q : Parser Outline} (h : Alike tokens n p q) :
    Alike tokens n (one p) (one q) :=
  h.map _

theorem manyFor {p q : Parser (Option (List Outline))} (h : Alike tokens n p q)
    (items : List Item) : Alike tokens n (manyFor p items) (manyFor q items) := by
  induction items with
  | nil => exact .refl Built.nil
  | cons item items ih =>
    refine h.bind fun os => ?_
    cases os with
    | none => exact .refl Built.nil
    | some os => exact ih.map _

theorem many {p q : Parser (Option (List Outline))} (h : Alike tokens n p q) :
    Alike tokens n (many p) (many q) :=
  .look h.manyFor

theorem growFor {step step' : Outline → Parser (Option Outline)}
    (h : ∀ o, Alike tokens n (step o) (step' o)) (items : List Item) :
    ∀ o, Alike tokens n (growFor step items o) (growFor step' items o) := by
  induction items with
  | nil => exact fun o => .refl (Built.pure o)
  | cons item items ih =>
    refine fun o => (h o).bind fun p => ?_
    cases p with
    | none => exact .refl (Built.pure o)
    | some p => exact ih p

theorem grow {step step' : Outline → Parser (Option Outline)}
    (h : ∀ o, Alike tokens n (step o) (step' o)) (o : Outline) :
    Alike tokens n (grow step o) (grow step' o) :=
  .look fun items => growFor h items o

end Alike

/-! ### Taking up an item -/

/-- Both parsers do the same wherever fewer than `n` items are left and the end is not reached. -/
def AlikeInside (tokens : List Token) (n : Nat) (p q : Parser α) : Prop :=
  ∀ c : Cursor, c.Over tokens → c.remaining < n → c.atEnd = false → AlikeAt c p q

namespace AlikeInside

variable {p q : Parser α}

/-- Where an item is taken up first, the parts after it have fewer items left. -/
theorem led {p : Part} {ps qs : List Part} (h : Alike tokens n (row ps) (row qs))
    (hp : ∀ context c, (p context c).cursor = c.advance) :
    AlikeInside tokens (n + 1) (row (p :: ps)) (row (p :: qs)) := by
  intro c hover hc hend
  have hread : c.Reads [c.here] c.advance := hover.advance hend
  have hfirst : AlikeAt c p p := fun context => ⟨rfl, [c.here], (hp context c).symm ▸ hread⟩
  refine hfirst.bind fun context => ?_
  have hremaining := hread.remaining
  rw [List.length_singleton] at hremaining
  rw [hp context]
  exact (h _ (hover.reads hread) (by omega)).map _

theorem mono {m : Nat} (h : AlikeInside tokens n p q) (hmn : m ≤ n) :
    AlikeInside tokens m p q :=
  fun c hover hc => h c hover (Nat.lt_of_lt_of_le hc hmn)

theorem bind {f g : α → Parser β} (h : AlikeInside tokens n p q)
    (hf : ∀ a, Alike tokens n (f a) (g a)) : AlikeInside tokens n (p >>= f) (q >>= g) :=
  fun c hover hc hend => (h c hover hc hend).bind_alike hover hc hf

theorem map (f : α → β) (h : AlikeInside tokens n p q) :
    AlikeInside tokens n (do return f (← p)) (do return f (← q)) :=
  fun c hover hc hend => (h c hover hc hend).map f

theorem row {p q : Part} {ps qs : List Part} (h : AlikeInside tokens n p q)
    (hs : Alike tokens n (row ps) (row qs)) :
    AlikeInside tokens n (row (p :: ps)) (row (q :: qs)) :=
  h.bind fun _ => hs.map _

theorem node {ps qs : List Part} (kind : NodeKind)
    (h : AlikeInside tokens n (Parser.row ps) (Parser.row qs)) :
    AlikeInside tokens n (node kind ps) (node kind qs) :=
  h.map _

/-- Where a token stands, the end is not reached. -/
theorem at_kind {k : TokenKind} (h : AlikeInside tokens n p q) (hover : c.Over tokens)
    (hc : c.remaining < n) (hk : c.kind = k) (hend : k ≠ .endOfFile) : AlikeAt c p q :=
  h c hover hc (beq_eq_false_iff_ne.mpr (hk ▸ hend))

theorem ite_isAt {k : TokenKind} {p' q' : Parser α} (h : AlikeInside tokens n p q)
    (hend : k ≠ .endOfFile) (h' : Alike tokens n p' q') :
    Alike tokens n (do if ← isAt k then p else p') (do if ← isAt k then q else q') :=
  fun c hover hc => .look (.ite (fun hat => h.at_kind hover hc (beq_iff_eq.mp hat) hend)
    fun _ => h' c hover hc)

end AlikeInside

end RSource.Parser
