import RSource.Proofs.Grammar.Production
import RSource.Proofs.Parser.Built

/-! What parsers make of the items they read.  A part fits a language if the tokens of its row are
the items it reads, in order, and if the row is in the language and every node of it has a row of
children that its kind may have.  For strict trees the latter holds only where there is no error.
Every combinator keeps to this, with the operation on languages that it stands for. -/

namespace RSource

open scoped Computability

/-- A row holds the items read from `c` on, and belongs to a language unless there are errors that
the rigor does not admit. -/
structure Fitting (tokens : List Token) (rigor : Rigor) (c : Cursor) (L : Language Outline)
    (o : Outcome (List Outline)) : Prop where
  reads : ∃ xs, c.Reads xs o.cursor ∧ Outline.forestTokens o.value = xs.filterMap Item.index
  derived : rigor.Admits o.errors → o.value ∈ L ∧ Outline.ForestDerived tokens rigor o.value

namespace Fitting

variable {tokens : List Token} {rigor : Rigor} {c : Cursor} {L M : Language Outline}

/-- A row that is taken up in a larger one: what follows is read from where the row ends. -/
theorem append {os ps : List Outline} {d e : Cursor}
    {es fs : List ParseError} (h : Fitting tokens rigor c L ⟨os, d, es⟩)
    (h' : Fitting tokens rigor d M ⟨ps, e, fs⟩) :
    Fitting tokens rigor c (L * M) ⟨os ++ ps, e, es ++ fs⟩ := by
  obtain ⟨xs, hxs, hos⟩ := h.reads
  obtain ⟨ys, hys, hps⟩ := h'.reads
  simp only at hos hps
  refine ⟨⟨xs ++ ys, hxs.trans hys, by simp [hos, hps]⟩, fun hadmits => ?_⟩
  obtain ⟨hadmits, hadmits'⟩ := Rigor.admits_append.mp hadmits
  exact ⟨Language.mem_mul.mpr
      ⟨os, (h.derived hadmits).1, ps, (h'.derived hadmits').1, rfl⟩,
    Outline.forestDerived_append.mpr ⟨(h.derived hadmits).2, (h'.derived hadmits').2⟩⟩

theorem cursor_over {o : Outcome (List Outline)} (hover : c.Over tokens)
    (h : Fitting tokens rigor c L o) : o.cursor.Over tokens :=
  let ⟨_, hxs, _⟩ := h.reads
  hover.reads hxs

/-- A row without tokens is read without moving. -/
theorem cursor_eq {o : Outcome (List Outline)} (hover : c.Over tokens)
    (h : Fitting tokens rigor c L o) (hnone : Outline.forestTokens o.value = []) :
    o.cursor = c := by
  obtain ⟨xs, hxs, htokens⟩ := h.reads
  rw [hnone] at htokens
  obtain rfl := hover.eq_nil hxs htokens.symm
  exact hxs.eq_of_nil

/-- A row with tokens begins with the one at the cursor. -/
theorem head?_tokens {o : Outcome (List Outline)} (hover : c.Over tokens)
    (h : Fitting tokens rigor c L o) (hsome : Outline.forestTokens o.value ≠ []) :
    (Outline.forestTokens o.value).head? = c.here.index ∧ c.here.index ≠ none := by
  obtain ⟨xs, hxs, htokens⟩ := h.reads
  cases xs with
  | nil => exact absurd htokens hsome
  | cons x xs =>
    have hx : x = c.here := (List.cons.inj hxs.items).1.symm
    obtain ⟨i, hi⟩ := hover.index hxs List.mem_cons_self
    rw [htokens, List.filterMap_cons_some hi, ← hx, hi]
    exact ⟨rfl, by simp⟩

end Fitting

namespace Parser

/-- From every cursor that satisfies `pre`, the part gives a row that fits the language. -/
def Fits (tokens : List Token) (rigor : Rigor) (pre : Cursor → Prop) (p : Part)
    (L : Language Outline) : Prop :=
  ∀ context c, c.Over tokens → pre c → Fitting tokens rigor c L (p context c)

/-- The parser reads nothing and finds no problem; what it gives and the cursor are in relation. -/
def Tests {α : Type} (p : Parser α) (Q : α → Cursor → Prop) : Prop :=
  ∀ context c, (p context c).cursor = c ∧ (p context c).errors = [] ∧ Q (p context c).value c

/-- The outline that a parser gives, if any, as a row. -/
def maybe (p : Parser (Option Outline)) : Part := return (← p).toList

/-- The row that a parser gives, if any. -/
def flat (p : Parser (Option (List Outline))) : Part := return (← p).getD []

variable {tokens : List Token} {rigor : Rigor} {α : Type}
variable {pre pre' : Cursor → Prop} {p q : Part} {L M : Language Outline}

theorem Fits.weaken (h : Fits tokens rigor pre p L) (hpre : ∀ c, pre' c → pre c) (hL : L ≤ M) :
    Fits tokens rigor pre' p M := fun context c hover hc =>
  have hfit := h context c hover (hpre c hc)
  ⟨hfit.reads, fun hadmits => (hfit.derived hadmits).imp_left (@hL _)⟩

theorem Fits.mono (h : Fits tokens rigor pre p L) (hL : L ≤ M) : Fits tokens rigor pre p M :=
  h.weaken (fun _ hc => hc) hL

theorem Fits.of_pre (h : Fits tokens rigor (fun _ => True) p L) : Fits tokens rigor pre p L :=
  h.weaken (fun _ _ => trivial) le_rfl

theorem Fits.here {c : Cursor} (h : Fits tokens rigor (· = c) p L) (context : Context)
    (hover : c.Over tokens) : Fitting tokens rigor c L (p context c) := h context c hover rfl

theorem Fits.of_true (h : Fits tokens rigor (fun _ => True) p L) (context : Context) {c : Cursor}
    (hover : c.Over tokens) : Fitting tokens rigor c L (p context c) := h context c hover trivial

theorem fits_nil (hL : [] ∈ L) : Fits tokens rigor pre (pure []) L := fun _ c _ _ =>
  ⟨⟨[], .refl c, rfl⟩, fun _ => ⟨hL, trivial⟩⟩

/-! ### Rows and nodes -/

/-- One part after another, where the first leads to a cursor that the second asks for. -/
theorem Fits.cons_of {ps : List Part} (mid : Cursor → Prop) (h : Fits tokens rigor pre p L)
    (hmid : ∀ context c, c.Over tokens → pre c → mid (p context c).cursor)
    (h' : Fits tokens rigor mid (row ps) M) : Fits tokens rigor pre (row (p :: ps)) (L * M) := by
  intro context c hover hc
  have hfirst := h context _ hover hc
  have hsecond := h' context _ (hfirst.cursor_over hover) (hmid context c hover hc)
  simpa [row, bind_apply] using hfirst.append hsecond

theorem Fits.cons {ps : List Part} (h : Fits tokens rigor pre p L)
    (h' : Fits tokens rigor (fun _ => True) (row ps) M) :
    Fits tokens rigor pre (row (p :: ps)) (L * M) :=
  h.cons_of _ (fun _ _ _ _ => trivial) h'

theorem Fits.single (h : Fits tokens rigor pre p L) : Fits tokens rigor pre (row [p]) L := by
  have hnil : Fits tokens rigor (fun _ => True) (row []) 1 := fits_nil Language.nil_mem_one
  simpa using h.cons hnil

/-- A node is in a language if its row may stand below it. -/
theorem Fits.node {kind : NodeKind} {ps : List Part} (h : Fits tokens rigor pre (row ps) L)
    (hkind : L ≤ Production.children tokens rigor kind)
    (hM : ∀ cs ∈ L, [Outline.node kind cs] ∈ M) :
    Fits tokens rigor pre (one (node kind ps)) M := by
  intro context c hover hc
  obtain ⟨⟨xs, hxs, hos⟩, hderived⟩ := h context _ hover hc
  refine ⟨⟨xs, hxs, ?_⟩, fun hadmits => ?_⟩
  · simpa [one, Parser.node, bind_apply, Outline.forestTokens, Outline.tokens] using hos
  · simp only [one, Parser.node, bind_apply, pure_apply, List.append_nil] at hadmits
    obtain ⟨hmem, hall⟩ := hderived hadmits
    exact ⟨hM _ hmem, ⟨hkind hmem, hall⟩, trivial⟩

/-! ### Looking -/

theorem tests_look (f : Cursor → α) : Tests (look f) fun a c => f c = a :=
  fun _ _ => ⟨rfl, rfl, rfl⟩

theorem Tests.fits {b : Parser α} {Q : α → Cursor → Prop} {f : α → Part} (h : Tests b Q)
    (hf : ∀ a, Fits tokens rigor (fun c => pre c ∧ Q a c) (f a) L) :
    Fits tokens rigor pre (b >>= f) L := by
  intro context c hover hc
  obtain ⟨hcursor, herrors, hQ⟩ := h context c
  have := hf (b context c).value context _ hover ⟨hc, hQ⟩
  simpa [bind_apply, hcursor, herrors] using this

/-- What a fact about the cursor decides. -/
theorem Fits.ite {f : Cursor → Bool}
    (h : Fits tokens rigor (fun c => pre c ∧ f c = true) p L)
    (h' : Fits tokens rigor (fun c => pre c ∧ f c = false) q L) :
    Fits tokens rigor pre (look f >>= fun b => if b = true then p else q) L :=
  (tests_look f).fits fun
    | true => h
    | false => h'

/-! ### Reading -/

theorem fits_bump {kinds : List TokenKind}
    (h : ∀ c, pre c → c.atEnd = false ∧ c.kind ∈ kinds) :
    Fits tokens rigor pre bump (Production.token tokens kinds) := by
  intro context c hover hc
  obtain ⟨hend, hkind⟩ := h c hc
  have hreads := hover.advance hend
  obtain ⟨i, hi⟩ := hover.index hreads (List.mem_singleton_self _)
  have hvalue : (bump context c).value = [.token i] := by simp [bump, hend, hi]
  refine ⟨⟨[c.here], hreads, ?_⟩, fun _ => ?_⟩
  · simp [hvalue, Outline.forestTokens, Outline.tokens, hi]
  · rw [hvalue]
    exact ⟨⟨i, c.here.token, rfl, hover.here.token i hi, hkind⟩, trivial, trivial⟩

theorem fits_bump_of_kind {kinds : List TokenKind} (h : ∀ c, pre c → c.kind ∈ kinds)
    (hend : .endOfFile ∉ kinds) :
    Fits tokens rigor pre bump (Production.token tokens kinds) :=
  fits_bump fun c hc => ⟨beq_eq_false_iff_ne.mpr fun hk => hend (hk ▸ h c hc), h c hc⟩

/-- A node around the current item. -/
theorem fits_leaf {kind : NodeKind} (kinds : List TokenKind) (h : ∀ c, pre c → c.kind ∈ kinds)
    (hend : .endOfFile ∉ kinds)
    (hkind : Production.token tokens kinds ≤ Production.children tokens rigor kind)
    (hM : ∀ cs ∈ Production.token tokens kinds, [Outline.node kind cs] ∈ M) :
    Fits tokens rigor pre (one (leaf kind)) M :=
  .node (.single (fits_bump_of_kind h hend)) hkind hM

@[simp] theorem cursor_bump (context : Context) (c : Cursor) :
    (bump context c).cursor = c.advance := rfl

/-- What is read after a problem is written down stands in lenient trees only. -/
theorem Fits.report {problem : Problem} (h : Fits tokens .lenient pre p L) :
    Fits tokens rigor pre (report problem >>= fun _ => p) (rigor.allow L) := by
  intro context c hover hc
  have hfit := h context _ hover hc
  refine ⟨by simpa [bind_apply, Parser.report] using hfit.reads, fun hadmits => ?_⟩
  obtain rfl := Rigor.admits_cons.mp hadmits
  simpa [bind_apply, Parser.report, Rigor.allow] using hfit.derived fun h => by cases h

theorem Fits.within {change : Context → Context} (h : Fits tokens rigor pre p L) :
    Fits tokens rigor pre (within change p) L := fun context c => h (change context) c

theorem fits_expect {k : TokenKind} {problem : TokenKind → Problem} (hk : k ≠ .endOfFile) :
    Fits tokens rigor pre (expect k problem) (Production.wanted tokens rigor k) := by
  apply Fits.ite
  · refine (fits_bump_of_kind (fun c hc => ?_) (by simpa using hk.symm)).mono fun _ h => .inl h
    simpa using hc.2
  · apply (tests_look Cursor.kind).fits
    exact fun found => (Fits.report (fits_nil Language.nil_mem_one)).mono fun _ h => .inr h

/-- A token that is known not to be there. -/
theorem fits_expect_of_ne {k : TokenKind} {problem : TokenKind → Problem}
    (h : ∀ c, pre c → c.kind ≠ k) : Fits tokens rigor pre (expect k problem) (rigor.allow 1) := by
  apply Fits.ite
  · exact fun context c _ hc => absurd (beq_iff_eq.mp hc.2) (h c hc.1)
  · apply (tests_look Cursor.kind).fits
    exact fun found => Fits.report (fits_nil Language.nil_mem_one)

/-! ### What may be missing -/

theorem maybe_some (p : Parser Outline) : maybe (do return some (← p)) = one p := by
  funext context c
  simp [maybe, one, bind_apply]

theorem maybe_none : maybe (pure none) = pure [] := by
  funext context c
  simp [maybe, bind_apply]

theorem flat_some (p : Part) : flat (do return some (← p)) = p := by
  funext context c
  simp [flat, bind_apply]

theorem flat_none : flat (pure none) = pure [] := by
  funext context c
  simp [flat, bind_apply]

theorem one_bind (p : Parser α) (f : α → Parser Outline) :
    one (p >>= f) = p >>= fun a => one (f a) := by
  funext context c
  simp [one, bind_apply]

theorem flat_bind (p : Parser α) (f : α → Parser (Option (List Outline))) :
    flat (p >>= f) = p >>= fun a => flat (f a) := by
  funext context c
  simp [flat, bind_apply]

theorem maybe_bind (p : Parser α) (f : α → Parser (Option Outline)) :
    maybe (p >>= f) = p >>= fun a => maybe (f a) := by
  funext context c
  simp [maybe, bind_apply]

theorem Fits.flat_ite {f : Cursor → Bool} {p q : Parser (Option (List Outline))}
    (h : Fits tokens rigor (fun c => pre c ∧ f c = true) (flat p) L)
    (h' : Fits tokens rigor (fun c => pre c ∧ f c = false) (flat q) L) :
    Fits tokens rigor pre (flat (look f >>= fun b => if b = true then p else q)) L := by
  rw [flat_bind]
  exact (tests_look f).fits fun
    | true => h
    | false => h'

theorem Fits.value_some {p : Parser (Option Outline)} {context : Context} {c : Cursor} {o : Outline}
    (h : Fits tokens rigor (· = c) (maybe p) (1 + L)) (hover : c.Over tokens)
    (hvalue : (p context c).value = some o) :
    Fitting tokens rigor c L ⟨[o], (p context c).cursor, (p context c).errors⟩ := by
  have hfit := h.here context hover
  simp only [maybe, bind_apply, pure_apply, List.append_nil, hvalue] at hfit
  refine ⟨hfit.reads, fun hadmits => ?_⟩
  obtain ⟨hmem, hall⟩ := hfit.derived hadmits
  exact ⟨hmem.resolve_left (List.cons_ne_nil o []), hall⟩

theorem Fits.value_none {p : Parser (Option Outline)} {context : Context} {c : Cursor}
    (h : Fits tokens rigor (· = c) (maybe p) (1 + L)) (hover : c.Over tokens)
    (hvalue : (p context c).value = none) : (p context c).cursor = c := by
  have hfit := h.here context hover
  simp only [maybe, bind_apply, pure_apply, List.append_nil, hvalue] at hfit
  exact hfit.cursor_eq hover rfl

/-- An outline, or what is read in its place where there is none. -/
theorem Fits.orElse {p : Parser (Option Outline)} (h : Fits tokens rigor pre (maybe p) (1 + L))
    (h' : Fits tokens rigor (fun _ => True) q M) :
    Fits tokens rigor pre
      (p >>= fun | some o => pure [o] | none => q) (L + M) := by
  intro context c hover hc
  have hat : Fits tokens rigor (· = c) (maybe p) (1 + L) :=
    h.weaken (by rintro _ rfl; exact hc) le_rfl
  rw [bind_apply]
  cases hvalue : (p context c).value with
  | some o =>
    have hfirst := hat.value_some hover hvalue
    refine ⟨by simpa using hfirst.reads, fun hadmits => ?_⟩
    exact (hfirst.derived (by simpa using hadmits)).imp_left Or.inl
  | none =>
    have hsecond := h'.of_true context hover
    rw [hat.value_none hover hvalue]
    refine ⟨hsecond.reads, fun hadmits => ?_⟩
    exact (hsecond.derived (Rigor.admits_append.mp hadmits).2).imp_left Or.inr

/-! ### Repetition -/

theorem fits_manyFor {p : Parser (Option (List Outline))}
    (h : Fits tokens rigor (fun _ => True) (flat p) (1 + L)) (items : List Item) :
    Fits tokens rigor (fun _ => True) (manyFor p items) L∗ := by
  induction items with
  | nil => exact fits_nil (Language.nil_mem_kstar L)
  | cons item items ih =>
    intro context c hover _
    have hfirst := h context _ hover trivial
    simp only [flat, bind_apply, pure_apply, List.append_nil] at hfirst
    rw [manyFor, bind_apply]
    cases hvalue : (p context c).value with
    | none =>
      rw [hvalue] at hfirst
      refine ⟨by simpa using hfirst.reads, fun _ => ⟨Language.nil_mem_kstar L, trivial⟩⟩
    | some os =>
      rw [hvalue] at hfirst
      have hrest := ih context _ (hfirst.cursor_over hover) trivial
      have hall := hfirst.append hrest
      refine ⟨by simpa [bind_apply] using hall.reads, fun hadmits => ?_⟩
      simp only [bind_apply, pure_apply, List.append_nil] at hadmits ⊢
      have := hall.derived hadmits
      refine this.imp_left fun hmem => ?_
      rw [add_mul, one_mul] at hmem
      rcases hmem with hmem | hmem
      · exact hmem
      · exact @mul_kstar_le_kstar _ _ L _ hmem

theorem Fits.many {p : Parser (Option (List Outline))}
    (h : Fits tokens rigor (fun _ => True) (flat p) (1 + L)) :
    Fits tokens rigor pre (many p) L∗ :=
  (tests_look Cursor.items).fits fun items => (fits_manyFor h items).of_pre

theorem fits_bumpWhile (f : Cursor → Bool) :
    Fits tokens rigor pre (bumpWhile f) (Production.token tokens TokenKind.all)∗ := by
  refine Fits.many (.flat_ite ?_ ?_)
  · rw [flat_some]
    refine (fits_bump fun c hc => ?_).mono fun _ h => .inr h
    simp only [Bool.and_eq_true, Bool.not_eq_true'] at hc
    exact ⟨hc.2.1, TokenKind.mem_all _⟩
  · rw [flat_none]
    exact fits_nil (.inl rfl)

end Parser

end RSource
