import Mathlib.Data.List.Chain
import RSource.Proofs.Grammar.Delimited

/-! Lists of statements keep to the grammar.  The rows of all steps make up the row of the list; that
neighbours in it stand apart is kept from step to step: after an expression the cursor stands where
a statement may end, so that the next expression begins a line. -/

namespace RSource.Grammar

open scoped Computability
open RSource.Parser RSource.Production

variable {tokens : List Token} {rigor : Rigor} {expressions : Expressions} {closers : TokenSet}
variable {pre : Cursor → Prop} {context : Context} {c : Cursor}

/-- Errors with a token stand in for expressions in lenient trees. -/
theorem allow_expression_le (rigor : Rigor) :
    rigor.allow (Production.expression .lenient) ≤ Production.expression rigor := by
  cases rigor with
  | strict => exact fun _ h => h.elim
  | lenient => exact le_rfl

theorem fits_errorNode {ps : List Part} (h : ∀ c, pre c → c.atEnd = false)
    (hps : Fits tokens .lenient (fun _ => True) (row ps) (token tokens TokenKind.all)∗) :
    Fits tokens .lenient pre (one (Parser.node .error (bump :: ps)))
      (Production.expression .lenient) := by
  have hbump : Fits tokens .lenient pre bump (token tokens TokenKind.all) :=
    fits_bump fun c hc => ⟨h c hc, TokenKind.mem_all _⟩
  apply (hbump.cons hps).node
  · exact mul_kstar_le_kstar
  · exact fun cs hcs => ⟨.error, cs, rfl, by decide, (hasToken_token _).mul_right cs hcs⟩

theorem fits_skipStatement (h : ∀ c, pre c → c.atEnd = false) :
    Fits tokens rigor pre (skipStatement closers) (Production.expression rigor) := by
  apply (tests_look Cursor.kind).fits
  intro found
  apply Fits.mono (Fits.report _) (allow_expression_le rigor)
  exact fits_errorNode (fun c hc => h c hc.1) (fits_bumpWhile _).single

/-- The rows that a step from `c` to `d` can give, where `parsed` is what the parser for expressions
gives at `c`.  An expression is read only where the list goes on. -/
inductive Step (closers : TokenSet) (c d : Cursor) (parsed : Outcome (Option Outline)) :
    List Outline → Prop where
  | semicolon (i : Nat) : Step closers c d parsed [.token i]
  | skipped (cs : List Outline) : Step closers c d parsed [.node .error cs]
  | nothing (hstarts : starters.contains c.kind) (hparsed : parsed.value = none) :
      Step closers c d parsed []
  | ended (o : Outline) (hparsed : parsed.value = some o)
      (hc : statementEnds closers c = c.newlineBefore) (hd : statementEnds closers d) :
      Step closers c d parsed [o]
  | followed (o : Outline) (cs : List Outline) (hparsed : parsed.value = some o)
      (hc : statementEnds closers c = c.newlineBefore) :
      Step closers c d parsed [o, .node .error cs]

theorem skipStatement_value (closers : TokenSet) (context : Context) (c : Cursor) :
    ∃ cs, (skipStatement closers context c).value = [.node .error cs] :=
  ⟨_, rfl⟩

section

variable (hsemi : c.kind ≠ .semicolon) (hclosed : ¬(c.atEnd || closers.contains c.kind) = true)

include hsemi hclosed

theorem statement?_of_starter (hstarts : starters.contains c.kind = true) :
    statement? expressions closers context c =
      (do
        let parsed ← expressions Rule.all
        if ← look (statementEnds closers) then return some parsed.toList
        return some (parsed.toList ++ (← skipStatement closers))) context c := by
  rw [statement?, isAt, look_bind, if_neg (by simpa using hsemi), look_bind, if_neg hclosed, isIn,
    look_bind, if_pos hstarts]

theorem statement?_of_not_starter (hstarts : ¬starters.contains c.kind = true) :
    statement? expressions closers context c =
      (do return some (← skipStatement closers)) context c := by
  rw [statement?, isAt, look_bind, if_neg (by simpa using hsemi), look_bind, if_neg hclosed, isIn,
    look_bind, if_neg hstarts]

end

theorem step_of_statement? (hover : c.Over tokens) {os : List Outline}
    (h : (statement? expressions closers context c).value = some os) :
    Step closers c (statement? expressions closers context c).cursor
      (expressions Rule.all context c) os := by
  by_cases hsemi : c.kind = .semicolon
  · have hend : c.atEnd = false := by simp [Cursor.atEnd, hsemi]
    obtain ⟨i, hi⟩ := hover.index (hover.advance hend) (List.mem_singleton_self _)
    rw [statement?, isAt, look_bind, if_pos (by simpa using hsemi), bind_apply] at h
    obtain rfl : os = [.token i] := by simpa [bump, hend, hi] using h.symm
    exact .semicolon i
  by_cases hclosed : (c.atEnd || closers.contains c.kind) = true
  · simp [statement?, isAt, hsemi, hclosed] at h
  by_cases hstarts : starters.contains c.kind = true
  · have hc : statementEnds closers c = c.newlineBefore := by
      simp only [Bool.or_eq_true, not_or, Bool.not_eq_true] at hclosed
      simp [statementEnds, hsemi, hclosed]
    rw [statement?_of_starter hsemi hclosed hstarts, bind_apply, look_bind] at h ⊢
    by_cases hends : statementEnds closers (expressions Rule.all context c).cursor = true
    · rw [if_pos hends] at h ⊢
      cases hparsed : (expressions Rule.all context c).value with
      | none =>
        obtain rfl : os = [] := by simpa [hparsed] using h.symm
        exact .nothing hstarts hparsed
      | some o =>
        obtain rfl : os = [o] := by simpa [hparsed] using h.symm
        exact .ended o hparsed hc hends
    · obtain ⟨cs, hcs⟩ := skipStatement_value closers context
        (expressions Rule.all context c).cursor
      rw [if_neg hends] at h ⊢
      cases hparsed : (expressions Rule.all context c).value with
      | none =>
        obtain rfl : os = [.node .error cs] := by simpa [bind_apply, hparsed, hcs] using h.symm
        exact .skipped cs
      | some o =>
        obtain rfl : os = [o, .node .error cs] := by simpa [bind_apply, hparsed, hcs] using h.symm
        exact .followed o cs hparsed hc
  · obtain ⟨cs, hcs⟩ := skipStatement_value closers context c
    rw [statement?_of_not_starter hsemi hclosed hstarts] at h
    obtain rfl : os = [.node .error cs] := by simpa [bind_apply, hcs] using h.symm
    exact .skipped cs

theorem not_atEnd_of_not_statementEnds (h : statementEnds closers c = false) :
    c.atEnd = false := by
  simp only [statementEnds, Bool.or_eq_false_iff] at h
  exact h.1.1.2

/-- An expression and what follows it are a row of two parts. -/
theorem flat_followed (expressions : Expressions) (closers : TokenSet) :
    flat (do
      let parsed ← expressions Rule.all
      if ← look (statementEnds closers) then return some parsed.toList
      return some (parsed.toList ++ (← skipStatement closers))) =
    row [maybe (expressions Rule.all),
      do if ← look (statementEnds closers) then return [] else skipStatement closers] := by
  funext context c
  by_cases hends : statementEnds closers (expressions Rule.all context c).cursor = true
  · simp [flat, row, maybe, bind_apply, look, hends]
  · simp [flat, row, maybe, bind_apply, look, hends]

theorem Conforms.statement? (he : Conforms tokens rigor expressions) :
    Fits tokens rigor pre (flat (statement? expressions closers))
      (1 + (token tokens [.semicolon] + Production.expression rigor)∗) := by
  have hexpression : Production.expression rigor ≤
      (token tokens [.semicolon] + Production.expression rigor)∗ :=
    le_trans (fun _ h => .inr h) le_kstar
  have hskip (pre : Cursor → Prop) (h : ∀ c, pre c → c.atEnd = false) :
      Fits tokens rigor pre (skipStatement closers)
        (token tokens [.semicolon] + Production.expression rigor)∗ :=
    (fits_skipStatement h).mono hexpression
  apply Fits.mono _ fun _ h => .inr h
  apply Fits.flat_ite
  · rw [flat_some]
    apply Fits.mono (fits_tokenOf (fun c hc => by simpa using hc.2) (by decide))
    exact le_trans (fun _ h => .inl h) le_kstar
  apply Fits.flat_ite
  · exact fits_nil (Language.nil_mem_kstar _)
  apply Fits.flat_ite
  · rw [flat_followed]
    have hrest : Fits tokens rigor (fun _ => True)
        (do if ← look (statementEnds closers) then return [] else skipStatement closers)
        (token tokens [.semicolon] + Production.expression rigor)∗ := by
      apply Fits.ite
      · exact fits_nil (Language.nil_mem_kstar _)
      · exact hskip _ fun c hc => not_atEnd_of_not_statementEnds hc.2
    have hfirst : Fits tokens rigor (fun _ => True) (maybe (expressions Rule.all))
        (token tokens [.semicolon] + Production.expression rigor)∗ :=
      (he Rule.all (List.Subset.refl _)).mono (add_le one_le_kstar hexpression)
    rw [← kstar_mul_kstar]
    exact hfirst.of_pre.cons hrest.single
  · rw [flat_some]
    apply hskip
    simp +contextual [Cursor.atEnd]

theorem Conforms.fitting_statement? (he : Conforms tokens rigor expressions) (closers : TokenSet)
    (context : Context) (hover : c.Over tokens) :
    Fitting tokens rigor c (1 + (token tokens [.semicolon] + Production.expression rigor)∗)
      (flat (Grammar.statement? expressions closers) context c) :=
  he.statement?.of_true context hover

/-! ### Neighbours -/

theorem tokens_ne_nil_of_mem_kstar {os : List Outline}
    (h : os ∈ (token tokens [.semicolon] + Production.expression rigor)∗) :
    ∀ o ∈ os, o.tokens ≠ [] := by
  obtain ⟨rows, rfl, hrows⟩ := Language.mem_kstar.mp h
  intro o ho
  obtain ⟨row, hrow, ho⟩ := List.mem_flatten.mp ho
  rcases hrows row hrow with ⟨i, t, rfl, -, -⟩ | ⟨kind, cs, rfl, -, hcs⟩
  · obtain rfl := List.mem_singleton.mp ho
    simp [Outline.tokens]
  · obtain rfl := List.mem_singleton.mp ho
    simpa [Outline.tokens] using hcs

/-- The next outline of a list of statements may be read at the cursor. -/
def Separated (closers : TokenSet) (last : Option Outline) (c : Cursor) : Prop :=
  ∀ o ∈ last, o.Parts ∨ statementEnds closers c = true

theorem parts_token (i : Nat) : (Outline.token i).Parts := .inl rfl

theorem parts_error (cs : List Outline) : (Outline.node .error cs).Parts := .inr rfl

theorem isChain_single {last : Option Outline} {o : Outline}
    (h : ∀ p ∈ last, Outline.Apart tokens p o) :
    (last.toList ++ [o]).IsChain (Outline.Apart tokens) := by
  cases last with
  | none => simp
  | some p => simpa using h p rfl

/-- A chain goes on from its last element. -/
theorem isChain_resume {α : Type} {R : α → α → Prop} {xs ys : List α} (h : xs.IsChain R)
    (h' : (xs.getLast?.toList ++ ys).IsChain R) : (xs ++ ys).IsChain R := by
  rw [List.isChain_append] at h' ⊢
  refine ⟨h, h'.2.1, fun x hx => h'.2.2 x ?_⟩
  have hlast : xs.getLast? = some x := hx
  simp [hlast]

/-- The row of a list of statements begins a line if its first item does. -/
theorem startsLine_of_fitting (hover : c.Over tokens) {o : Outline} {os : List Outline}
    {d : Cursor} {es : List ParseError} {L : Language Outline}
    (hfit : Fitting tokens rigor c L ⟨o :: os, d, es⟩) (ho : o.tokens ≠ [])
    (hline : c.newlineBefore = true) : o.StartsLine tokens := by
  obtain ⟨hhead, hindex⟩ := hfit.head?_tokens hover (by simp [Outline.forestTokens, ho])
  obtain ⟨i, hi⟩ := Option.ne_none_iff_exists'.mp hindex
  refine ⟨i, ?_, (hover.here.line i hi).trans hline⟩
  rw [← hi, ← hhead, Outline.forestTokens, List.head?_append_of_ne_nil _ ho]

theorem Conforms.step_apart (he : Conforms tokens rigor expressions) (hover : c.Over tokens)
    {os : List Outline} (hos : (Grammar.statement? expressions closers context c).value = some os)
    (hadmits : rigor.Admits (Grammar.statement? expressions closers context c).errors)
    {last : Option Outline} (hlast : Separated closers last c) :
    (last.toList ++ os).IsChain (Outline.Apart tokens) ∧
      Separated closers (last.toList ++ os).getLast?
        (Grammar.statement? expressions closers context c).cursor := by
  have hfit := he.fitting_statement? closers context hover
  simp only [flat, bind_apply, pure_apply, List.append_nil, hos, Option.getD_some] at hfit
  have htokens : ∀ o ∈ os, o.tokens ≠ [] := by
    rcases (hfit.derived hadmits).1 with hmem | hmem
    · obtain rfl : os = [] := hmem
      simp
    · exact tokens_ne_nil_of_mem_kstar hmem
  have hbegins {o : Outline} {rest : List Outline} (hrest : os = o :: rest)
      (hc : statementEnds closers c = c.newlineBefore) : ∀ p ∈ last, Outline.Apart tokens p o := by
    intro p hp
    subst hrest
    rcases hlast p hp with hparts | hends
    · exact .inl hparts
    · exact .inr (.inr (startsLine_of_fitting hover hfit (htokens o (by simp)) (hc ▸ hends)))
  cases step_of_statement? hover hos with
  | semicolon i =>
    exact ⟨isChain_single fun p _ => .inr (.inl (parts_token i)), by simp [Separated, parts_token]⟩
  | skipped cs =>
    exact ⟨isChain_single fun p _ => .inr (.inl (parts_error cs)), by simp [Separated, parts_error]⟩
  | nothing hstarts hparsed =>
    have hcursor := hfit.cursor_eq hover rfl
    simp only at hcursor
    rw [hcursor, List.append_nil]
    cases last with
    | none => exact ⟨.nil, hlast⟩
    | some p => exact ⟨.singleton p, hlast⟩
  | ended o hparsed hc hd =>
    exact ⟨isChain_single (hbegins rfl hc), fun _ _ => .inr hd⟩
  | followed o cs hparsed hc =>
    refine ⟨?_, by simp [Separated, parts_error]⟩
    have hfirst := isChain_single (hbegins rfl hc)
    have hsecond : ((some o).toList ++ [Outline.node .error cs]).IsChain (Outline.Apart tokens) :=
      isChain_single fun p _ => .inr (.inl (parts_error cs))
    have hall : (last.toList ++ [o] ++ [Outline.node .error cs]).IsChain
        (Outline.Apart tokens) :=
      isChain_resume hfirst (by simpa using hsecond)
    simpa using hall

theorem Conforms.steps_apart (he : Conforms tokens rigor expressions) (items : List Item) :
    ∀ (c : Cursor) (last : Option Outline), c.Over tokens → Separated closers last c →
      rigor.Admits (manyFor (Grammar.statement? expressions closers) items context c).errors →
      (last.toList ++
        (manyFor (Grammar.statement? expressions closers) items context c).value).IsChain
          (Outline.Apart tokens) := by
  induction items with
  | nil =>
    intro c last _ _ _
    cases last with
    | none => exact .nil
    | some p => exact .singleton p
  | cons item items ih =>
    intro c last hover hlast hadmits
    rw [manyFor, bind_apply] at hadmits ⊢
    cases hos : (Grammar.statement? expressions closers context c).value with
    | none =>
      cases last with
      | none => exact .nil
      | some p => exact .singleton p
    | some os =>
      have hfit := he.fitting_statement? closers context hover
      simp only [hos, bind_apply, pure_apply, List.append_nil] at hadmits ⊢
      obtain ⟨hadmits, hrest⟩ := Rigor.admits_append.mp hadmits
      obtain ⟨hchain, hlast⟩ := he.step_apart hover hos hadmits hlast
      have hover' : (Grammar.statement? expressions closers context c).cursor.Over tokens := by
        simpa [flat, bind_apply] using hfit.cursor_over hover
      rw [← List.append_assoc]
      exact isChain_resume hchain (ih _ _ hover' hlast hrest)

theorem Conforms.statements (he : Conforms tokens rigor expressions) :
    Fits tokens rigor pre (Grammar.statements expressions closers)
      (Production.statements tokens rigor) := by
  intro context c hover hc
  have hmany : Fits tokens rigor pre (Grammar.statements expressions closers) _ :=
    he.statement?.many
  have hfit := hmany context c hover hc
  refine ⟨hfit.reads, fun hadmits => ?_⟩
  obtain ⟨hmem, hall⟩ := hfit.derived hadmits
  rw [kstar_idem] at hmem
  have hchain := he.steps_apart c.items c none hover (by simp [Separated]) hadmits
  exact ⟨⟨hmem, hchain⟩, hall⟩

theorem Conforms.block (he : Conforms tokens rigor expressions)
    (h : ∀ c, pre c → c.kind = .leftBrace) :
    Fits tokens rigor pre (one (block expressions)) (Production.expression rigor) := by
  apply fits_expressionNode rfl (by decide)
  apply (fits_tokenOf h (by decide)).cons
  exact (he.statements.within).cons (fits_expect (by decide)).single

theorem Conforms.file (he : Conforms tokens rigor expressions) :
    Fits tokens rigor pre (one (file expressions)) (Production.node [.file]) :=
  fits_anyNode he.statements.single

end RSource.Grammar
