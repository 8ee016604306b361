import RSource.Grammar.Operand
import RSource.Proofs.Grammar.Statement

/-! Operands keep to the grammar, one production after another.  Each of them begins with the token
that the kind found at the cursor tells of. -/

namespace RSource.Grammar

open scoped Computability
open RSource.Parser RSource.Production

variable {tokens : List Token} {rigor : Rigor} {expressions : Expressions}
variable {pre : Cursor → Prop} {c : Cursor}

/-! ### Levels -/

theorem formulas_subset : Rule.formulas ⊆ Rule.all := List.subset_append_right _ _

theorem comparisons_subset : Rule.comparisons ⊆ Rule.all :=
  List.Subset.trans (List.subset_append_right _ _) formulas_subset

theorem powers_subset : Rule.powers ⊆ Rule.all :=
  List.Subset.trans (List.subset_append_right _ _) comparisons_subset

/-! ### Names -/

/-- The node that a table gives for a kind of token may hold a token of this kind. -/
def Suits (tokens : List Token) (rigor : Rigor) (nodes? : TokenKind → Option NodeKind)
    (kinds : List NodeKind) : Prop :=
  ∀ k kind, nodes? k = some kind →
    k ≠ .endOfFile ∧ kind ∈ kinds ∧ token tokens [k] ≤ children tokens rigor kind

theorem suits_symbolNode? :
    Suits tokens rigor symbolNode? [.identifierExpression, .stringLiteralExpression] := by
  intro k kind h
  unfold symbolNode? at h
  split at h
  all_goals cases h
  all_goals exact ⟨by decide, by simp, token_mono (by simp)⟩

theorem suits_binderNode? : Suits tokens rigor binderNode? [.identifierExpression] := by
  intro k kind h
  unfold binderNode? at h
  split at h
  all_goals cases h
  all_goals exact ⟨by decide, by simp, token_mono (by simp)⟩

theorem suits_memberNode? :
    Suits tokens rigor memberNode? [.identifierExpression, .stringLiteralExpression] := by
  intro k kind h
  unfold memberNode? at h
  split at h
  all_goals cases h
  all_goals exact ⟨by decide, by simp, token_mono (by simp)⟩

theorem Suits.leaf {nodes? : TokenKind → Option NodeKind} {kinds : List NodeKind}
    (hs : Suits tokens rigor nodes? kinds) {k : TokenKind} {kind : NodeKind}
    (hk : nodes? k = some kind) (h : ∀ c, pre c → c.kind = k) :
    Fits tokens rigor pre (one (leaf kind)) (Production.node kinds) := by
  obtain ⟨hend, hkind, htokens⟩ := hs k kind hk
  exact fits_leaf [k] (fun c hc => List.mem_singleton.mpr (h c hc)) (by simpa using hend.symm)
    htokens fun cs _ => node_mem cs hkind

theorem Suits.named {nodes? : TokenKind → Option NodeKind} {kinds : List NodeKind}
    (hs : Suits tokens rigor nodes? kinds) (problem : TokenKind → Problem) :
    Fits tokens rigor pre (named nodes? problem) (Production.node kinds + fault rigor) := by
  apply (tests_look Cursor.kind).fits
  intro found
  cases hfound : nodes? found with
  | some kind => exact (hs.leaf hfound fun c hc => hc.2).mono fun _ h => .inl h
  | none => exact fits_emptyError.report.mono fun _ h => .inr h

theorem exportFollows_tests : Tests exportFollows fun b c =>
    b = true → c.kindAhead 1 = .doubleColon ∨ c.kindAhead 1 = .tripleColon := by
  intro context c
  refine ⟨rfl, rfl, fun h => ?_⟩
  simp only [exportFollows, bind_apply, look, newlineBreaks, pure_apply, Bool.and_eq_true,
    Bool.or_eq_true, beq_iff_eq] at h
  exact h.1

/-- A name, and what makes it one of a package. -/
theorem fits_symbol {k : TokenKind} {kind : NodeKind} (hk : symbolNode? k = some kind)
    (h : ∀ c, pre c → c.kind = k) :
    Fits tokens rigor pre (one (symbol kind)) (Production.expression rigor) := by
  have hsuits : Suits tokens rigor symbolNode? _ := suits_symbolNode?
  obtain ⟨hend, hkind, htokens⟩ := hsuits k kind hk
  have hname : k ∈ [.identifier, .dots, .underscore, .string] := by
    unfold symbolNode? at hk
    split at hk
    all_goals cases hk
    all_goals simp
  have hexpression : kind.isExpression = true ∧ kind ≠ .emptyExpression := by
    simp only [List.mem_cons, List.not_mem_nil, or_false] at hkind
    rcases hkind with rfl | rfl
    · exact ⟨rfl, by decide⟩
    · exact ⟨rfl, by decide⟩
  rw [symbol, one_bind]
  apply exportFollows_tests.fits
  intro follows
  cases follows with
  | false =>
    apply fits_leaf [k] (fun c hc => List.mem_singleton.mpr (h c hc.1)) (by simpa using hend.symm)
      htokens
    exact fun cs hcs => expression_mem hexpression.1 hexpression.2 (htokens hcs)
  | true =>
    apply fits_expressionNode rfl (by decide)
    apply Fits.cons_of fun c => c.kind = .doubleColon ∨ c.kind = .tripleColon
    · exact (fits_tokenOf (fun c hc => h c hc.1) hend).mono (token_mono (by simpa using hname))
    · intro context c _ hc
      have hat : c.atEnd = false := beq_eq_false_iff_ne.mpr (h c hc.1 ▸ hend)
      rw [cursor_bump, Cursor.kind_advance hat]
      exact hc.2 rfl
    · apply Fits.cons _ (suits_symbolNode?.named _).single
      exact fits_bump_of_kind (fun c hc => by simpa using hc) (by decide)

/-! ### Control flow -/

theorem Conforms.condition (he : Conforms tokens rigor expressions) :
    Fits tokens rigor pre (condition expressions) (Production.condition tokens rigor) := by
  apply Fits.ite
  · exact (he.grouped fun c hc => by simpa using hc.2).mono fun _ h => .inl h
  · exact (fits_expect_of_ne fun c hc => by simpa using hc.2).mono fun _ h => .inr h

theorem Conforms.conditional (he : Conforms tokens rigor expressions)
    (h : ∀ c, pre c → c.kind = .ifKeyword) :
    Fits tokens rigor pre (one (conditional expressions)) (Production.expression rigor) := by
  apply fits_expressionNode rfl (by decide)
  apply (fits_tokenOf h (by decide)).cons
  apply he.condition.cons
  apply he.expression.cons
  apply Fits.single
  apply Fits.ite
  · apply Fits.mono (Fits.cons _ he.expression.single) fun _ h => .inr h
    exact fits_tokenOf (fun c hc => by simpa using hc.2) (by decide)
  · exact fits_nil (.inl Language.nil_mem_one)

theorem Conforms.whileLoop (he : Conforms tokens rigor expressions)
    (h : ∀ c, pre c → c.kind = .whileKeyword) :
    Fits tokens rigor pre (one (whileLoop expressions)) (Production.expression rigor) := by
  apply fits_expressionNode rfl (by decide)
  exact (fits_tokenOf h (by decide)).cons (he.condition.cons he.expression.single)

theorem Conforms.repeatLoop (he : Conforms tokens rigor expressions)
    (h : ∀ c, pre c → c.kind = .repeatKeyword) :
    Fits tokens rigor pre (one (repeatLoop expressions)) (Production.expression rigor) := by
  apply fits_expressionNode rfl (by decide)
  exact (fits_tokenOf h (by decide)).cons he.expression.single

theorem Conforms.loopRange (he : Conforms tokens rigor expressions) :
    Fits tokens rigor pre (loopRange expressions)
      (token tokens [.inKeyword] * Production.operand rigor + rigor.allow 1) := by
  apply Fits.ite
  · apply Fits.mono (Fits.cons _ he.expression.single) fun _ h => .inl h
    exact fits_tokenOf (fun c hc => by simpa using hc.2) (by decide)
  · exact (fits_expect_of_ne fun c hc => by simpa using hc.2).mono fun _ h => .inr h

theorem Conforms.loopHeader (he : Conforms tokens rigor expressions) :
    Fits tokens rigor pre (loopHeader expressions) (Production.loopHeader tokens rigor) := by
  apply Fits.ite
  · apply Fits.mono (Fits.cons _ _) fun _ h => .inl h
    · exact fits_tokenOf (fun c hc => by simpa using hc.2) (by decide)
    · apply Fits.single
      apply Fits.within
      apply (suits_binderNode?.named _).cons
      exact he.loopRange.cons (fits_expect (by decide)).single
  · exact (fits_expect_of_ne fun c hc => by simpa using hc.2).mono fun _ h => .inr h

theorem Conforms.forLoop (he : Conforms tokens rigor expressions)
    (h : ∀ c, pre c → c.kind = .forKeyword) :
    Fits tokens rigor pre (one (forLoop expressions)) (Production.expression rigor) := by
  apply fits_expressionNode rfl (by decide)
  exact (fits_tokenOf h (by decide)).cons (he.loopHeader.cons he.expression.single)

theorem Conforms.function (he : Conforms tokens rigor expressions)
    (h : ∀ c, pre c → c.kind ∈ [.functionKeyword, .lambda]) :
    Fits tokens rigor pre (one (function expressions)) (Production.expression rigor) := by
  apply fits_expressionNode rfl (by decide)
  apply (fits_bump_of_kind h (by decide)).cons
  exact he.parameterList.cons he.expression.single

/-! ### Prefixes -/

theorem Conforms.help (he : Conforms tokens rigor expressions)
    (h : ∀ c, pre c → c.kind = .question) :
    Fits tokens rigor pre (one (help expressions)) (Production.expression rigor) := by
  apply fits_expressionNode rfl (by decide)
  apply (fits_tokenOf h (by decide)).cons
  apply Fits.cons
  · apply Fits.ite
    · apply Fits.mono (fits_tokenOf _ _) fun _ h => .inr h
      · exact fun c hc => by simpa using hc.2
      · decide
    · exact fits_nil (.inl Language.nil_mem_one)
  · apply Fits.single
    apply (tests_look Cursor.kind).fits
    intro found
    by_cases hfound : found.isKeyword = true
    · rw [if_pos hfound]
      apply Fits.mono (fits_bump_of_kind _ (by decide)) fun _ h => .inl h
      exact fun c hc => List.mem_filter.mpr ⟨TokenKind.mem_all _, hc.2 ▸ hfound⟩
    · rw [if_neg hfound]
      exact he.expression.mono fun _ h => .inr h

theorem Conforms.signed (he : Conforms tokens rigor expressions) {operator kind : NodeKind}
    (kinds : List TokenKind) {rules : List Rule} (hrules : rules ⊆ Rule.all)
    (h : ∀ c, pre c → c.kind ∈ kinds) (hend : .endOfFile ∉ kinds)
    (hoperator : token tokens kinds ≤ children tokens rigor operator)
    (hkind : children tokens rigor kind =
      Production.operator tokens operator kinds * Production.operand rigor)
    (hexpression : kind.isExpression = true) (hempty : kind ≠ .emptyExpression) :
    Fits tokens rigor pre (one (signed expressions operator kind rules))
      (Production.expression rigor) := by
  apply fits_expressionNode hexpression hempty
  rw [hkind]
  exact (fits_operatorLeaf h hend hoperator).cons (he.operand hrules).single

/-- A token that is an operand with a problem. -/
theorem fits_faulty {problem : Problem} {kind : NodeKind}
    (h : Fits tokens .lenient pre (one (leaf kind)) (Production.expression .lenient)) :
    Fits tokens rigor pre (one (faulty problem kind)) (Production.expression rigor) := by
  rw [faulty, one_bind]
  exact h.report.mono (allow_expression_le rigor)

theorem fits_literal {k : TokenKind} {kind : NodeKind} (hk : literalNode? k = some kind)
    (h : ∀ c, pre c → c.kind = k) :
    Fits tokens rigor pre (one (leaf kind)) (Production.expression rigor) := by
  apply fits_expressionNode
  · unfold literalNode? at hk
    split at hk
    all_goals cases hk
    all_goals rfl
  · rintro rfl
    unfold literalNode? at hk
    split at hk
    all_goals cases hk
  · apply Fits.single
    unfold literalNode? at hk
    split at hk
    all_goals cases hk
    all_goals exact (fits_tokenOf h (by decide)).mono (token_mono (by simp))

theorem Conforms.operand? (he : Conforms tokens rigor expressions) :
    Fits tokens rigor (fun _ => True) (maybe (operand? expressions))
      (1 + Production.expression rigor) := by
  rw [Grammar.operand?, maybe_bind]
  apply (tests_look Cursor.kind).fits
  intro found
  have hfound : ∀ c : Cursor, True ∧ c.kind = found → c.kind = found := fun c hc => hc.2
  have hin {p : Part} (h : Fits tokens rigor (fun c => True ∧ c.kind = found) p
      (Production.expression rigor)) :
      Fits tokens rigor (fun c => True ∧ c.kind = found) p (1 + Production.expression rigor) :=
    h.mono fun _ h => .inr h
  split
  · next hliteral => rw [maybe_some]; exact hin (fits_literal hliteral hfound)
  · next hsymbol => rw [maybe_some]; exact hin (fits_symbol hsymbol hfound)
  · split
    case h_16 => rw [maybe_none]; exact fits_nil (.inl Language.nil_mem_one)
    all_goals
      rw [maybe_some]
      apply hin
    · apply fits_faulty
      exact fits_expressionNode rfl (by decide) (fits_tokenOf hfound (by decide)).single
    · apply fits_faulty
      apply fits_errorNode
      · exact fun c hc => beq_eq_false_iff_ne.mpr (hc.2 ▸ by decide)
      · exact fits_nil (Language.nil_mem_kstar _)
    · exact (he.parenthesized hfound).mono inf_le_left
    · exact he.block hfound
    · exact he.conditional hfound
    · exact he.whileLoop hfound
    · exact he.forLoop hfound
    · exact he.repeatLoop hfound
    · exact he.function fun c hc => by simp [hfound c hc]
    · exact he.function fun c hc => by simp [hfound c hc]
    · exact he.help hfound
    · exact he.signed [.tilde] formulas_subset (fun c hc => by simp [hfound c hc])
        (by decide) le_rfl rfl rfl (by decide)
    · exact he.signed [.not] comparisons_subset (fun c hc => by simp [hfound c hc])
        (by decide) le_rfl rfl rfl (by decide)
    · exact he.signed [.plus, .minus] powers_subset (fun c hc => by simp [hfound c hc])
        (by decide) le_rfl rfl rfl (by decide)
    · exact he.signed [.plus, .minus] powers_subset (fun c hc => by simp [hfound c hc])
        (by decide) le_rfl rfl rfl (by decide)

end RSource.Grammar
