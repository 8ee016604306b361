import RSource.Grammar.Precedence
import RSource.Proofs.Parser.Fits

/-! The parser keeps to the grammar.  Each production fits the language that the table gives for its
node.  A production takes the parser for expressions as a parameter, so that it fits under the
assumption that this parser does; the parsers of bounded depth are then all fit, by induction on the
bound. -/

namespace RSource.Grammar

open scoped Computability
open RSource.Parser RSource.Production

/-- At every level of the grammar, the parser gives an expression or reads nothing. -/
def Conforms (tokens : List Token) (rigor : Rigor) (expressions : Expressions) : Prop :=
  ∀ rules ⊆ Rule.all, Fits tokens rigor (fun _ => True) (maybe (expressions rules))
    (1 + Production.expression rigor)

variable {tokens : List Token} {rigor : Rigor} {expressions : Expressions}
variable {pre : Cursor → Prop} {element : Part} {L : Language Outline}

/-! ### Nodes -/

theorem node_mem {kind : NodeKind} {kinds : List NodeKind} (cs : List Outline)
    (h : kind ∈ kinds) : [Outline.node kind cs] ∈ Production.node kinds :=
  ⟨kind, cs, rfl, h⟩

theorem expression_mem {kind : NodeKind} {cs : List Outline} (h : kind.isExpression)
    (hempty : kind ≠ .emptyExpression) (hcs : cs ∈ children tokens rigor kind) :
    [Outline.node kind cs] ∈ Production.expression rigor :=
  ⟨kind, cs, rfl, by simp [Rigor.stands, h, hempty], hasToken_children h hempty cs hcs⟩

/-- A production of an expression. -/
theorem fits_expressionNode {kind : NodeKind} {ps : List Part} (hkind : kind.isExpression = true)
    (hempty : kind ≠ .emptyExpression)
    (h : Fits tokens rigor pre (row ps) (children tokens rigor kind)) :
    Fits tokens rigor pre (one (Parser.node kind ps)) (Production.expression rigor) :=
  h.node le_rfl fun _ hcs => expression_mem hkind hempty hcs

/-- A node that may stand anywhere. -/
theorem fits_anyNode {kind : NodeKind} {ps : List Part}
    (h : Fits tokens rigor pre (row ps) (children tokens rigor kind)) :
    Fits tokens rigor pre (one (Parser.node kind ps)) (Production.node [kind]) :=
  h.node le_rfl fun cs _ => node_mem cs (List.mem_singleton_self kind)

/-- A node around an operator. -/
theorem fits_operatorLeaf {kind : NodeKind} {kinds : List TokenKind}
    (h : ∀ c, pre c → c.kind ∈ kinds) (hend : .endOfFile ∉ kinds)
    (hkind : token tokens kinds ≤ children tokens rigor kind) :
    Fits tokens rigor pre (one (leaf kind)) (operator tokens kind kinds) :=
  fits_leaf kinds h hend hkind fun cs hcs => ⟨cs, rfl, hcs⟩

theorem token_mono {kinds kinds' : List TokenKind} (h : kinds ⊆ kinds') :
    token tokens kinds ≤ token tokens kinds' := by
  rintro _ ⟨i, t, rfl, ht, hk⟩
  exact ⟨i, t, rfl, ht, h hk⟩

/-- An empty error node, in lenient trees. -/
theorem fits_emptyError :
    Fits tokens .lenient pre (one (Parser.node .error [])) (Production.node [.error]) :=
  fits_anyNode (fits_nil (Language.nil_mem_kstar _))

/-! ### Expressions in general -/

theorem fits_emptyExpression :
    Fits tokens rigor pre (one emptyExpression) (Production.node [.emptyExpression]) :=
  fits_anyNode (fits_nil Language.nil_mem_one)

theorem fits_missingExpression : Fits tokens rigor pre missingExpression (fault rigor) := by
  apply (tests_look Cursor.kind).fits
  intro found
  apply Fits.report
  apply fits_anyNode
  apply Fits.single
  apply Fits.ite
  · exact fits_nil (Language.nil_mem_kstar _)
  · refine (fits_bump fun c hc => ⟨?_, TokenKind.mem_all _⟩).mono le_kstar
    by_contra hend
    have hkind : c.kind = .endOfFile := by simpa [Cursor.atEnd] using hend
    simp [hkind, resumptions, TokenSet.ofList, TokenSet.contains] at hc

theorem Conforms.operand (he : Conforms tokens rigor expressions) {rules : List Rule}
    (hrules : rules ⊆ Rule.all) :
    Fits tokens rigor pre (operand expressions rules) (Production.operand rigor) :=
  (he rules hrules).of_pre.orElse fits_missingExpression

theorem Conforms.expression (he : Conforms tokens rigor expressions) :
    Fits tokens rigor pre (expression expressions) (Production.operand rigor) :=
  he.operand (List.Subset.refl _)

/-- One token of a kind. -/
theorem fits_tokenOf {k : TokenKind} (h : ∀ c, pre c → c.kind = k) (hk : k ≠ .endOfFile) :
    Fits tokens rigor pre bump (token tokens [k]) :=
  fits_bump_of_kind (fun c hc => List.mem_singleton.mpr (h c hc)) (by simpa using hk.symm)

theorem Conforms.closed (he : Conforms tokens rigor expressions) :
    Fits tokens rigor pre (row [Grammar.expression expressions,
      expect .rightParen (.notClosed .rightParen)]) (closed tokens rigor) :=
  he.expression.cons (fits_expect (by decide)).single

theorem Conforms.grouped (he : Conforms tokens rigor expressions)
    (h : ∀ c, pre c → c.kind = .leftParen) :
    Fits tokens rigor pre (grouped expressions)
      (token tokens [.leftParen] * Production.closed tokens rigor) :=
  (fits_tokenOf h (by decide)).cons he.closed.within.single

theorem Conforms.parenthesized (he : Conforms tokens rigor expressions)
    (h : ∀ c, pre c → c.kind = .leftParen) :
    Fits tokens rigor pre (one (parenthesized expressions))
      (Production.expression rigor ⊓ Production.node [.parenthesizedExpression]) :=
  (he.grouped h).single.node le_rfl fun cs hcs =>
    ⟨expression_mem rfl (by decide) hcs, node_mem cs (List.mem_singleton_self _)⟩

/-! ### Lists between brackets -/

theorem fits_elementRest : Fits tokens rigor pre elementRest (1 + fault rigor) := by
  apply Fits.ite
  · exact fits_nil (.inl Language.nil_mem_one)
  · apply (tests_look Cursor.kind).fits
    intro found
    apply Fits.mono (Fits.report (fits_anyNode ?_)) fun _ h => .inr h
    exact (fits_bumpWhile _).single

/-- An element after a comma, if there is one. -/
theorem fits_commaElement (h : Fits tokens rigor (fun _ => True) element L) :
    Fits tokens rigor pre
      (flat do if ← isAt .comma then return some (← row [bump, element]) else return none)
      (1 + token tokens [.comma] * L) := by
  apply Fits.flat_ite
  · rw [flat_some]
    apply Fits.mono (Fits.cons ?_ h.single) fun _ h => .inr h
    exact fits_tokenOf (fun c hc => by simpa using hc.2) (by decide)
  · rw [flat_none]
    exact fits_nil (.inl Language.nil_mem_one)

theorem fits_separated {closer : TokenKind} (h : Fits tokens rigor (fun _ => True) element L) :
    Fits tokens rigor pre (separated closer element) (Production.separated tokens L) := by
  apply Fits.ite
  · exact fits_nil (.inl Language.nil_mem_one)
  · exact (h.of_pre.cons (Fits.many (fits_commaElement h)).single).mono fun _ h => .inr h

theorem fits_delimited (opener closer : TokenKind) (h : ∀ c, pre c → c.kind = opener)
    (hopener : opener ≠ .endOfFile) (hcloser : closer ≠ .endOfFile)
    (helement : Fits tokens rigor (fun _ => True) element L) :
    Fits tokens rigor pre (delimited closer element)
      (token tokens [opener] * elements tokens rigor closer L) := by
  apply (fits_tokenOf h hopener).cons
  apply Fits.single
  apply Fits.within
  exact (fits_separated helement).cons (fits_expect hcloser).single

theorem Conforms.optionalValue (he : Conforms tokens rigor expressions) :
    Fits tokens rigor pre (optionalValue expressions) (optional rigor) := by
  apply Fits.ite
  · exact fits_emptyExpression.mono fun _ h => .inl h
  · exact he.expression.mono fun _ h => .inr h

theorem mem_of_argumentNames {k : TokenKind} (h : argumentNames.contains k) :
    k ∈ [.identifier, .string, .dots, .nullKeyword] := by
  simpa [argumentNames, TokenSet.ofList, TokenSet.contains] using h

theorem ne_endOfFile_of_argumentNames {k : TokenKind} (h : argumentNames.contains k) :
    k ≠ .endOfFile := by
  rintro rfl
  exact absurd (mem_of_argumentNames h) (by decide)

/-- The node around the name of an argument may hold it. -/
theorem nameNode_spec {k : TokenKind} (h : argumentNames.contains k) :
    nameNode k ∈ [.identifierExpression, .stringLiteralExpression, .nullLiteral] ∧
      token tokens [k] ≤ children tokens rigor (nameNode k) := by
  have hk := mem_of_argumentNames h
  simp only [List.mem_cons, List.not_mem_nil, or_false] at hk
  rcases hk with rfl | rfl | rfl | rfl
  · exact ⟨by simp [nameNode], token_mono (by simp)⟩
  · exact ⟨by simp [nameNode], token_mono (by simp)⟩
  · exact ⟨by simp [nameNode], token_mono (by simp)⟩
  · exact ⟨by simp [nameNode], token_mono (by simp)⟩

theorem namesArgument_spec {c : Cursor} (h : namesArgument c = true) :
    argumentNames.contains c.kind ∧ c.advance.kind = .equal := by
  simp only [namesArgument, Bool.and_eq_true, beq_iff_eq] at h
  obtain ⟨hname, hequal⟩ := h
  have hend : c.atEnd = false := 
    beq_eq_false_iff_ne.mpr (ne_endOfFile_of_argumentNames hname)
  exact ⟨hname, (Cursor.kind_advance hend).trans hequal⟩

/-- The operator of an argument with a name, or of a default. -/
theorem fits_equal (h : ∀ c, pre c → c.kind = .equal) :
    Fits tokens rigor pre (one (leaf .assignOperator))
      (operator tokens .assignOperator [.equal]) :=
  fits_operatorLeaf (fun c hc => by simp [h c hc]) (by decide) (token_mono (by simp))

theorem Conforms.namedArgument (he : Conforms tokens rigor expressions)
    (h : ∀ c, pre c → namesArgument c = true) :
    Fits tokens rigor pre (one (namedArgument expressions))
      (Production.node [.namedArgument]) := by
  rw [Grammar.namedArgument, one_bind]
  apply (tests_look Cursor.kind).fits
  intro found
  apply fits_anyNode
  by_cases hfound : argumentNames.contains found
  · obtain ⟨hnode, htokens⟩ := nameNode_spec hfound
    have hend := ne_endOfFile_of_argumentNames hfound
    apply Fits.cons_of fun c => c.kind = .equal
    · exact fits_leaf [found] (fun c hc => List.mem_singleton.mpr hc.2) (by simpa using hend.symm)
        htokens
        fun cs _ => node_mem cs hnode
    · exact fun context c _ hc => (namesArgument_spec (h c hc.1)).2
    · exact (fits_equal fun c hc => hc).cons he.optionalValue.single
  · exact fun context c _ hc => absurd (hc.2 ▸ (namesArgument_spec (h c hc.1)).1) hfound

theorem Conforms.argument (he : Conforms tokens rigor expressions) :
    Fits tokens rigor pre (argument expressions) (Production.argument rigor) := by
  apply Fits.ite
  · exact fits_emptyExpression.mono fun _ h => .inl h
  · apply Fits.mono (Fits.cons ?_ fits_elementRest.single) fun _ h => .inr h
    apply Fits.ite
    · exact (he.namedArgument fun c hc => hc.2).mono fun _ h => .inl h
    · exact he.expression.mono fun _ h => .inr h

theorem Conforms.argumentList (he : Conforms tokens rigor expressions)
    (h : ∀ c, pre c → c.kind = .leftParen) :
    Fits tokens rigor pre (one (argumentList expressions)) (Production.node [.argumentList]) :=
  fits_anyNode (fits_delimited _ _ h (by decide) (by decide) he.argument).single

/-- What stands between brackets after an expression. -/
def subscriptRows (tokens : List Token) (rigor : Rigor) : Language Outline :=
  token tokens [.leftBracket] * elements tokens rigor .rightBracket (Production.argument rigor) +
    token tokens [.leftDoubleBracket] *
      elements tokens rigor .rightDoubleBracket (Production.argument rigor)

theorem Conforms.subscripts (he : Conforms tokens rigor expressions)
    (h : ∀ c, pre c → c.kind = .leftBracket ∨ c.kind = .leftDoubleBracket) :
    Fits tokens rigor pre (subscripts expressions) (subscriptRows tokens rigor) := by
  apply (tests_look fun c : Cursor => c.kind == .leftDoubleBracket).fits
  intro double
  cases double with
  | true =>
    refine (fits_delimited .leftDoubleBracket .rightDoubleBracket (fun c hc => ?_) (by decide)
      (by decide) he.argument).mono fun _ h => .inr h
    simpa using hc.2
  | false =>
    refine (fits_delimited .leftBracket .rightBracket (fun c hc => ?_) (by decide)
      (by decide) he.argument).mono fun _ h => .inl h
    exact (h c hc.1).resolve_right (by simpa using hc.2)

theorem Conforms.parameterName (he : Conforms tokens rigor expressions) :
    Fits tokens rigor pre (parameterName expressions) (Production.parameter tokens rigor) := by
  apply Fits.ite
  · apply Fits.mono (Fits.cons ?_ (Fits.single (Fits.ite ?_ ?_))) fun _ h => .inl h
    · refine fits_leaf [.identifier, .dots] (fun c hc => ?_) (by decide)
        (token_mono (by simp)) fun cs _ => node_mem cs (by simp)
      simpa using hc.2
    · refine ((fits_equal fun c hc => ?_).cons he.expression.single).mono fun _ h => .inr h
      simpa using hc.2
    · exact fits_nil (.inl Language.nil_mem_one)
  · apply (tests_look Cursor.kind).fits
    intro found
    apply Fits.mono (Fits.report (Fits.ite ?_ ?_)) fun _ h => .inr h
    · exact fits_emptyError.mono fun _ h => .inl h
    · exact fits_nil (.inr Language.nil_mem_one)

theorem Conforms.parameter (he : Conforms tokens rigor expressions) :
    Fits tokens rigor pre (one (parameter expressions)) (Production.node [.parameter]) :=
  fits_anyNode (he.parameterName.cons fits_elementRest.single)

theorem Conforms.parameterList (he : Conforms tokens rigor expressions) :
    Fits tokens rigor pre (one (parameterList expressions)) (Production.node [.parameterList]) := by
  apply fits_anyNode
  apply Fits.single
  apply Fits.ite
  · refine (fits_delimited .leftParen .rightParen (fun c hc => ?_) (by decide)
      (by decide) he.parameter).mono fun _ h => .inl h
    simpa using hc.2
  · refine (fits_expect_of_ne fun c hc => ?_).mono fun _ h => .inr h
    simpa using hc.2

end RSource.Grammar
