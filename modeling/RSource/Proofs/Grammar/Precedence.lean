import RSource.Grammar.Precedence
import RSource.Proofs.Grammar.Operand

/-! Expressions keep to the grammar at every level.  Calls and operators put the expression read so
far into a larger one, which fits if what is read after it fits. -/

namespace RSource.Grammar

open scoped Computability
open RSource.Parser RSource.Production

variable {tokens : List Token} {rigor : Rigor} {expressions : Expressions}
variable {pre : Cursor → Prop} {context : Context} {c d : Cursor} {o : Outline}

/-! ### Growing -/

/-- What a step makes of the outline `o` before the cursor: nothing, or an expression that begins
with `o` and goes on with what is read. -/
structure Growing (tokens : List Token) (rigor : Rigor) (c : Cursor) (o : Outline)
    (r : Outcome (Option Outline)) : Prop where
  none : r.value = none → r.cursor = c
  some : ∀ p, r.value = some p → ∃ kind M rest, p = .node kind (o :: rest) ∧
    kind.isExpression = true ∧ kind ≠ .emptyExpression ∧
    Production.expression rigor * M ≤ children tokens rigor kind ∧
    Fitting tokens rigor c M ⟨rest, r.cursor, r.errors⟩

theorem growing_none (context : Context) (c : Cursor) :
    Growing tokens rigor c o ((pure none : Parser (Option Outline)) context c) :=
  ⟨fun _ => rfl, fun _ h => by cases h⟩

theorem growing_node {p : Part} {M : Language Outline} (kind : NodeKind) (o : Outline)
    (h : Fitting tokens rigor c M (p context c)) (hexpression : kind.isExpression = true)
    (hempty : kind ≠ .emptyExpression)
    (hM : Production.expression rigor * M ≤ children tokens rigor kind) :
    Growing tokens rigor c o
      ((do return some (.node kind (o :: (← p))) : Parser (Option Outline)) context c) := by
  refine ⟨fun h => by simp [bind_apply] at h, fun p hp => ?_⟩
  obtain rfl := Option.some.inj hp
  refine ⟨kind, M, _, rfl, hexpression, hempty, hM, ?_⟩
  simpa [bind_apply] using h

/-- An expression that grows is one. -/
theorem Growing.fitting {r : Outcome (Option Outline)} {es : List ParseError}
    (h : Fitting tokens rigor c (Production.expression rigor) ⟨[o], d, es⟩)
    (hgrow : Growing tokens rigor d o r) :
    Fitting tokens rigor c (Production.expression rigor)
      ⟨[r.value.getD o], r.cursor, es ++ r.errors⟩ := by
  cases hvalue : r.value with
  | none =>
    rw [hgrow.none hvalue]
    refine ⟨h.reads, fun hadmits => h.derived (Rigor.admits_append.mp hadmits).1⟩
  | some p =>
    obtain ⟨kind, M, rest, rfl, hexpression, hempty, hM, hrest⟩ := hgrow.some p hvalue
    obtain ⟨⟨xs, hxs, htokens⟩, hderived⟩ := h.append hrest
    refine ⟨⟨xs, hxs, ?_⟩, fun hadmits => ?_⟩
    · simpa [Outline.forestTokens, Outline.tokens] using htokens
    · obtain ⟨hmem, hall⟩ := hderived hadmits
      exact ⟨expression_mem hexpression hempty (hM hmem), ⟨hM hmem, hall⟩, trivial⟩

theorem fitting_growFor {step : Outline → Parser (Option Outline)}
    (hstep : ∀ o context c, c.Over tokens → Growing tokens rigor c o (step o context c))
    (context : Context) (hover : c.Over tokens) (items : List Item) :
    ∀ (o : Outline) (d : Cursor) (es : List ParseError),
      Fitting tokens rigor c (Production.expression rigor) ⟨[o], d, es⟩ →
      Fitting tokens rigor c (Production.expression rigor)
        ⟨[(growFor step items o context d).value], (growFor step items o context d).cursor,
          es ++ (growFor step items o context d).errors⟩ := by
  induction items with
  | nil =>
    intro o d es h
    simpa [growFor] using h
  | cons item items ih =>
    intro o d es h
    have hgrow := hstep o context d (h.cursor_over hover)
    have hnext := hgrow.fitting h
    rw [growFor, bind_apply]
    cases hvalue : (step o context d).value with
    | none =>
      rw [hvalue] at hnext
      simpa using hnext
    | some p =>
      rw [hvalue] at hnext
      simpa using ih p _ _ hnext

theorem fitting_grow {step : Outline → Parser (Option Outline)}
    (hstep : ∀ o context c, c.Over tokens → Growing tokens rigor c o (step o context c))
    (context : Context) (hover : c.Over tokens) {es : List ParseError}
    (h : Fitting tokens rigor c (Production.expression rigor) ⟨[o], d, es⟩) :
    Fitting tokens rigor c (Production.expression rigor)
      ⟨[(grow step o context d).value], (grow step o context d).cursor,
        es ++ (grow step o context d).errors⟩ :=
  fitting_growFor hstep context hover d.items o d es h

/-! ### Calls, subscripts and members -/

theorem Conforms.member (he : Conforms tokens rigor expressions) :
    Fits tokens rigor pre (member expressions) (Production.member rigor) := by
  apply Fits.ite
  · apply Fits.mono (he.parenthesized fun c hc => by simpa using hc.2)
    rintro _ ⟨-, kind, cs, rfl, hkind⟩
    exact .inl (node_mem cs (by simp [List.mem_singleton.mp hkind]))
  · apply (suits_memberNode?.named _).mono
    rintro os (⟨kind, cs, rfl, hkind⟩ | hfault)
    · simp only [List.mem_cons, List.not_mem_nil, or_false] at hkind
      rcases hkind with rfl | rfl
      · exact .inl (node_mem cs (by simp))
      · exact .inl (node_mem cs (by simp))
    · exact .inr hfault

theorem Conforms.trailer? (he : Conforms tokens rigor expressions) (o : Outline)
    (context : Context) (hover : c.Over tokens) :
    Growing tokens rigor c o (trailer? expressions o context c) := by
  rw [Grammar.trailer?, newlineBreaks_bind]
  split
  · exact growing_none context c
  rw [Parser.kind, look_bind]
  generalize hk : c.kind = k
  split
  · have hlist := Fits.here (he.argumentList (by rintro _ rfl; exact hk)) context hover
    have hgrow := growing_node .callExpression o hlist rfl (by decide) le_rfl
    simpa [one, bind_apply] using hgrow
  · have hlist := Fits.here (he.subscripts (by rintro _ rfl; exact .inl hk)) context hover
    exact growing_node _ o hlist rfl (by decide) le_rfl
  · have hlist := Fits.here (he.subscripts (by rintro _ rfl; exact .inr hk)) context hover
    exact growing_node _ o hlist rfl (by decide) le_rfl
  · have hdollar : Fits tokens rigor (· = c) (one (leaf .dollarOperator))
        (Production.node [.dollarOperator]) :=
      fits_anyNode (fits_tokenOf (fun _ hc => hc ▸ hk) (by decide)).single
    exact growing_node _ o ((hdollar.cons he.member.single).here context hover) rfl (by decide)
      le_rfl
  · have hat : Fits tokens rigor (· = c) (one (leaf .atOperator))
        (Production.node [.atOperator]) :=
      fits_anyNode (fits_tokenOf (fun _ hc => hc ▸ hk) (by decide)).single
    exact growing_node _ o ((hat.cons he.member.single).here context hover) rfl (by decide) le_rfl
  · exact growing_none context c

/-! ### Operators -/

/-- What may stand right of the operator of a rule. -/
def rightRows (rigor : Rigor) (rule : Rule) : Language Outline :=
  if rule.optional then optional rigor else Production.operand rigor

/-- What a rule of the grammar has in common with all others: it makes an expression, its operators
are tokens, and its node takes an expression, an operator and what may stand right of it. -/
structure Sound (tokens : List Token) (rigor : Rigor) (rule : Rule) : Prop where
  expression : rule.node.isExpression = true
  nonempty : rule.node ≠ .emptyExpression
  ending : .endOfFile ∉ rule.operators.kinds
  operator : token tokens rule.operators.kinds ≤ children tokens rigor rule.operator
  rows : Production.expression rigor *
      (Production.operator tokens rule.operator rule.operators.kinds * rightRows rigor rule) ≤
    children tokens rigor rule.node

theorem operator_le_node (kind : NodeKind) (kinds : List TokenKind) :
    Production.operator tokens kind kinds ≤ Production.node [kind] := by
  rintro _ ⟨cs, rfl, -⟩
  exact node_mem cs (List.mem_singleton_self kind)

theorem operator_mono (kind : NodeKind) {kinds kinds' : List TokenKind} (h : kinds ⊆ kinds') :
    Production.operator tokens kind kinds ≤ Production.operator tokens kind kinds' := by
  rintro _ ⟨cs, rfl, hcs⟩
  exact ⟨cs, rfl, token_mono h hcs⟩

theorem sound_binary {operators : List TokenKind} {operator : NodeKind} {grouping : Grouping}
    (hend : .endOfFile ∉ operators) (hmem : operator ∈ binaryOperators)
    (htokens : token tokens operators ≤ children tokens rigor operator) :
    Sound tokens rigor ⟨.ofList operators, operator, .operatorExpression, grouping, false⟩ := by
  refine ⟨rfl, by simp, hend, htokens, ?_⟩
  apply mul_le_mul' le_rfl
  apply mul_le_mul' _ le_rfl
  rintro _ ⟨cs, rfl, -⟩
  exact node_mem cs hmem

theorem sound_assignment {operators : List TokenKind} {grouping : Grouping}
    (h : operators ⊆
      [.leftAssign, .leftSuperAssign, .colonAssign, .rightAssign, .rightSuperAssign]) :
    Sound tokens rigor
      ⟨.ofList operators, .assignOperator, .assignmentStatement, grouping, false⟩ := by
  refine ⟨rfl, by simp, fun hend => absurd (h hend) (by decide), ?_, ?_⟩
  · apply token_mono
    intro k hk
    have := h hk
    simp only [List.mem_cons, List.not_mem_nil, or_false] at this ⊢
    tauto
  · exact le_trans (mul_le_mul' le_rfl (mul_le_mul' (operator_mono _ h) le_rfl)) fun _ h => .inl h

theorem sound_of_mem {rule : Rule} (h : rule ∈ Rule.all) : Sound tokens rigor rule := by
  simp only [Rule.all, Rule.formulas, Rule.comparisons, Rule.powers, Rule.leftward, Rule.rightward,
    List.cons_append, List.nil_append, List.mem_cons, List.not_mem_nil, or_false] at h
  rcases h with rfl | rfl | rfl | rfl | h
  · exact sound_assignment (by decide)
  · exact ⟨rfl, by decide, by decide, token_mono (by decide), fun _ h => .inr h⟩
  · exact sound_assignment (by decide)
  · exact ⟨rfl, by decide, by decide, le_rfl,
      mul_le_mul' le_rfl (mul_le_mul' (operator_le_node _ _) le_rfl)⟩
  · rcases h with rfl | rfl | rfl | rfl | rfl | rfl | rfl | rfl
    all_goals exact sound_binary (by decide) (by decide) le_rfl

theorem Conforms.rightOperand (he : Conforms tokens rigor expressions) (rule : Rule)
    {rules : List Rule} (hrules : rules ⊆ Rule.all) :
    Fits tokens rigor pre (rightOperand expressions rule rules) (rightRows rigor rule) := by
  have hparsed : Fits tokens rigor pre (maybe (expressions rules))
      (1 + Production.expression rigor) := (he rules hrules).of_pre
  rw [rightRows]
  by_cases hoptional : rule.optional = true
  · rw [if_pos hoptional]
    have hempty : Fits tokens rigor (fun _ => True)
        (if rule.optional then one emptyExpression else missingExpression)
        (Production.node [.emptyExpression]) := by
      rw [if_pos hoptional]
      exact fits_emptyExpression
    apply (hparsed.orElse hempty).mono
    exact add_le (fun _ h => .inr (.inl h)) fun _ h => .inl h
  · rw [if_neg hoptional]
    apply hparsed.orElse
    rw [if_neg hoptional]
    exact fits_missingExpression

theorem Conforms.operation? (he : Conforms tokens rigor expressions) {rule : Rule}
    (hrule : rule ∈ Rule.all) {rules : List Rule} (hrules : rules ⊆ Rule.all) (o : Outline)
    (context : Context) (hover : c.Over tokens) :
    Growing tokens rigor c o (operation? expressions rule rules o context c) := by
  rw [Grammar.operation?, isIn, look_bind, newlineBreaks_bind]
  split
  · next h =>
    have hsound : Sound tokens rigor rule := sound_of_mem hrule
    have hc : c.kind ∈ rule.operators.kinds := by
      simp only [Bool.and_eq_true, TokenSet.contains, List.contains_iff_mem] at h
      exact h.1
    have hoperator : Fits tokens rigor (· = c) (one (leaf rule.operator))
        (operator tokens rule.operator rule.operators.kinds) :=
      fits_operatorLeaf (fun _ h => h ▸ hc) hsound.ending hsound.operator
    have hrow := hoperator.cons (he.rightOperand rule hrules).single
    exact growing_node _ o (hrow.here context hover) hsound.expression hsound.nonempty hsound.rows
  · exact growing_none context c

/-! ### Levels -/

theorem fitting_maybe {p : Parser (Option Outline)}
    (h : Fitting tokens rigor c (Production.expression rigor)
      ⟨[o], (p context c).cursor, (p context c).errors⟩) (hvalue : (p context c).value = some o) :
    Fitting tokens rigor c (1 + Production.expression rigor) (maybe p context c) := by
  simp only [maybe, bind_apply, pure_apply, List.append_nil, hvalue]
  exact ⟨h.reads, fun hadmits => (h.derived hadmits).imp_left Or.inr⟩

theorem fitting_maybe_none {p : Parser (Option Outline)} (hcursor : (p context c).cursor = c)
    (hvalue : (p context c).value = none) :
    Fitting tokens rigor c (1 + Production.expression rigor) (maybe p context c) := by
  simp only [maybe, bind_apply, pure_apply, List.append_nil, hvalue, hcursor]
  exact ⟨⟨[], .refl c, rfl⟩, fun _ => ⟨.inl rfl, trivial⟩⟩

/-- Each level puts its operators around what the tighter levels give. -/
theorem Conforms.climb (he : Conforms tokens rigor expressions) :
    ∀ rules ⊆ Rule.all, Fits tokens rigor (fun _ => True) (maybe (climb expressions rules))
      (1 + Production.expression rigor)
  | [], _ => by
    intro context c hover _
    have hoperand : Fits tokens rigor (· = c) (maybe (Grammar.operand? expressions)) _ :=
      he.operand?.of_pre
    cases hvalue : (Grammar.operand? expressions context c).value with
    | none =>
      apply fitting_maybe_none
      · simpa [Grammar.climb, bind_apply, hvalue] using hoperand.value_none hover hvalue
      · simp [Grammar.climb, bind_apply, hvalue]
    | some o =>
      have hgrown := fitting_grow (fun o context _ hover => he.trailer? o context hover) context
        hover (hoperand.value_some hover hvalue)
      apply fitting_maybe
      · simpa [Grammar.climb, bind_apply, hvalue] using hgrown
      · simp [Grammar.climb, bind_apply, hvalue]
  | rule :: tighter, hrules => by
    intro context c hover _
    have hrule : rule ∈ Rule.all := hrules List.mem_cons_self
    have htighter : tighter ⊆ Rule.all := fun r hr => hrules (List.mem_cons_of_mem _ hr)
    have hleft : Fits tokens rigor (· = c) (maybe (Grammar.climb expressions tighter)) _ :=
      (Conforms.climb he tighter htighter).of_pre
    cases hvalue : (Grammar.climb expressions tighter context c).value with
    | none =>
      apply fitting_maybe_none
      · simpa [Grammar.climb, bind_apply, hvalue] using hleft.value_none hover hvalue
      · simp [Grammar.climb, bind_apply, hvalue]
    | some left =>
      have hfirst := hleft.value_some hover hvalue
      cases hgrouping : rule.grouping with
      | left =>
        have hgrown := fitting_grow
          (fun o context _ hover => he.operation? hrule htighter o context hover) context hover
          hfirst
        apply fitting_maybe
        · simpa [Grammar.climb, bind_apply, hvalue, hgrouping] using hgrown
        · simp [Grammar.climb, bind_apply, hvalue, hgrouping]
      | right =>
        have hgrown :=
          (he.operation? hrule hrules left context (hfirst.cursor_over hover)).fitting hfirst
        apply fitting_maybe
        · simpa [Grammar.climb, bind_apply, hvalue, hgrouping] using hgrown
        · simp [Grammar.climb, bind_apply, hvalue, hgrouping]

theorem conforms_expressionsUpTo (tokens : List Token) (rigor : Rigor) :
    ∀ depth, Conforms tokens rigor (expressionsUpTo depth)
  | 0 => fun rules _ => by
    simp only [expressionsUpTo, maybe_none]
    exact fits_nil (.inl Language.nil_mem_one)
  | depth + 1 => (conforms_expressionsUpTo tokens rigor depth).climb

theorem fits_source : Fits tokens rigor pre (one source) (Production.node [.file]) := by
  rw [source, one_bind]
  exact (tests_look Cursor.remaining).fits fun depth => (conforms_expressionsUpTo _ _ _).file

end RSource.Grammar
