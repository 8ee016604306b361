import RSource.Proofs.Grammar.Built
import RSource.Proofs.Grammar.Source
import RSource.Proofs.Parser.Alike

/-! The bound on the depth of expressions is never met.  Wherever a production reads an expression
inside another, it has taken up an item before.  So expressions that nest to different depths are
the same where both depths exceed the number of items left, and one may leave out the bound. -/

namespace RSource.Grammar

open RSource.Parser

variable {tokens : List Token} {n : Nat} {expressions expressions' : Expressions}

/-- Both parsers do the same, at every level of the grammar, wherever fewer than `n` items are left.
-/
def AlikeBelow (tokens : List Token) (n : Nat) (expressions expressions' : Expressions) : Prop :=
  ∀ rules ⊆ Rule.all, Alike tokens n (expressions rules) (expressions' rules)

theorem operators_endOfFile {rule : Rule} (hrule : rule ∈ Rule.all) :
    rule.operators.contains .endOfFile = false := by
  revert rule
  decide

theorem alike_delimited (closer : TokenKind) {element element' : Part}
    (h : Alike tokens n element element') :
    AlikeInside tokens (n + 1) (delimited closer element) (delimited closer element') := by
  have hmore : Alike tokens n (row [bump, element]) (row [bump, element']) :=
    .row (.refl .bump) (h.row (.refl .nil))
  have hseparated : Alike tokens n (separated closer element) (separated closer element') :=
    .look fun _ => .ite (.refl (.pure [])) (h.row (.row
      (.many (.look fun _ => .ite (hmore.map some) (.refl (.pure none)))) (.refl .nil)))
  exact .led (.row ((hseparated.row (.refl ((Built.expect _ _).row .nil))).within _) (.refl .nil))
    fun _ _ => rfl

/-! ### Productions

What begins with a token may begin with one item more left than the expressions in it. -/

section

variable (he : AlikeBelow tokens n expressions expressions')

include he

theorem alike_operand {rules : List Rule} (hrules : rules ⊆ Rule.all) :
    Alike tokens n (operand expressions rules) (operand expressions' rules) := by
  refine (he rules hrules).bind fun o => ?_
  cases o with
  | none => exact .refl built_missingExpression
  | some o => exact .refl (.pure [o])

theorem alike_expression :
    Alike tokens n (expression expressions) (expression expressions') :=
  alike_operand he (List.Subset.refl _)

theorem alike_bumpExpression :
    Alike tokens n (row [bump, expression expressions]) (row [bump, expression expressions']) :=
  .row (.refl .bump) ((alike_expression he).row (.refl .nil))

theorem alike_grouped :
    AlikeInside tokens (n + 1) (grouped expressions) (grouped expressions') :=
  .led (.row (((alike_expression he).row (.refl ((Built.expect _ _).row .nil))).within _)
    (.refl .nil)) fun _ _ => rfl

theorem alike_parenthesized :
    AlikeInside tokens (n + 1) (parenthesized expressions) (parenthesized expressions') :=
  ((alike_grouped he).row (.refl .nil)).node _

theorem alike_statement? (closers : TokenSet) :
    Alike tokens n (statement? expressions closers) (statement? expressions' closers) := by
  refine .look fun semicolon => .ite (.refl (Built.bump.found)) (.look fun closed =>
    .ite (.refl (.pure none)) (.look fun starts => .ite ?_ ?_))
  · exact (he Rule.all (List.Subset.refl _)).bind fun parsed => .refl
      ((Built.look _ (.inl trivial)).bind fun ends =>
        (Built.pure _).ite ((built_skipStatement closers).bind fun _ => .pure _))
  · exact .refl (built_skipStatement closers).found

theorem alike_statements (closers : TokenSet) :
    Alike tokens n (statements expressions closers) (statements expressions' closers) :=
  (alike_statement? he closers).many

theorem alike_block : AlikeInside tokens (n + 1) (block expressions) (block expressions') :=
  AlikeInside.node _ (.led (.row ((alike_statements he _).within _)
    (.refl ((Built.expect _ _).row .nil))) fun _ _ => rfl)

theorem alike_file : Alike tokens n (file expressions) (file expressions') :=
  ((alike_statements he _).row (.refl .nil)).node _

/-! ### Lists between brackets -/

theorem alike_optionalValue :
    Alike tokens n (optionalValue expressions) (optionalValue expressions') :=
  .look fun _ => .ite (.refl built_emptyExpression.one) (alike_expression he)

theorem alike_namedArgument :
    Alike tokens n (namedArgument expressions) (namedArgument expressions') :=
  .look fun _ => .node _ (.row (.refl (Built.leaf _).one) (.row (.refl (Built.leaf _).one)
    ((alike_optionalValue he).row (.refl .nil))))

theorem alike_argument : Alike tokens n (argument expressions) (argument expressions') :=
  .look fun _ => .ite (.refl built_emptyExpression.one) (.row
    (.look fun _ => .ite (alike_namedArgument he).one (alike_expression he))
    (.refl (built_elementRest.row .nil)))

theorem alike_argumentList :
    AlikeInside tokens (n + 1) (argumentList expressions) (argumentList expressions') :=
  ((alike_delimited _ (alike_argument he)).row (.refl .nil)).node _

theorem alike_subscripts :
    AlikeInside tokens (n + 1) (subscripts expressions) (subscripts expressions') :=
  fun c hover hc hend => .look (alike_delimited _ (alike_argument he) c hover hc hend)

theorem alike_parameterName :
    Alike tokens n (parameterName expressions) (parameterName expressions') := by
  have hdefault : Alike tokens n
      (row [one (leaf .assignOperator), expression expressions])
      (row [one (leaf .assignOperator), expression expressions']) :=
    .row (.refl (Built.leaf _).one) ((alike_expression he).row (.refl .nil))
  refine .look fun _ => .ite (.row (.refl (Built.leaf _).one) (.row
    (.look fun _ => .ite hdefault (.refl (.pure []))) (.refl .nil))) (.refl ?_)
  exact Built.kind.bind fun _ => (Built.report _).bind fun _ =>
    (Built.look _ (.inl trivial)).bind fun _ => (Built.nil.node _).one.ite (.pure _)

theorem alike_parameter : Alike tokens n (parameter expressions) (parameter expressions') :=
  ((alike_parameterName he).row (.refl (built_elementRest.row .nil))).node _

theorem alike_parameterList :
    Alike tokens n (parameterList expressions) (parameterList expressions') :=
  .node _ (.row (((alike_delimited _ (alike_parameter he).one).mono (Nat.le_succ n)).ite_isAt
    (by decide) (.refl (.expect _ _))) (.refl .nil))

/-! ### Operands -/

theorem alike_condition : Alike tokens n (condition expressions) (condition expressions') :=
  ((alike_grouped he).mono (Nat.le_succ n)).ite_isAt (by decide) (.refl (.expect _ _))

theorem alike_conditional :
    AlikeInside tokens (n + 1) (conditional expressions) (conditional expressions') :=
  .node _ (.led ((alike_condition he).row ((alike_expression he).row (.row
    (.look fun _ => .ite (alike_bumpExpression he) (.refl (.pure []))) (.refl .nil))))
    fun _ _ => rfl)

theorem alike_whileLoop :
    AlikeInside tokens (n + 1) (whileLoop expressions) (whileLoop expressions') :=
  .node _ (.led ((alike_condition he).row ((alike_expression he).row (.refl .nil))) fun _ _ => rfl)

theorem alike_repeatLoop :
    AlikeInside tokens (n + 1) (repeatLoop expressions) (repeatLoop expressions') :=
  .node _ (.led ((alike_expression he).row (.refl .nil)) fun _ _ => rfl)

theorem alike_loopRange : Alike tokens n (loopRange expressions) (loopRange expressions') :=
  .look fun _ => .ite (alike_bumpExpression he) (.refl (.expect _ _))

theorem alike_loopHeader : Alike tokens n (loopHeader expressions) (loopHeader expressions') := by
  have hheader : Alike tokens n
      (row [named binderNode? .noLoopVariable, loopRange expressions,
        expect .rightParen (.notClosed .rightParen)])
      (row [named binderNode? .noLoopVariable, loopRange expressions',
        expect .rightParen (.notClosed .rightParen)]) :=
    .row (.refl (built_named _ _)) ((alike_loopRange he).row (.refl ((Built.expect _ _).row .nil)))
  exact .look fun _ => .ite (.row (.refl .bump) ((hheader.within _).row (.refl .nil)))
    (.refl (.expect _ _))

theorem alike_forLoop :
    AlikeInside tokens (n + 1) (forLoop expressions) (forLoop expressions') :=
  .node _ (.led ((alike_loopHeader he).row ((alike_expression he).row (.refl .nil))) fun _ _ => rfl)

theorem alike_function :
    AlikeInside tokens (n + 1) (function expressions) (function expressions') :=
  .node _ (.led ((alike_parameterList he).one.row ((alike_expression he).row (.refl .nil)))
    fun _ _ => rfl)

theorem alike_help : AlikeInside tokens (n + 1) (help expressions) (help expressions') :=
  .node _ (.led (.row (.refl (.eat _)) (.row
    (.look fun _ => .ite (.refl .bump) (alike_expression he)) (.refl .nil))) fun _ _ => rfl)

theorem alike_signed (operator kind : NodeKind) {rules : List Rule} (hrules : rules ⊆ Rule.all) :
    AlikeInside tokens (n + 1) (signed expressions operator kind rules)
      (signed expressions' operator kind rules) :=
  .node _ (.led ((alike_operand he hrules).row (.refl .nil)) fun _ _ => rfl)

theorem alike_operand? : Alike tokens (n + 1) (operand? expressions) (operand? expressions') := by
  intro c hover hc
  refine .look ?_
  -- An expression inside a production stands behind the token that the production begins with.
  have hinside {p q : Parser Outline} {k : TokenKind} (hk : c.kind = k) (hend : k ≠ .endOfFile)
      (h : AlikeInside tokens (n + 1) p q) :
      AlikeAt c (do return some (← p)) (do return some (← q)) :=
    (h.map some).at_kind hover hc hk hend
  cases literalNode? c.kind with
  | some literal => exact .refl (Built.leaf literal).found hover
  | none =>
    cases symbolNode? c.kind with
    | some name => exact .refl (built_symbol name).found hover
    | none =>
      dsimp only
      split
      · exact .refl (built_faulty _ _).found hover
      · exact .refl (built_faulty _ _).found hover
      · next hk => exact hinside hk (by decide) (alike_parenthesized he)
      · next hk => exact hinside hk (by decide) (alike_block he)
      · next hk => exact hinside hk (by decide) (alike_conditional he)
      · next hk => exact hinside hk (by decide) (alike_whileLoop he)
      · next hk => exact hinside hk (by decide) (alike_forLoop he)
      · next hk => exact hinside hk (by decide) (alike_repeatLoop he)
      · next hk => exact hinside hk (by decide) (alike_function he)
      · next hk => exact hinside hk (by decide) (alike_function he)
      · next hk => exact hinside hk (by decide) (alike_help he)
      · next hk => exact hinside hk (by decide) (alike_signed he _ _ formulas_subset)
      · next hk => exact hinside hk (by decide) (alike_signed he _ _ comparisons_subset)
      · next hk => exact hinside hk (by decide) (alike_signed he _ _ powers_subset)
      · next hk => exact hinside hk (by decide) (alike_signed he _ _ powers_subset)
      · exact .refl (.pure none) hover

/-! ### Levels of precedence -/

theorem alike_member : Alike tokens n (member expressions) (member expressions') :=
  (((alike_parenthesized he).mono (Nat.le_succ n)).map _).ite_isAt (by decide)
    (.refl (built_named _ _))

theorem alike_trailer? (o : Outline) :
    Alike tokens (n + 1) (trailer? expressions o) (trailer? expressions' o) := by
  intro c hover hc
  refine .newlineBreaks 0 fun breaks => .ite (fun _ => .refl (.pure none) hover) fun _ => .look ?_
  have hmember (operator : NodeKind) : AlikeInside tokens (n + 1)
      (row [one (leaf operator), member expressions])
      (row [one (leaf operator), member expressions']) :=
    .led ((alike_member he).row (.refl .nil)) fun _ _ => rfl
  split
  · next hk => exact ((alike_argumentList he).at_kind hover hc hk (by decide)).map _
  · next hk => exact ((alike_subscripts he).at_kind hover hc hk (by decide)).map _
  · next hk => exact ((alike_subscripts he).at_kind hover hc hk (by decide)).map _
  · next hk => exact ((hmember .dollarOperator).at_kind hover hc hk (by decide)).map _
  · next hk => exact ((hmember .atOperator).at_kind hover hc hk (by decide)).map _
  · exact .refl (.pure none) hover

theorem alike_rightOperand (rule : Rule) {rules : List Rule} (hrules : rules ⊆ Rule.all) :
    Alike tokens n (rightOperand expressions rule rules)
      (rightOperand expressions' rule rules) := by
  refine (he rules hrules).bind fun o => ?_
  cases o with
  | none => exact .refl (built_emptyExpression.one.ite built_missingExpression)
  | some o => exact .refl (.pure [o])

theorem alike_operation? {rule : Rule} (hrule : rule ∈ Rule.all) {rules : List Rule}
    (hrules : rules ⊆ Rule.all) (left : Outline) :
    Alike tokens (n + 1) (operation? expressions rule rules left)
      (operation? expressions' rule rules left) := by
  intro c hover hc
  refine .look (.newlineBreaks 0 fun breaks => .ite (fun hop => ?_) fun _ =>
    .refl (.pure none) hover)
  have hend : c.kind ≠ .endOfFile := by
    intro hkind
    rw [hkind, operators_endOfFile hrule] at hop
    cases hop
  have hrow : AlikeInside tokens (n + 1)
      (row [one (leaf rule.operator), rightOperand expressions rule rules])
      (row [one (leaf rule.operator), rightOperand expressions' rule rules]) :=
    .led ((alike_rightOperand he rule hrules).row (.refl .nil)) fun _ _ => rfl
  exact (hrow.at_kind hover hc rfl hend).map _

/-- A level may be one item further from the end than the expressions in it. -/
theorem alike_climb : ∀ rules ⊆ Rule.all,
    Alike tokens (n + 1) (climb expressions rules) (climb expressions' rules)
  | [], _ => by
    refine (alike_operand? he).bind fun o => ?_
    cases o with
    | none => exact .refl (.pure none)
    | some o => exact (Alike.grow (alike_trailer? he) o).map some
  | rule :: tighter, hrules => by
    have hrule : rule ∈ Rule.all := hrules List.mem_cons_self
    have htighter : tighter ⊆ Rule.all := fun r hr => hrules (List.mem_cons_of_mem _ hr)
    refine (alike_climb tighter htighter).bind fun o => ?_
    cases o with
    | none => exact .refl (.pure none)
    | some left =>
      cases rule.grouping with
      | left => exact (Alike.grow (alike_operation? he hrule htighter) left).map some
      | right => exact (alike_operation? he hrule hrules left).map _

end

/-! ### Leaving out the bound -/

/-- What two bounds allow is the same wherever fewer items are left than either.  The induction is
on the number of items: a level of expressions takes one from both bounds. -/
theorem alikeBelow_expressionsUpTo (tokens : List Token) : ∀ n depth depth' : Nat, n ≤ depth →
    n ≤ depth' → AlikeBelow tokens n (expressionsUpTo depth) (expressionsUpTo depth')
  | 0, _, _, _, _ => fun _ _ _ _ hc => absurd hc (Nat.not_lt_zero _)
  | n + 1, depth + 1, depth' + 1, h, h' =>
    alike_climb (alikeBelow_expressionsUpTo tokens n depth depth' (Nat.le_of_succ_le_succ h)
      (Nat.le_of_succ_le_succ h'))

/-- Expressions that nest to any depth. -/
def anyDepth : Expressions :=
  fun rules context c => expressionsUpTo (c.remaining + 1) rules context c

variable {context : Context} {c : Cursor} {rules : List Rule} {depth : Nat}

/-- A bound that exceeds the number of items left makes no difference. -/
theorem expressionsUpTo_eq (hover : c.Over tokens) (hrules : rules ⊆ Rule.all)
    (hdepth : c.remaining < depth) :
    expressionsUpTo depth rules context c = anyDepth rules context c :=
  (alikeBelow_expressionsUpTo tokens (c.remaining + 1) _ _ hdepth (Nat.le_refl _) rules hrules c
    hover (Nat.lt_succ_self _) context).1

theorem alikeBelow_anyDepth (tokens : List Token) (depth : Nat) :
    AlikeBelow tokens depth (expressionsUpTo depth) anyDepth := by
  intro rules hrules c hover hdepth context
  have hbuilt : Built True (expressionsUpTo depth rules) := built_expressionsUpTo depth rules
  exact ⟨expressionsUpTo_eq hover hrules hdepth, hbuilt.reads context hover⟩

/-- Expressions of any depth are built from such expressions. -/
theorem anyDepth_eq_climb (hover : c.Over tokens) (hrules : rules ⊆ Rule.all) :
    anyDepth rules context c = climb anyDepth rules context c :=
  (alike_climb (alikeBelow_anyDepth tokens c.remaining) rules hrules c hover
    (Nat.lt_succ_self _) context).1

/-- A source holds expressions of any depth. -/
theorem source_eq_file (hover : c.Over tokens) : source context c = file anyDepth context c :=
  (alike_file (alikeBelow_anyDepth tokens (c.remaining + 1)) c hover (Nat.lt_succ_self _)
    context).1

end RSource.Grammar
