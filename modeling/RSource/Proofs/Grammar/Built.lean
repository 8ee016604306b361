import RSource.Grammar.DocComment
import RSource.Grammar.Precedence
import RSource.Proofs.Parser.Blind

/-! The grammars are built from parsers that look, read and report.  That of sources is not sighted:
what a source is parsed as depends on the kinds of its tokens and not on their lengths.  That of doc
comments looks at the text of tags. -/

namespace RSource.Grammar

open RSource.Parser

variable {sighted : Prop} {expressions : Expressions}

theorem statementEnds_bare (closers : TokenSet) (c : Cursor) :
    statementEnds closers c.bare = statementEnds closers c := rfl

theorem elementEnded_bare (c : Cursor) : elementEnded c.bare = elementEnded c := rfl

theorem namesArgument_bare (c : Cursor) : namesArgument c.bare = namesArgument c := by
  rw [namesArgument, Cursor.kindAhead_bare]
  rfl

theorem built_missingExpression : Built sighted missingExpression :=
  Built.kind.bind fun _ => (Built.report _).bind fun _ =>
    (Built.node _ (Built.row ((Built.isIn _).bind fun _ => (Built.pure _).ite Built.bump)
      Built.nil)).one

theorem built_emptyExpression : Built sighted emptyExpression := Built.nil.node _

theorem built_named (nodes? : TokenKind → Option NodeKind) (problem : TokenKind → Problem) :
    Built sighted (named nodes? problem) := by
  refine Built.kind.bind fun k => ?_
  cases nodes? k with
  | none => exact (Built.report _).bind fun _ => (Built.nil.node _).one
  | some name => exact (Built.leaf name).one

theorem built_exportFollows : Built sighted exportFollows :=
  (Built.look _ (.inr fun c => c.kindAhead_bare 1)).bind fun _ =>
    (Built.newlineBreaks 1).bind fun _ => Built.pure _

theorem built_namespaceAccess : Built sighted namespaceAccess :=
  Built.node _ (Built.bump.row (Built.bump.row ((built_named _ _).row Built.nil)))

theorem built_symbol (kind : NodeKind) : Built sighted (symbol kind) :=
  built_exportFollows.bind fun _ => built_namespaceAccess.ite (Built.leaf kind)

theorem built_faulty (problem : Problem) (kind : NodeKind) : Built sighted (faulty problem kind) :=
  (Built.report problem).bind fun _ => Built.leaf kind

theorem built_skipStatement (closers : TokenSet) : Built sighted (skipStatement closers) :=
  Built.kind.bind fun _ => (Built.report _).bind fun _ =>
    (Built.node _ (Built.bump.row ((Built.bumpWhile (.inr fun c => by rw [statementEnds_bare])).row
      Built.nil))).one

theorem built_elementRest : Built sighted elementRest :=
  (Built.look _ (.inr elementEnded_bare)).bind fun _ => (Built.pure _).ite
    (Built.kind.bind fun _ => (Built.report _).bind fun _ =>
      (Built.node _ ((Built.bumpWhile (.inr fun c => by rw [elementEnded_bare])).row
        Built.nil)).one)

theorem built_separated (closer : TokenKind) {element : Part} (h : Built sighted element) :
    Built sighted (separated closer element) :=
  (Built.isAt closer).bind fun _ => (Built.pure _).ite
    (h.row ((Built.many ((Built.isAt .comma).bind fun _ =>
      ((Built.bump.row (h.row Built.nil)).bind fun _ => Built.pure _).ite
        (Built.pure _))).row Built.nil))

theorem built_delimited (closer : TokenKind) {element : Part} (h : Built sighted element) :
    Built sighted (delimited closer element) :=
  Built.bump.row ((((built_separated closer h).row
    ((Built.expect _ _).row Built.nil)).within _).row Built.nil)

/-! ### Productions around expressions -/

section

variable (he : ∀ rules, Built sighted (expressions rules))

include he

theorem built_operand (rules : List Rule) : Built sighted (operand expressions rules) := by
  refine (he rules).bind fun o => ?_
  cases o with
  | none => exact built_missingExpression
  | some o => exact Built.pure _

theorem built_expression : Built sighted (expression expressions) := built_operand he Rule.all

theorem built_grouped : Built sighted (grouped expressions) :=
  Built.bump.row ((((built_expression he).row ((Built.expect _ _).row Built.nil)).within _).row
    Built.nil)

theorem built_parenthesized : Built sighted (parenthesized expressions) :=
  ((built_grouped he).row Built.nil).node _

theorem built_statement? (closers : TokenSet) : Built sighted (statement? expressions closers) :=
  (Built.isAt _).bind fun _ => (Built.bump.bind fun _ => Built.pure _).ite <|
    (Built.look _ (.inr fun _ => rfl)).bind fun _ => (Built.pure _).ite <|
      (Built.isIn _).bind fun _ => Built.ite
        ((he _).bind fun _ => (Built.look _ (.inr (statementEnds_bare closers))).bind fun _ =>
          (Built.pure _).ite ((built_skipStatement closers).bind fun _ => Built.pure _))
        ((built_skipStatement closers).bind fun _ => Built.pure _)

theorem built_statements (closers : TokenSet) : Built sighted (statements expressions closers) :=
  (built_statement? he closers).many

theorem built_block : Built sighted (block expressions) :=
  Built.node _ (Built.bump.row (((built_statements he _).within _).row
    ((Built.expect _ _).row Built.nil)))

theorem built_file : Built sighted (file expressions) :=
  ((built_statements he _).row Built.nil).node _

theorem built_optionalValue : Built sighted (optionalValue expressions) :=
  (Built.look _ (.inr elementEnded_bare)).bind fun _ =>
    built_emptyExpression.one.ite (built_expression he)

theorem built_namedArgument : Built sighted (namedArgument expressions) :=
  Built.kind.bind fun _ => Built.node _ ((Built.leaf _).one.row ((Built.leaf _).one.row
    ((built_optionalValue he).row Built.nil)))

theorem built_argument : Built sighted (argument expressions) :=
  (Built.look _ (.inr elementEnded_bare)).bind fun _ => built_emptyExpression.one.ite
    (Built.row ((Built.look _ (.inr namesArgument_bare)).bind fun _ =>
      (built_namedArgument he).one.ite (built_expression he))
      (built_elementRest.row Built.nil))

theorem built_argumentList : Built sighted (argumentList expressions) :=
  ((built_delimited _ (built_argument he)).row Built.nil).node _

theorem built_subscripts : Built sighted (subscripts expressions) :=
  (Built.isAt _).bind fun _ => built_delimited _ (built_argument he)

theorem built_parameterName : Built sighted (parameterName expressions) :=
  (Built.look _ (.inr fun _ => rfl)).bind fun _ => Built.ite
    ((Built.leaf _).one.row (Built.row ((Built.isAt _).bind fun _ =>
      ((Built.leaf _).one.row ((built_expression he).row Built.nil)).ite (Built.pure _))
      Built.nil))
    (Built.kind.bind fun _ => (Built.report _).bind fun _ =>
      (Built.look _ (.inr elementEnded_bare)).bind fun _ =>
        (Built.nil.node _).one.ite (Built.pure _))

theorem built_parameter : Built sighted (parameter expressions) :=
  ((built_parameterName he).row (built_elementRest.row Built.nil)).node _

theorem built_parameterList : Built sighted (parameterList expressions) :=
  Built.node _ (Built.row ((Built.isAt _).bind fun _ =>
    (built_delimited _ (built_parameter he).one).ite (Built.expect _ _)) Built.nil)

theorem built_condition : Built sighted (condition expressions) :=
  (Built.isAt _).bind fun _ => (built_grouped he).ite (Built.expect _ _)

theorem built_conditional : Built sighted (conditional expressions) :=
  Built.node _ (Built.bump.row ((built_condition he).row ((built_expression he).row
    (Built.row ((Built.isAt _).bind fun _ =>
      (Built.bump.row ((built_expression he).row Built.nil)).ite (Built.pure _))
      Built.nil))))

theorem built_whileLoop : Built sighted (whileLoop expressions) :=
  Built.node _ (Built.bump.row ((built_condition he).row
    ((built_expression he).row Built.nil)))

theorem built_repeatLoop : Built sighted (repeatLoop expressions) :=
  Built.node _ (Built.bump.row ((built_expression he).row Built.nil))

theorem built_loopRange : Built sighted (loopRange expressions) :=
  (Built.isAt _).bind fun _ =>
    (Built.bump.row ((built_expression he).row Built.nil)).ite (Built.expect _ _)

theorem built_loopHeader : Built sighted (loopHeader expressions) :=
  (Built.isAt _).bind fun _ => Built.ite
    (Built.bump.row ((((built_named _ _).row ((built_loopRange he).row
      ((Built.expect _ _).row Built.nil))).within _).row Built.nil))
    (Built.expect _ _)

theorem built_forLoop : Built sighted (forLoop expressions) :=
  Built.node _ (Built.bump.row ((built_loopHeader he).row
    ((built_expression he).row Built.nil)))

theorem built_function : Built sighted (function expressions) :=
  Built.node _ (Built.bump.row ((built_parameterList he).one.row
    ((built_expression he).row Built.nil)))

theorem built_help : Built sighted (help expressions) :=
  Built.node _ (Built.bump.row ((Built.eat _).row (Built.row
    (Built.kind.bind fun _ => Built.bump.ite (built_expression he)) Built.nil)))

theorem built_signed (operator kind : NodeKind) (rules : List Rule) :
    Built sighted (signed expressions operator kind rules) :=
  Built.node _ ((Built.leaf _).one.row ((built_operand he rules).row Built.nil))

theorem built_operand? : Built sighted (operand? expressions) := by
  refine Built.kind.bind fun k => ?_
  cases literalNode? k with
  | some literal => exact (Built.leaf literal).found
  | none =>
    cases symbolNode? k with
    | some name => exact (built_symbol name).found
    | none =>
      dsimp only
      split
      · exact (built_faulty _ _).found
      · exact (built_faulty _ _).found
      · exact (built_parenthesized he).found
      · exact (built_block he).found
      · exact (built_conditional he).found
      · exact (built_whileLoop he).found
      · exact (built_forLoop he).found
      · exact (built_repeatLoop he).found
      · exact (built_function he).found
      · exact (built_function he).found
      · exact (built_help he).found
      · exact (built_signed he _ _ _).found
      · exact (built_signed he _ _ _).found
      · exact (built_signed he _ _ _).found
      · exact (built_signed he _ _ _).found
      · exact Built.pure none

theorem built_member : Built sighted (member expressions) :=
  (Built.isAt _).bind fun _ => (built_parenthesized he).one.ite (built_named _ _)

theorem built_trailer? (o : Outline) : Built sighted (trailer? expressions o) := by
  have hmember : ∀ operator, Built sighted (row [one (leaf operator), member expressions]) :=
    fun operator => (Built.leaf operator).one.row ((built_member he).row Built.nil)
  refine (Built.newlineBreaks 0).bind fun _ => (Built.pure _).ite (Built.kind.bind fun k => ?_)
  split
  · exact (built_argumentList he).bind fun _ => Built.pure _
  · exact (built_subscripts he).bind fun _ => Built.pure _
  · exact (built_subscripts he).bind fun _ => Built.pure _
  · exact (hmember _).bind fun _ => Built.pure _
  · exact (hmember _).bind fun _ => Built.pure _
  · exact Built.pure none

theorem built_rightOperand (rule : Rule) (rules : List Rule) :
    Built sighted (rightOperand expressions rule rules) := by
  refine (he rules).bind fun o => ?_
  cases o with
  | none => exact built_emptyExpression.one.ite built_missingExpression
  | some o => exact Built.pure _

theorem built_operation? (rule : Rule) (rules : List Rule) (left : Outline) :
    Built sighted (operation? expressions rule rules left) :=
  (Built.isIn _).bind fun _ => (Built.newlineBreaks 0).bind fun _ => Built.ite
    (((Built.leaf _).one.row ((built_rightOperand he rule rules).row Built.nil)).bind
      fun _ => Built.pure _)
    (Built.pure _)

theorem built_climb : ∀ rules, Built sighted (climb expressions rules)
  | [] => by
    refine (built_operand? he).bind fun o => ?_
    cases o with
    | none => exact Built.pure _
    | some o => exact (Built.grow (built_trailer? he) o).bind fun _ => Built.pure _
  | rule :: tighter => by
    refine (built_climb tighter).bind fun o => ?_
    cases o with
    | none => exact Built.pure _
    | some left =>
      dsimp only
      cases rule.grouping with
      | left => exact (Built.grow (built_operation? he rule tighter) left).bind fun _ => Built.pure _
      | right =>
        exact (built_operation? he rule (rule :: tighter) left).bind fun _ => Built.pure _

end

theorem built_expressionsUpTo : ∀ depth rules, Built sighted (expressionsUpTo depth rules)
  | 0, _ => Built.pure none
  | depth + 1, rules => built_climb (built_expressionsUpTo depth) rules

theorem built_source : Built sighted source :=
  (Built.look _ (.inr Cursor.remaining_bare)).bind fun _ => built_file (built_expressionsUpTo _)

theorem blind_source : Blind source := built_source.blind

/-! ### Doc comments -/

namespace DocComment

theorem built_moreNames : Built True moreNames :=
  Built.many ((Built.look gap? (.inl trivial)).bind fun found => by
    cases found with
    | none => exact .pure _
    | some n =>
      have hbumps : ∀ m, Built True (row (List.replicate m bump ++
          [one (leaf .roxygenParameter)])) := by
        intro m
        induction m with
        | zero => exact (Built.leaf _).one.row .nil
        | succ m ih => exact Built.bump.row ih
      exact (hbumps n).found)

theorem built_paramTag : Built True paramTag :=
  Built.node _ (Built.bump.row (Built.row
    ((Built.look _ (.inl trivial)).bind fun _ => Built.bump.ite (.pure _))
    (Built.row ((Built.isAt _).bind fun _ => Built.ite
      ((Built.leaf _).one.row (built_moreNames.row .nil))
      ((Built.report _).bind fun _ => .pure _)) .nil)))

theorem built_identifier : Built True identifier :=
  (Built.isAt _).bind fun _ => (Built.leaf _).one.ite (.expect _ _)

theorem built_pageName : Built True pageName := by
  refine built_identifier.bind fun name => (Built.isAt _).bind fun _ => Built.ite ?_ (.pure _)
  exact (Built.bump.row (built_identifier.row .nil)).bind fun _ => .pure _

theorem built_helpPageLink : Built True helpPageLink :=
  Built.node _ (Built.bump.row (built_pageName.row (Built.row
    ((Built.isAt _).bind fun _ => Built.ite
      (Built.bump.row ((Built.expect _ _).row .nil)) (.pure _))
    ((Built.expect _ _).row .nil))))

theorem built_linkDestination : Built True linkDestination :=
  Built.node _ (Built.bump.row ((Built.bumpWhile (.inl trivial)).row
    ((Built.expect _ _).row .nil)))

theorem built_autolink : Built True autolink :=
  Built.node _ (Built.bump.row ((Built.expect _ _).row ((Built.expect _ _).row .nil)))

variable (text : String)

theorem built_piece? : Built True (piece? text) := by
  refine (Built.look _ (.inl trivial)).bind fun _ => Built.ite (.pure _)
    (Built.kind.bind fun k => ?_)
  split
  · exact (Built.look _ (.inl trivial)).bind fun _ =>
      (built_paramTag.bind fun _ => .pure _).ite ((Built.leaf _).bind fun _ => .pure _)
  · exact built_helpPageLink.bind fun _ => .pure _
  · exact built_linkDestination.bind fun _ => .pure _
  · exact built_autolink.bind fun _ => .pure _
  · exact Built.bump.found

theorem built_content : Built True (content text) := by
  refine (Built.isAt _).bind fun _ => Built.ite
    (Built.bump.row ((Built.many (built_piece? text)).row .nil))
    ((Built.look _ (.inl trivial)).bind fun _ => ?_)
  exact Built.ite ((Built.report _).bind fun _ => .bumpWhile (.inl trivial))
    (.bumpWhile (.inl trivial))

theorem built_line? : Built True (line? text) :=
  Built.atEnd.bind fun _ => Built.ite (.pure _)
    (((Built.eat _).row ((built_content text).row ((Built.eat _).row .nil))).found)

theorem built_comment : Built True (comment text) :=
  (((built_line? text).many).row .nil).node _

end DocComment

end RSource.Grammar
