import RSource.Grammar.Operand

/-! Expressions by precedence.  An operand is read first, with the calls, subscripts and member
accesses after it; then, level by level from the tightest on, the operators that follow. -/

namespace RSource.Grammar

open RSource.Parser

variable (expressions : Expressions)

/-- The name after `$` or `@`. -/
def member : Part := do
  if ← isAt .leftParen then one (parenthesized expressions)
  else named memberNode? .noMember

/-- A call, subscript or member access of an expression.  A line end before it ends the expression.
-/
def trailer? (object : Outline) : Parser (Option Outline) := do
  if ← newlineBreaks 0 then return none
  match ← kind with
  | .leftParen => return some (.node .callExpression (object :: [← argumentList expressions]))
  | .leftBracket | .leftDoubleBracket =>
    return some (.node .subscriptionExpression (object :: (← subscripts expressions)))
  | .dollar =>
    return some (.node .memberExpression
      (object :: (← row [one (leaf .dollarOperator), member expressions])))
  | .at =>
    return some (.node .atExpression
      (object :: (← row [one (leaf .atOperator), member expressions])))
  | _ => return none

/-- What stands right of an operator, when the operators that may come there are those of `rules`.
-/
def rightOperand (rule : Rule) (rules : List Rule) : Part := do
  match ← expressions rules with
  | some o => return [o]
  | none => if rule.optional then one emptyExpression else missingExpression

/-- The expression that an operator of a rule makes of what stands left of it. -/
def operation? (rule : Rule) (rules : List Rule) (left : Outline) : Parser (Option Outline) := do
  if (← isIn rule.operators) && !(← newlineBreaks 0) then
    return some (.node rule.node
      (left :: (← row [one (leaf rule.operator), rightOperand expressions rule rules])))
  else return none

/-- An expression built by some rules.  Right operands are read by `expressions`. -/
def climb : List Rule → Parser (Option Outline)
  | [] => do
    match ← operand? expressions with
    | some o => return some (← grow (trailer? expressions) o)
    | none => return none
  | rule :: tighter => do
    match ← climb tighter with
    | none => return none
    | some left =>
      match rule.grouping with
      | .left => return some (← grow (operation? expressions rule tighter) left)
      | .right =>
        return some ((← operation? expressions rule (rule :: tighter) left).getD left)

/-- Expressions that nest at most to a given depth. -/
def expressionsUpTo : Nat → Expressions
  | 0, _ => return none
  | depth + 1, rules => climb (expressionsUpTo depth) rules

/-- A whole source.  Every expression inside another begins at a later item, so that the number of
items bounds the depth. -/
def source : Parser Outline := do file (expressionsUpTo ((← look Cursor.remaining) + 1))

end RSource.Grammar
