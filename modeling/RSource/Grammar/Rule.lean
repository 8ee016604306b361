import RSource.Node.Kind
import RSource.Token.Set

/-! Binary operators.  Each level of precedence is a rule; the list of all rules goes from the
operators that bind loosest to those that bind tightest. -/

namespace RSource.Grammar

/-- How operators of one level group. -/
inductive Grouping where
  | left
  | right
  deriving DecidableEq, Repr, Inhabited

/-- A level of precedence. -/
structure Rule where
  operators : TokenSet
  /-- The kind of the node around the operator. -/
  operator : NodeKind
  /-- The kind of the node around operator and operands. -/
  node : NodeKind
  grouping : Grouping
  /-- The right operand may be left out. -/
  optional : Bool
  deriving Repr, Inhabited

namespace Rule

/-- A level whose operators group to the left. -/
def leftward (operators : List TokenKind) (operator node : NodeKind) : Rule :=
  ⟨.ofList operators, operator, node, .left, false⟩

/-- A level whose operators group to the right. -/
def rightward (operators : List TokenKind) (operator node : NodeKind) : Rule :=
  ⟨.ofList operators, operator, node, .right, false⟩

/-- The levels from powers on; the operand of a sign is at this level. -/
def powers : List Rule := [rightward [.power] .powerOperator .operatorExpression]

/-- The levels from comparisons on; the operand of `!` is at this level. -/
def comparisons : List Rule :=
  [leftward [.equalEqual, .notEqual, .less, .lessEqual, .greater, .greaterEqual] .compareOperator
      .operatorExpression,
    leftward [.plus, .minus] .sumOperator .operatorExpression,
    leftward [.times, .divide] .productOperator .operatorExpression,
    leftward [.specialOp] .specialOperator .operatorExpression,
    leftward [.colon] .colonOperator .operatorExpression] ++ powers

/-- The levels from `~` on; the operand of `~` before an expression is at this level. -/
def formulas : List Rule :=
  [leftward [.tilde] .tildeOperator .tildeExpression,
    leftward [.or, .orOr] .orOperator .operatorExpression,
    leftward [.and, .andAnd] .andOperator .operatorExpression] ++ comparisons

/-- All levels, loosest first. -/
def all : List Rule :=
  [rightward [.leftAssign, .leftSuperAssign, .colonAssign] .assignOperator .assignmentStatement,
    ⟨.single .equal, .assignOperator, .assignmentStatement, .right, true⟩,
    leftward [.rightAssign, .rightSuperAssign] .assignOperator .assignmentStatement] ++ formulas

end Rule

end RSource.Grammar
