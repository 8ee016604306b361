import RSource.View.Assignment
import RSource.View.Operation

/-! Which expressions need parentheses to keep their meaning where they stand. -/

namespace RSource

/-- How tightly an expression holds its parts together, tightest first. -/
inductive Binding where
  /-- Literals, calls, and everything between brackets. -/
  | atom
  | namespaceAccess
  | memberAccess
  | indexing
  | power
  | sign
  | range
  | special
  | product
  | sum
  | comparison
  | not
  | and
  | or
  | tilde
  | rightAssign
  | leftAssign
  | equalAssign
  deriving DecidableEq, Repr, Inhabited

namespace Binding

/-- The place in the order; what binds looser has the greater rank. -/
def rank (b : Binding) : Nat := b.ctorIdx

/-- How tightly a binary operator binds. -/
def ofOperator : TokenKind → Binding
  | .power => .power
  | .colon => .range
  | .times | .divide => .product
  | .plus | .minus => .sum
  | .less | .lessEqual | .greater | .greaterEqual | .equalEqual | .notEqual => .comparison
  | .and | .andAnd => .and
  | .or | .orOr => .or
  | _ => .special

/-- How tightly a node binds. -/
def of (t : SyntaxTree) (id : NodeId) : Binding :=
  match t.kind? id with
  | some .namespaceAccessExpression => .namespaceAccess
  | some .memberExpression | some .atExpression => .memberAccess
  | some .subscriptionExpression => .indexing
  | some .tildeExpression | some .formulaExpression => .tilde
  | some .signExpression => .sign
  | some .notExpression => .not
  | some .assignmentStatement =>
    if Assignment.isRight t id then .rightAssign
    else if Assignment.isLeft t id then .leftAssign
    else .equalAssign
  | some .operatorExpression =>
    match (t.operator? id).bind t.operatorKind? with
    | some kind => ofOperator kind
    | none => .atom
  | _ => .atom

end Binding

/-- The node stands where its parent's operator does not group by itself when it binds equally. -/
def onWeakSide (t : SyntaxTree) (parent id : NodeId) : Bool :=
  match t.kind? parent with
  | some .operatorExpression => Operation.right? t parent = some id
  | some .namespaceAccessExpression => NamespaceAccess.identifier? t parent = some id
  | some .memberExpression | some .atExpression | some .subscriptionExpression => true
  | some .tildeExpression => t.firstExpression? parent ≠ some id
  | some .assignmentStatement =>
    (if Assignment.isRight t parent then Assignment.assignee? t parent
      else Assignment.value? t parent) = some id
  | _ => false

/-- The node must be put into parentheses to keep its meaning where it stands: its parent binds
tighter, or binds equally and groups the other way. -/
def needsParentheses (t : SyntaxTree) (id : NodeId) : Bool :=
  match t.parent? id with
  | none => false
  | some parent =>
    let own := Binding.of t id
    let outer := Binding.of t parent
    if outer = .atom then false
    else if outer = .indexing && t.firstExpression? parent ≠ some id then false
    else if own.rank < outer.rank then false
    else if outer.rank < own.rank then true
    else onWeakSide t parent id

end RSource
