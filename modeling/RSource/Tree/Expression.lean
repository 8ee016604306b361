import RSource.Tree.Basic

/-! The expressions and the operator among the children of a node.  An error among the children may
stand for an expression, so a search from either end stops there. -/

namespace RSource.SyntaxTree

/-- The children that are expressions. -/
def expressions (t : SyntaxTree) (id : NodeId) : List NodeId :=
  (t.children id).filter t.isExpression

/-- The first expression of a list of nodes, if no error comes before it. -/
def expressionBeforeError? (t : SyntaxTree) (ids : List NodeId) : Option NodeId :=
  (ids.takeWhile fun c => !t.isKind .error c).find? t.isExpression

def firstExpression? (t : SyntaxTree) (id : NodeId) : Option NodeId :=
  t.expressionBeforeError? (t.children id)

def lastExpression? (t : SyntaxTree) (id : NodeId) : Option NodeId :=
  t.expressionBeforeError? (t.children id).reverse

/-- The first expression after a leaf with a token of a kind. -/
def expressionAfter? (t : SyntaxTree) (id : NodeId) (kind : TokenKind) : Option NodeId :=
  ((t.children id).dropWhile fun c => !t.isTokenOf kind c).find? t.isExpression

/-- The node around the operator. -/
def operator? (t : SyntaxTree) (id : NodeId) : Option NodeId := (t.children id).find? t.isOperator

/-- The kind of the token in an operator node. -/
def operatorKind? (t : SyntaxTree) (operator : NodeId) : Option TokenKind :=
  (t.children operator).findSome? t.tokenKind?

end RSource.SyntaxTree
