import RSource.Tree.Expression

/-! Conditionals and loops. -/

namespace RSource.Control

/-- What stands after the header of a statement.  Without a header it is the only expression. -/
def body? (t : SyntaxTree) (id : NodeId) : Option NodeId :=
  if (t.childToken? id .leftParen).isSome then t.expressionAfter? id .rightParen
  else t.firstExpression? id

/-- The condition of an `if` or a `while`. -/
def condition? (t : SyntaxTree) (id : NodeId) : Option NodeId := t.expressionAfter? id .leftParen

/-- What an `if` has after `else`. -/
def alternative? (t : SyntaxTree) (id : NodeId) : Option NodeId :=
  t.expressionAfter? id .elseKeyword

/-- The variable of a `for`. -/
def target? (t : SyntaxTree) (id : NodeId) : Option NodeId :=
  ((t.children id).takeWhile fun c => !t.isTokenOf .inKeyword c).find?
    (t.isKind .identifierExpression)

/-- What a `for` runs over. -/
def range? (t : SyntaxTree) (id : NodeId) : Option NodeId := t.expressionAfter? id .inKeyword

/-- The body of a `repeat`. -/
def repeated? (t : SyntaxTree) (id : NodeId) : Option NodeId := t.firstExpression? id

/-- The node is a loop. -/
def isLoop (t : SyntaxTree) (id : NodeId) : Bool := (t.kind? id).any NodeKind.isLoop

/-- The loop that a `break` or `next` refers to: the innermost one around it, unless a function
comes first. -/
def loop? (t : SyntaxTree) (id : NodeId) : Option NodeId :=
  ((t.ancestors id).find? fun a => isLoop t a || t.isKind .functionExpression a).filter (isLoop t)

end RSource.Control
