import RSource.View.Function

/-! Assignments.  The operator tells on which side of it the assignee stands. -/

namespace RSource.Assignment

def operator? (t : SyntaxTree) (id : NodeId) : Option NodeId := t.childOfKind? id .assignOperator

/-- The kind of the operator's token. -/
def operatorKind? (t : SyntaxTree) (id : NodeId) : Option TokenKind :=
  (operator? t id).bind t.operatorKind?

/-- The operator is `<-`, `<<-` or `:=`. -/
def isLeft (t : SyntaxTree) (id : NodeId) : Bool :=
  (operatorKind? t id).any TokenKind.isLeftAssign

/-- The operator is `->` or `->>`. -/
def isRight (t : SyntaxTree) (id : NodeId) : Bool :=
  (operatorKind? t id).any TokenKind.isRightAssign

/-- The operator is `=`. -/
def isEqual (t : SyntaxTree) (id : NodeId) : Bool := operatorKind? t id = some .equal

/-- The operator is `<<-` or `->>`. -/
def isSuper (t : SyntaxTree) (id : NodeId) : Bool :=
  (operatorKind? t id).any TokenKind.isSuperAssign

/-- What is assigned to. -/
def assignee? (t : SyntaxTree) (id : NodeId) : Option NodeId :=
  if isRight t id then t.lastExpression? id else t.firstExpression? id

/-- What is assigned. -/
def value? (t : SyntaxTree) (id : NodeId) : Option NodeId :=
  if isRight t id then t.firstExpression? id else t.lastExpression? id

/-- The assignee if it is a name. -/
def name? (t : SyntaxTree) (id : NodeId) : Option NodeId := (assignee? t id).filter (isName t)

def name (t : SyntaxTree) (id : NodeId) : String := nameOrUnnamed t (name? t id)

/-- The function that is assigned. -/
def function? (t : SyntaxTree) (id : NodeId) : Option NodeId :=
  (value? t id).filter (t.isKind .functionExpression)

def isFunctionDeclaration (t : SyntaxTree) (id : NodeId) : Bool := (function? t id).isSome

/-- The names of the parameters of the function that is assigned. -/
def parameterNames (t : SyntaxTree) (id : NodeId) : List String :=
  ((function? t id).map (Function.parameters t)).getD [] |>.map (Parameter.name t)

/-- The text of the parameter list of the function that is assigned. -/
def parameterText (t : SyntaxTree) (id : NodeId) : String :=
  (((function? t id).bind (Function.parameterList? t)).map t.textOf).getD ""

end RSource.Assignment
