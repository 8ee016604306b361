import RSource.View.Name

/-! Functions with their parameters, and calls with their arguments. -/

namespace RSource

namespace Parameter

/-- The node of the parameter's name. -/
def name? (t : SyntaxTree) (id : NodeId) : Option NodeId :=
  t.childOfKind? id .identifierExpression

def name (t : SyntaxTree) (id : NodeId) : String := nameOrUnnamed t (name? t id)

/-- The default of a parameter. -/
def default? (t : SyntaxTree) (id : NodeId) : Option NodeId := (t.expressions id)[1]?

end Parameter

namespace ParameterList

def parameters (t : SyntaxTree) (id : NodeId) : List NodeId :=
  (t.children id).filter (t.isKind .parameter)

end ParameterList

namespace Function

def parameterList? (t : SyntaxTree) (id : NodeId) : Option NodeId :=
  t.childOfKind? id .parameterList

def parameters (t : SyntaxTree) (id : NodeId) : List NodeId :=
  ((parameterList? t id).map (ParameterList.parameters t)).getD []

def body? (t : SyntaxTree) (id : NodeId) : Option NodeId := t.firstExpression? id

/-- The function is written with a backslash. -/
def isLambda (t : SyntaxTree) (id : NodeId) : Bool := (t.childToken? id .lambda).isSome

end Function

namespace ArgumentList

/-- The node stands for an argument. -/
def isArgument (t : SyntaxTree) (id : NodeId) : Bool :=
  t.isExpression id || t.isKind .namedArgument id

/-- The arguments in order, with or without names. -/
def arguments (t : SyntaxTree) (id : NodeId) : List NodeId := (t.children id).filter (isArgument t)

end ArgumentList

namespace Call

/-- What is called. -/
def callee? (t : SyntaxTree) (id : NodeId) : Option NodeId := t.firstExpression? id

def argumentList? (t : SyntaxTree) (id : NodeId) : Option NodeId := t.childOfKind? id .argumentList

def arguments (t : SyntaxTree) (id : NodeId) : List NodeId :=
  ((argumentList? t id).map (ArgumentList.arguments t)).getD []

end Call

namespace NamedArgument

/-- The node of the argument's name. -/
def name? (t : SyntaxTree) (id : NodeId) : Option NodeId := (t.children id).find? (isName t)

def name (t : SyntaxTree) (id : NodeId) : String := nameOrUnnamed t (name? t id)

/-- What stands after `=`. -/
def value? (t : SyntaxTree) (id : NodeId) : Option NodeId := (t.expressions id)[1]?

end NamedArgument

end RSource
