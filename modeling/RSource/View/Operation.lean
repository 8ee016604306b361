import RSource.View.Function

/-! Operations: operators with their operands, members, names from packages, subscripts, groups and
literals. -/

namespace RSource

namespace Operation

/-- The left operand, if there are two. -/
def left? (t : SyntaxTree) (id : NodeId) : Option NodeId :=
  match t.expressions id with
  | [left, _] => some left
  | _ => none

/-- The right operand, if there are two. -/
def right? (t : SyntaxTree) (id : NodeId) : Option NodeId :=
  match t.expressions id with
  | [_, right] => some right
  | _ => none

/-- No operand is missing. -/
def isBinary (t : SyntaxTree) (id : NodeId) : Bool := (t.expressions id).length == 2

/-- The operand of an operator in front of it. -/
def operand? (t : SyntaxTree) (id : NodeId) : Option NodeId :=
  match t.expressions id with
  | [operand] => some operand
  | _ => none

end Operation

namespace Member

/-- What has the member. -/
def object? (t : SyntaxTree) (id : NodeId) : Option NodeId := t.firstExpression? id

/-- The name after `$` or `@`, or `...` for what is no name. -/
def tag (t : SyntaxTree) (id : NodeId) : String :=
  let after := ((t.children id).dropWhile fun c => !t.isOperator c).drop 1
  match after.find? fun c => !t.isToken c with
  | some c =>
    if t.isKind .identifierExpression c then t.textOf c else (nameOf? t c).getD "..."
  | none => "..."

end Member

namespace NamespaceAccess

/-- The package before `::`. -/
def package (t : SyntaxTree) (id : NodeId) : String :=
  match (t.children id).head?.filter t.isToken with
  | some leaf => Text.trim isNameMark (t.textOf leaf)
  | none => ""

/-- The name after `::`. -/
def identifier? (t : SyntaxTree) (id : NodeId) : Option NodeId := t.firstExpression? id

/-- The access is written `:::`. -/
def isInternal (t : SyntaxTree) (id : NodeId) : Bool := (t.childToken? id .tripleColon).isSome

end NamespaceAccess

namespace Subscription

/-- The brackets are single. -/
def isSingle (t : SyntaxTree) (id : NodeId) : Bool := (t.childToken? id .leftBracket).isSome

def object? (t : SyntaxTree) (id : NodeId) : Option NodeId := t.firstExpression? id

/-- The subscripts in order, with or without names. -/
def indices (t : SyntaxTree) (id : NodeId) : List NodeId := (ArgumentList.arguments t id).drop 1

end Subscription

namespace BooleanLiteral

def isTrue (t : SyntaxTree) (id : NodeId) : Bool := (t.childToken? id .trueKeyword).isSome

end BooleanLiteral

end RSource
