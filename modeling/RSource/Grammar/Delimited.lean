import RSource.Grammar.Basic

/-! Lists between brackets: arguments of calls, subscripts and parameters of functions.  Arguments
and subscripts may be left out. -/

namespace RSource.Grammar

open RSource.Parser

/-- The tokens that end an element of a list. -/
def elementEnds : TokenSet := .ofList
  [.comma, .rightParen, .rightBracket, .rightDoubleBracket, .rightBrace]

/-- The tokens that name an argument. -/
def argumentNames : TokenSet := .ofList [.identifier, .string, .dots, .nullKeyword]

/-- The cursor stands after an element. -/
def elementEnded (c : Cursor) : Bool := elementEnds.contains c.kind || c.atEnd

/-- What does not belong to an element. -/
def elementRest : Part := do
  if ← look elementEnded then return []
  report (.unexpected (← kind))
  one (node .error [bumpWhile fun c => !elementEnded c])

/-- Elements with commas between them up to a closer.  There is no element directly before it. -/
def separated (closer : TokenKind) (element : Part) : Part := do
  if ← isAt closer then return []
  row [element, many do
    if ← isAt .comma then return some (← row [bump, element]) else return none]

/-- A list whose opening bracket is at the cursor. -/
def delimited (closer : TokenKind) (element : Part) : Part :=
  row [bump, bracketed (row [separated closer element, expect closer (.notClosed closer)])]

variable (expressions : Expressions)

/-- The node around the name of an argument. -/
def nameNode : TokenKind → NodeKind
  | .string => .stringLiteralExpression
  | .nullKeyword => .nullLiteral
  | _ => .identifierExpression

/-- The argument at the cursor has a name: `=` comes after one.  To read the name first, and go back
where no `=` comes after it, is the same (`Tracks.argumentValue`). -/
def namesArgument (c : Cursor) : Bool :=
  argumentNames.contains c.kind && c.kindAhead 1 == .equal

/-- A value that may be left out. -/
def optionalValue : Part := do
  if ← look elementEnded then one emptyExpression else expression expressions

/-- An argument with a name. -/
def namedArgument : Parser Outline := do
  let name := leaf (nameNode (← kind))
  node .namedArgument [one name, one (leaf .assignOperator), optionalValue expressions]

/-- An argument or subscript, perhaps left out. -/
def argument : Part := do
  if ← look elementEnded then one emptyExpression
  else
    row [do if ← look namesArgument then one (namedArgument expressions)
            else expression expressions,
      elementRest]

/-- The arguments of a call. -/
def argumentList : Parser Outline :=
  node .argumentList [delimited .rightParen (argument expressions)]

/-- The subscripts after `[` or `[[`. -/
def subscripts : Part := do
  let closer := if ← isAt .leftDoubleBracket then .rightDoubleBracket else .rightBracket
  delimited closer (argument expressions)

/-- The name of a parameter and its default. -/
def parameterName : Part := do
  if ← look fun c => c.kind == .identifier || c.kind == .dots then
    row [one (leaf .identifierExpression),
      do if ← isAt .equal then row [one (leaf .assignOperator), expression expressions]
         else return []]
  else
    report (.noParameter (← kind))
    if ← look elementEnded then one (node .error []) else return []

def parameter : Parser Outline := node .parameter [parameterName expressions, elementRest]

/-- The parameters of a function. -/
def parameterList : Parser Outline := node .parameterList [do
  if ← isAt .leftParen then delimited .rightParen (one (parameter expressions))
  else expect .leftParen (.missing .leftParen)]

end RSource.Grammar
