import RSource.Grammar.Basic
import RSource.Grammar.Delimited

/-! Operands: what the operators of the grammar combine.  They are literals, names, groups, control
flow, functions, help requests, and expressions with an operator in front. -/

namespace RSource.Grammar

open RSource.Parser

variable (expressions : Expressions)

/-- The node around a token that is an operand by itself. -/
def literalNode? : TokenKind → Option NodeKind
  | .integer | .numeric | .complex => some .numericLiteralExpression
  | .trueKeyword | .falseKeyword => some .booleanLiteral
  | .nullKeyword => some .nullLiteral
  | .naKeyword | .naIntegerKeyword | .naRealKeyword | .naComplexKeyword | .naCharacterKeyword =>
    some .naLiteral
  | .infKeyword | .nanKeyword => some .boundaryLiteral
  | .breakKeyword => some .breakStatement
  | .nextKeyword => some .nextStatement
  | _ => none

/-- The node around a token that is a name. -/
def symbolNode? : TokenKind → Option NodeKind
  | .identifier | .dots | .underscore => some .identifierExpression
  | .string => some .stringLiteralExpression
  | _ => none

/-- The node around a token that is the name of a variable to be bound. -/
def binderNode? : TokenKind → Option NodeKind
  | .identifier | .dots => some .identifierExpression
  | _ => none

/-- The node around a token that names a member of an object. -/
def memberNode? : TokenKind → Option NodeKind
  | .identifier | .dots => some .identifierExpression
  | .string => some .stringLiteralExpression
  | _ => none

/-- A single token in the node that `nodes?` gives for its kind, or an empty error node. -/
def named (nodes? : TokenKind → Option NodeKind) (problem : TokenKind → Problem) : Part := do
  let found ← kind
  match nodes? found with
  | some name => one (leaf name)
  | none =>
    report (problem found)
    one (node .error [])

/-- The item after the current one is `::` or `:::`, and on the same line where that matters. -/
def exportFollows : Parser Bool := do
  let next ← look (·.kindAhead 1)
  return (next == .doubleColon || next == .tripleColon) && !(← newlineBreaks 1)

/-- A name from a package: `package::name`. -/
def namespaceAccess : Parser Outline :=
  node .namespaceAccessExpression [bump, bump, named symbolNode? .noExport]

/-- A condition between parentheses. -/
def condition : Part := do
  if ← isAt .leftParen then grouped expressions else expect .leftParen (.missing .leftParen)

/-- A conditional.  An `else` may stand on a later line. -/
def conditional : Parser Outline := node .ifStatement
  [bump, condition expressions, expression expressions,
    do if ← isAt .elseKeyword then row [bump, expression expressions] else return []]

def whileLoop : Parser Outline :=
  node .whileStatement [bump, condition expressions, expression expressions]

def repeatLoop : Parser Outline := node .repeatStatement [bump, expression expressions]

/-- What a `for` runs over, if `in` is there. -/
def loopRange : Part := do
  if ← isAt .inKeyword then row [bump, expression expressions]
  else expect .inKeyword (.missing .inKeyword)

/-- The variable and the range of a `for`. -/
def loopHeader : Part := do
  if ← isAt .leftParen then
    row [bump, bracketed (row [named binderNode? .noLoopVariable, loopRange expressions,
      expect .rightParen (.notClosed .rightParen)])]
  else expect .leftParen (.missing .leftParen)

def forLoop : Parser Outline :=
  node .forStatement [bump, loopHeader expressions, expression expressions]

/-- A function, written `function` or `\`. -/
def function : Parser Outline :=
  node .functionExpression [bump, one (parameterList expressions), expression expressions]

/-- A help request with one or two question marks.  A reserved word is a topic too. -/
def help : Parser Outline := node .helpExpression
  [bump, eat .question,
    do if (← kind).isKeyword then bump else expression expressions]

/-- An operator in front of an operand that is built by some rules. -/
def signed (operator kind : NodeKind) (rules : List Rule) : Parser Outline :=
  node kind [one (leaf operator), operand expressions rules]

/-- A single token that is an operand with a problem. -/
def faulty (problem : Problem) (kind : NodeKind) : Parser Outline := do
  report problem
  leaf kind

/-- A name, perhaps from a package. -/
def symbol (kind : NodeKind) : Parser Outline := do
  if ← exportFollows then namespaceAccess else leaf kind

/-- An operand.  Nothing is read where none begins. -/
def operand? : Parser (Option Outline) := do
  let found ← kind
  match literalNode? found, symbolNode? found with
  | some literal, _ => return some (← leaf literal)
  | none, some name => return some (← symbol name)
  | none, none =>
    match found with
    | .openString => return some (← faulty .openString .invalidLiteral)
    | .badCharacter => return some (← faulty .badCharacter .error)
    | .leftParen => return some (← parenthesized expressions)
    | .leftBrace => return some (← block expressions)
    | .ifKeyword => return some (← conditional expressions)
    | .whileKeyword => return some (← whileLoop expressions)
    | .forKeyword => return some (← forLoop expressions)
    | .repeatKeyword => return some (← repeatLoop expressions)
    | .functionKeyword | .lambda => return some (← function expressions)
    | .question => return some (← help expressions)
    | .tilde =>
      return some (← signed expressions .tildeOperator .formulaExpression Rule.formulas)
    | .not => return some (← signed expressions .notOperator .notExpression Rule.comparisons)
    | .plus | .minus =>
      return some (← signed expressions .sumOperator .signExpression Rule.powers)
    | _ => return none

end RSource.Grammar
