import RSource.Grammar.Precedence
import RSource.Recorder.Basic

/-! The productions of the grammar as parsers that write events.  They read what the productions in
`Grammar` read; in place of an outline, each leaves the events of its node, which is opened before
and completed after what it holds.  An operator comes to stand around its left operand, which is
read before it; and a name that turns out not to name an argument is rolled back. -/

namespace RSource.Recorded

open RSource.Recorder

open RSource.Grammar (Rule)

/-- A parser for the expressions built by some rules. -/
abbrev Expressions : Type := List Rule → Recorder (Option Completed)

/-! ### Expressions -/

/-- Stands in for a missing expression, and takes up a token that cannot come after one. -/
def missingExpression : Recorder Unit := do
  report (.noExpression (← kind))
  discard <| node .error do
    if ← isIn Grammar.resumptions then return () else bump

/-- Stands for an expression that may be left out. -/
def emptyExpression : Recorder Completed := node .emptyExpression (return ())

/-- A node around an operator. -/
def operator (kind : NodeKind) : Recorder Unit := discard <| leaf kind

variable (expressions : Expressions)

/-- An expression built by some rules, or what stands in for it. -/
def operand (rules : List Rule) : Recorder Unit := do
  match ← expressions rules with
  | some _ => return ()
  | none => missingExpression

/-- Any expression, or what stands in for it. -/
def expression : Recorder Unit := operand expressions Rule.all

/-- An expression between parentheses, the first of which is at the cursor. -/
def grouped : Recorder Unit := do
  bump
  bracketed do
    expression expressions
    discard <| expect .rightParen (.notClosed .rightParen)

/-- A parenthesized expression. -/
def parenthesized : Recorder Completed := node .parenthesizedExpression (grouped expressions)

/-! ### Statements -/

/-- A node around what does not belong to a statement, up to where the next may begin. -/
def recoverStatement (closers : TokenSet) : Recorder Unit := do
  discard <| node .error do
    bump
    bumpWhile fun c => !Grammar.statementEnds closers c

/-- A problem where no statement begins or where one goes on, and what does not belong there. -/
def skipStatement (closers : TokenSet) : Recorder Unit := do
  report (.unexpected (← kind))
  recoverStatement closers

/-- A semicolon or a statement, with what follows it and does not belong there. -/
def statement (closers : TokenSet) : Recorder Bool := do
  if ← eat .semicolon then return true
  if ← look fun c => c.atEnd || closers.contains c.kind then return false
  if ← isIn Grammar.starters then
    let _ ← expressions Rule.all
    if ← look (Grammar.statementEnds closers) then return true
    skipStatement closers
    return true
  skipStatement closers
  return true

/-- Statements up to the end or to a closer, which is left alone. -/
def statements (closers : TokenSet) : Recorder Unit := loop (statement expressions closers)

/-- Statements between braces, the first of which is at the cursor. -/
def block : Recorder Completed := node .blockExpression do
  bump
  braced (statements expressions (.single .rightBrace))
  discard <| expect .rightBrace (.notClosed .rightBrace)

/-- A whole source. -/
def file : Recorder Completed := node .file (statements expressions .empty)

/-! ### Lists between brackets -/

/-- What does not belong to an element. -/
def elementRest : Recorder Unit := do
  if ← look Grammar.elementEnded then return ()
  else
    report (.unexpected (← kind))
    discard <| node .error (bumpWhile fun c => !Grammar.elementEnded c)

/-- Elements with commas between them up to a closer.  There is no element directly before it. -/
def separated (closer : TokenKind) (element : Recorder Unit) : Recorder Unit := do
  if ← isAt closer then return ()
  else
    element
    loop do
      if ← eat .comma then
        element
        return true
      else return false

/-- A list whose opening bracket is at the cursor. -/
def delimited (closer : TokenKind) (element : Recorder Unit) : Recorder Unit := do
  bump
  bracketed do
    separated closer element
    discard <| expect closer (.notClosed closer)

/-- A value that may be left out. -/
def optionalValue : Recorder Unit := do
  if ← look Grammar.elementEnded then discard emptyExpression else expression expressions

/-- An argument with a name, the first token of which is at the cursor.  Without a `=` after this
token it is no name: all is undone, and the answer is no. -/
def namedArgument : Recorder Bool := do
  let m ← start
  let _ ← leaf (Grammar.nameNode (← kind))
  if ← isAt .equal then
    operator .assignOperator
    optionalValue expressions
    let _ ← m.complete .namedArgument
    return true
  else
    m.rollback
    return false

/-- An argument with a name, tried where the token at the cursor may be a name. -/
def named? : Recorder Bool := do
  if ← isIn Grammar.argumentNames then namedArgument expressions else return false

/-- An argument with a name, or else any expression. -/
def argumentValue : Recorder Unit := do
  if ← named? expressions then return () else expression expressions

/-- An argument or subscript, perhaps left out. -/
def argument : Recorder Unit := do
  if ← look Grammar.elementEnded then discard emptyExpression
  else
    argumentValue expressions
    elementRest

/-- The arguments of a call. -/
def argumentList : Recorder Completed :=
  node .argumentList (delimited .rightParen (argument expressions))

/-- The subscripts after `[` or `[[`. -/
def subscripts : Recorder Unit := do
  let closer := if ← isAt .leftDoubleBracket then .rightDoubleBracket else .rightBracket
  delimited closer (argument expressions)

/-- The name of a parameter and its default. -/
def parameterName : Recorder Unit := do
  if ← look fun c => c.kind == .identifier || c.kind == .dots then
    let _ ← leaf .identifierExpression
    if ← isAt .equal then
      operator .assignOperator
      expression expressions
    else return ()
  else
    report (.noParameter (← kind))
    if ← look Grammar.elementEnded then discard <| node .error (return ()) else return ()

def parameter : Recorder Completed := node .parameter do
  parameterName expressions
  elementRest

/-- The parameters of a function. -/
def parameterList : Recorder Completed := node .parameterList do
  if ← isAt .leftParen then delimited .rightParen (discard <| parameter expressions)
  else report (.missing .leftParen (← kind))

/-! ### Operands -/

/-- A single token in the node that `nodes?` gives for its kind, or an empty error node. -/
def named (nodes? : TokenKind → Option NodeKind) (problem : TokenKind → Problem) :
    Recorder Unit := do
  let found ← kind
  match nodes? found with
  | some name => discard <| leaf name
  | none =>
    report (problem found)
    discard <| node .error (return ())

/-- The item after the current one is `::` or `:::`, and on the same line where that matters. -/
def exportFollows : Recorder Bool := do
  let next ← look (·.kindAhead 1)
  return (next == .doubleColon || next == .tripleColon) && !(← newlineBreaks 1)

/-- A name from a package: `package::name`. -/
def namespaceAccess : Recorder Completed := node .namespaceAccessExpression do
  bump
  bump
  named Grammar.symbolNode? .noExport

/-- A condition between parentheses. -/
def condition : Recorder Unit := do
  if ← isAt .leftParen then grouped expressions else report (.missing .leftParen (← kind))

/-- A conditional.  An `else` may stand on a later line. -/
def conditional : Recorder Completed := node .ifStatement do
  bump
  condition expressions
  expression expressions
  if ← eat .elseKeyword then expression expressions else return ()

def whileLoop : Recorder Completed := node .whileStatement do
  bump
  condition expressions
  expression expressions

def repeatLoop : Recorder Completed := node .repeatStatement do
  bump
  expression expressions

/-- What a `for` runs over, if `in` is there. -/
def loopRange : Recorder Unit := do
  if ← expect .inKeyword (.missing .inKeyword) then expression expressions else return ()

/-- The variable and the range of a `for`. -/
def loopHeader : Recorder Unit := do
  if ← isAt .leftParen then
    bump
    bracketed do
      named Grammar.binderNode? .noLoopVariable
      loopRange expressions
      discard <| expect .rightParen (.notClosed .rightParen)
  else report (.missing .leftParen (← kind))

def forLoop : Recorder Completed := node .forStatement do
  bump
  loopHeader expressions
  expression expressions

/-- A function, written `function` or `\`. -/
def function : Recorder Completed := node .functionExpression do
  bump
  let _ ← parameterList expressions
  expression expressions

/-- A help request with one or two question marks.  A reserved word is a topic too. -/
def help : Recorder Completed := node .helpExpression do
  bump
  let _ ← eat .question
  if (← kind).isKeyword then bump else expression expressions

/-- An operator in front of an operand that is built by some rules. -/
def signed (sign kind : NodeKind) (rules : List Rule) : Recorder Completed := node kind do
  operator sign
  operand expressions rules

/-- A single token that is an operand with a problem. -/
def faulty (problem : Problem) (kind : NodeKind) : Recorder Completed := do
  report problem
  leaf kind

/-- A name, perhaps from a package. -/
def symbol (kind : NodeKind) : Recorder Completed := do
  if ← exportFollows then namespaceAccess else leaf kind

/-- An operand.  Nothing is read where none begins. -/
def operand? : Recorder (Option Completed) := do
  let found ← kind
  match Grammar.literalNode? found, Grammar.symbolNode? found with
  | some literal, _ => return some (← leaf literal)
  | none, some name => return some (← symbol name)
  | none, none =>
    match found with
    | .openString => return some (← faulty .openString .invalidLiteral)
    | .badCharacter => return some (← faulty .badCharacter .error)
    | .leftParen => return some (← parenthesized expressions)
    | .leftBrace => return some (← block expressions)
    | .ifKeyword => return some (← conditional expressions)
    | .whileKeyword => return some (← whileLoop expressions)
    | .forKeyword => return some (← forLoop expressions)
    | .repeatKeyword => return some (← repeatLoop expressions)
    | .functionKeyword | .lambda => return some (← function expressions)
    | .question => return some (← help expressions)
    | .tilde =>
      return some (← signed expressions .tildeOperator .formulaExpression Rule.formulas)
    | .not => return some (← signed expressions .notOperator .notExpression Rule.comparisons)
    | .plus | .minus =>
      return some (← signed expressions .sumOperator .signExpression Rule.powers)
    | _ => return none

/-! ### Levels of precedence -/

/-- The name after `$` or `@`. -/
def member : Recorder Unit := do
  if ← isAt .leftParen then discard <| parenthesized expressions
  else named Grammar.memberNode? .noMember

/-- A call, subscript or member access of an expression.  A line end before it ends the expression.
-/
def trailer? (object : Completed) : Recorder (Option Completed) := do
  if ← newlineBreaks 0 then return none
  match ← kind with
  | .leftParen =>
    return some (← around object .callExpression (discard <| argumentList expressions))
  | .leftBracket | .leftDoubleBracket =>
    return some (← around object .subscriptionExpression (subscripts expressions))
  | .dollar =>
    return some (← around object .memberExpression do
      operator .dollarOperator
      member expressions)
  | .at =>
    return some (← around object .atExpression do
      operator .atOperator
      member expressions)
  | _ => return none

/-- What stands right of an operator, when the operators that may come there are those of `rules`.
-/
def rightOperand (rule : Rule) (rules : List Rule) : Recorder Unit := do
  match ← expressions rules with
  | some _ => return ()
  | none => if rule.optional then discard emptyExpression else missingExpression

/-- The expression that an operator of a rule makes of what stands left of it. -/
def operation? (rule : Rule) (rules : List Rule) (left : Completed) :
    Recorder (Option Completed) := do
  if (← isIn rule.operators) && !(← newlineBreaks 0) then
    return some (← around left rule.node do
      operator rule.operator
      rightOperand expressions rule rules)
  else return none

/-- An expression built by some rules.  Right operands are read by `expressions`. -/
def climb : List Rule → Recorder (Option Completed)
  | [] => do
    match ← operand? expressions with
    | some c => return some (← grow (trailer? expressions) c)
    | none => return none
  | rule :: tighter => do
    match ← climb tighter with
    | none => return none
    | some left =>
      match rule.grouping with
      | .left => return some (← grow (operation? expressions rule tighter) left)
      | .right =>
        return some ((← operation? expressions rule (rule :: tighter) left).getD left)

/-- Expressions that nest at most to a given depth.  There is no result where they nest deeper. -/
def expressionsUpTo : Nat → Expressions
  | 0, _ => failure
  | depth + 1, rules => climb (expressionsUpTo depth) rules

/-- A whole source.  Every expression inside another begins at a later item, so that the number of
items bounds the depth. -/
def source : Recorder Completed := do file (expressionsUpTo ((← look Cursor.remaining) + 1))

end RSource.Recorded
