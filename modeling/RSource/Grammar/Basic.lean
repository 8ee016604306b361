import RSource.Grammar.Rule
import RSource.Parser.Basic

/-! What the productions of the grammar share, and lists of statements.  Productions do not call
themselves: each takes the parser for expressions, which gives an expression at the level of the
first of some rules, or nothing if none begins at the cursor.  Statements are separated by line ends
or semicolons. -/

namespace RSource.Grammar

open RSource.Parser

/-- A parser for the expressions built by some rules. -/
abbrev Expressions : Type := List Rule → Parser (Option Outline)

/-- The tokens that begin an expression. -/
def starters : TokenSet := .ofList
  [.identifier, .dots, .underscore, .string, .openString, .integer, .numeric, .complex,
    .trueKeyword, .falseKeyword, .nullKeyword, .infKeyword, .nanKeyword, .naKeyword,
    .naIntegerKeyword, .naRealKeyword, .naComplexKeyword, .naCharacterKeyword, .leftParen,
    .leftBrace, .ifKeyword, .whileKeyword, .forKeyword, .repeatKeyword, .breakKeyword,
    .nextKeyword, .functionKeyword, .lambda, .question, .tilde, .not, .plus, .minus, .badCharacter]

/-- The tokens that are left alone where an expression is missing. -/
def resumptions : TokenSet := .ofList
  [.rightParen, .rightBracket, .rightDoubleBracket, .rightBrace, .comma, .semicolon, .elseKeyword,
    .inKeyword, .endOfFile]

/-- Stands in for a missing expression, and takes up a token that cannot come after one. -/
def missingExpression : Part := do
  report (.noExpression (← kind))
  one (node .error [do if ← isIn resumptions then return [] else bump])

/-- Stands for an expression that may be left out. -/
def emptyExpression : Parser Outline := node .emptyExpression []

variable (expressions : Expressions)

/-- An expression built by some rules, or what stands in for it. -/
def operand (rules : List Rule) : Part := do
  match ← expressions rules with
  | some o => return [o]
  | none => missingExpression

/-- Any expression, or what stands in for it. -/
def expression : Part := operand expressions Rule.all

/-- An expression between parentheses, the first of which is at the cursor. -/
def grouped : Part :=
  row [bump, bracketed (row [expression expressions, expect .rightParen (.notClosed .rightParen)])]

/-- A parenthesized expression. -/
def parenthesized : Parser Outline := node .parenthesizedExpression [grouped expressions]

/-! ### Statements -/

/-- The cursor stands where a statement may end: at the end, at a semicolon, at a closer, or after a
line end. -/
def statementEnds (closers : TokenSet) (c : Cursor) : Bool :=
  c.kind == .semicolon || c.atEnd || closers.contains c.kind || c.newlineBefore

/-- What does not belong to a statement, up to where the next may begin. -/
def skipStatement (closers : TokenSet) : Part := do
  report (.unexpected (← kind))
  one (node .error [bump, bumpWhile fun c => !statementEnds closers c])

/-- A semicolon or a statement, with what follows it and does not belong there. -/
def statement? (closers : TokenSet) : Parser (Option (List Outline)) := do
  if ← isAt .semicolon then return some (← bump)
  if ← look fun c => c.atEnd || closers.contains c.kind then return none
  if ← isIn starters then
    let parsed ← expressions Rule.all
    if ← look (statementEnds closers) then return some parsed.toList
    return some (parsed.toList ++ (← skipStatement closers))
  return some (← skipStatement closers)

/-- Statements up to the end or to a closer, which is left alone. -/
def statements (closers : TokenSet) : Part := many (statement? expressions closers)

/-- Statements between braces, the first of which is at the cursor. -/
def block : Parser Outline := node .blockExpression
  [bump, braced (statements expressions (.single .rightBrace)),
    expect .rightBrace (.notClosed .rightBrace)]

/-- A whole source. -/
def file : Parser Outline := node .file [statements expressions .empty]

end RSource.Grammar
