import RSource.Parser.Basic

/-! Doc comments.  A comment is a list of lines; a line has a marker, and text with tags and links
after it. -/

namespace RSource.Grammar.DocComment

open RSource.Parser

/-- The cursor stands at the end of a line. -/
def lineEnded (c : Cursor) : Bool := c.kind == .docNewline || c.atEnd

/-- The number of items from a cursor to the next name of a `@param` tag, if a comma separates it
from the name before. -/
def gap? (c : Cursor) : Option Nat :=
  let comma := if c.kindAhead 0 == .docWhitespace then 1 else 0
  let name := if c.kindAhead (comma + 1) == .docWhitespace then comma + 2 else comma + 1
  if c.kindAhead comma == .docComma && c.kindAhead name == .docIdentifier then some name else none

/-- The further names of a `@param` tag. -/
def moreNames : Part := many do
  match ← look gap? with
  | some n => return some (← row (List.replicate n bump ++ [one (leaf .roxygenParameter)]))
  | none => return none

/-- A `@param` tag and the names after it. -/
def paramTag : Parser Outline := node .roxygenParamTag [bump,
  do if ← look fun c => c.kind == .docWhitespace && c.kindAhead 1 == .docIdentifier then bump
     else return [],
  do if ← isAt .docIdentifier then row [one (leaf .roxygenParameter), moreNames]
     else
       report .noDocParameter
       return []]

/-- A name in a link. -/
def identifier : Part := do
  if ← isAt .docIdentifier then one (leaf .roxygenIdentifier)
  else expect .docIdentifier (.missingInDoc .docIdentifier)

/-- The name of a help page, perhaps from a package. -/
def pageName : Part := do
  let name ← identifier
  if !name.isEmpty && (← isAt .docDoubleColon) then
    return [.node .roxygenNamespaceAccess (name ++ (← row [bump, identifier]))]
  else return name

/-- A link to a help page: `[name]`, `[name()]` or `[package::name]`. -/
def helpPageLink : Parser Outline := node .roxygenHelpPageLink [bump, pageName,
  do if ← isAt .docLeftParen then row [bump, expect .docRightParen (.missingInDoc .docRightParen)]
     else return [],
  expect .docRightBracket (.missingInDoc .docRightBracket)]

/-- The target of a link: `(target)`. -/
def linkDestination : Parser Outline := node .roxygenLinkDestination [bump,
  bumpWhile fun c => c.kind == .docText || c.kind == .docWhitespace,
  expect .docRightParen (.missingInDoc .docRightParen)]

/-- A link that shows its target: `<target>`. -/
def autolink : Parser Outline := node .roxygenAutolink [bump,
  expect .docAutolinkUri (.missingInDoc .docAutolinkUri),
  expect .docRightAngle (.missingInDoc .docRightAngle)]

variable (text : String)

/-- A piece of a line. -/
def piece? : Parser (Option (List Outline)) := do
  if ← look lineEnded then return none
  match ← kind with
  | .docTagName =>
    if ← look fun c => c.here.token.text text == "@param" then return some [← paramTag]
    else return some [← leaf .roxygenTag]
  | .docLeftBracket => return some [← helpPageLink]
  | .docLeftParen => return some [← linkDestination]
  | .docLeftAngle => return some [← autolink]
  | _ => return some (← bump)

/-- The marker of a line and what follows it.  A line without a marker is skipped. -/
def content : Part := do
  if ← isAt .docMarker then row [bump, many (piece? text)]
  else
    if !(← look lineEnded) then report .noDocMarker
    bumpWhile fun c => !lineEnded c

/-- A line with its end. -/
def line? : Parser (Option (List Outline)) := do
  if ← atEnd then return none
  return some (← row [eat .docWhitespace, content text, eat .docNewline])

/-- A whole doc comment, given its text. -/
def comment : Parser Outline := node .roxygenComment [many (line? text)]

end RSource.Grammar.DocComment
