import RSource.Grammar.DocComment
import RSource.Recorder.Basic

/-! Doc comments as parsers that write events.  The node for a package in a link is opened before
the name that may be its, and abandoned if no `::` comes after this name. -/

namespace RSource.Recorded.DocComment

open RSource.Recorder

/-- Takes up a number of items. -/
def bumps : Nat → Recorder Unit
  | 0 => return ()
  | n + 1 => do
    bump
    bumps n

/-- One further name of a `@param` tag. -/
def moreName : Recorder Bool := do
  match ← look Grammar.DocComment.gap? with
  | some n =>
    bumps n
    let _ ← leaf .roxygenParameter
    return true
  | none => return false

/-- White space in front of a name. -/
def nameSpace : Recorder Unit := do
  if ← look fun c => c.kind == .docWhitespace && c.kindAhead 1 == .docIdentifier then bump
  else return ()

/-- The names of a `@param` tag. -/
def names : Recorder Unit := do
  if ← isAt .docIdentifier then
    let _ ← leaf .roxygenParameter
    loop moreName
  else report .noDocParameter

/-- A `@param` tag and the names after it. -/
def paramTag : Recorder Completed := node .roxygenParamTag do
  bump
  nameSpace
  names

/-- A name in a link, and whether there is one. -/
def identifier : Recorder Bool := do
  if ← isAt .docIdentifier then
    let _ ← leaf .roxygenIdentifier
    return true
  else
    report (.missingInDoc .docIdentifier (← kind))
    return false

/-- After a name: it is a package, as `::` comes next. -/
def continues (named : Bool) : Recorder Bool :=
  if named then eat .docDoubleColon else return false

/-- The name of a help page, perhaps from a package.  The node for the latter is opened before the
name. -/
def pageName : Recorder Unit := do
  let m ← start
  if ← continues (← identifier) then
    let _ ← identifier
    discard <| m.complete .roxygenNamespaceAccess
  else m.abandon

/-- An empty list of arguments after the name. -/
def call : Recorder Unit := do
  if ← eat .docLeftParen then discard <| expect .docRightParen (.missingInDoc .docRightParen)
  else return ()

/-- A link to a help page: `[name]`, `[name()]` or `[package::name]`. -/
def helpPageLink : Recorder Completed := node .roxygenHelpPageLink do
  bump
  pageName
  call
  discard <| expect .docRightBracket (.missingInDoc .docRightBracket)

/-- The target of a link: `(target)`. -/
def linkDestination : Recorder Completed := node .roxygenLinkDestination do
  bump
  bumpWhile fun c => c.kind == .docText || c.kind == .docWhitespace
  discard <| expect .docRightParen (.missingInDoc .docRightParen)

/-- A link that shows its target: `<target>`. -/
def autolink : Recorder Completed := node .roxygenAutolink do
  bump
  let _ ← expect .docAutolinkUri (.missingInDoc .docAutolinkUri)
  discard <| expect .docRightAngle (.missingInDoc .docRightAngle)

variable (text : String)

/-- A piece of a line. -/
def piece : Recorder Bool := do
  if ← look Grammar.DocComment.lineEnded then return false
  match ← kind with
  | .docTagName =>
    if ← look fun c => c.here.token.text text == "@param" then
      let _ ← paramTag
      return true
    else
      let _ ← leaf .roxygenTag
      return true
  | .docLeftBracket =>
    let _ ← helpPageLink
    return true
  | .docLeftParen =>
    let _ ← linkDestination
    return true
  | .docLeftAngle =>
    let _ ← autolink
    return true
  | _ =>
    bump
    return true

/-- The marker of a line and what follows it.  A line without a marker is skipped. -/
def content : Recorder Unit := do
  if ← eat .docMarker then loop (piece text)
  else
    if !(← look Grammar.DocComment.lineEnded) then report .noDocMarker
    bumpWhile fun c => !Grammar.DocComment.lineEnded c

/-- A line with its end. -/
def line : Recorder Bool := do
  if ← atEnd then return false
  let _ ← eat .docWhitespace
  content text
  let _ ← eat .docNewline
  return true

/-- A whole doc comment, given its text. -/
def comment : Recorder Completed := node .roxygenComment (loop (line text))

end RSource.Recorded.DocComment
