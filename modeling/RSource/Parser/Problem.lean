import RSource.Diagnostic.Basic
import RSource.Token.Kind

/-! What the parser can find wrong, with the code and the message of each.  Messages name the kind
of token that stands at the place. -/

namespace RSource

/-- A way in which tokens can fail to fit the grammar. -/
inductive Problem where
  | openString
  | badCharacter
  /-- A token that continues nothing and begins nothing. -/
  | unexpected (found : TokenKind)
  | noExpression (found : TokenKind)
  /-- A bracket is not closed. -/
  | notClosed (closer found : TokenKind)
  /-- No name after `$` or `@`. -/
  | noMember (found : TokenKind)
  /-- No name after `::` or `:::`. -/
  | noExport (found : TokenKind)
  | noLoopVariable (found : TokenKind)
  | noParameter (found : TokenKind)
  | missing (wanted found : TokenKind)
  /-- A line of a doc comment without its marker. -/
  | noDocMarker
  /-- A `@param` tag that names no parameter. -/
  | noDocParameter
  | missingInDoc (wanted found : TokenKind)
  deriving DecidableEq, Repr, Inhabited

namespace Problem

def code : Problem → ErrorCode
  | .openString => .openString
  | .badCharacter => .unknownCharacter
  | .unexpected _ => .unexpectedToken
  | .noExpression _ => .noExpression
  | .notClosed _ _ => .openDelimiter
  | .noMember _ | .noExport _ | .noLoopVariable _ | .noParameter _ => .noIdentifier
  | .missing _ _ => .noToken
  | .noDocMarker | .noDocParameter | .missingInDoc _ _ => .malformedDoc

def message : Problem → String
  | .openString => "unterminated string literal"
  | .badCharacter => "unrecognized character"
  | .unexpected found => s!"unexpected {found.describe}"
  | .noExpression found => s!"expected expression, found {found.describe}"
  | .notClosed wanted found | .missing wanted found | .missingInDoc wanted found =>
    s!"expected {wanted.describe}, found {found.describe}"
  | .noMember found => s!"expected a name after `$` or `@`, found {found.describe}"
  | .noExport found => s!"expected a name after `::`, found {found.describe}"
  | .noLoopVariable found => s!"expected loop variable, found {found.describe}"
  | .noParameter found => s!"expected parameter name, found {found.describe}"
  | .noDocMarker => "doc comment line must start with `#'`"
  | .noDocParameter => "expected a parameter name after `@param`"

end Problem

end RSource
