import RSource.Span

/-! Diagnostics: problems as they are shown to users.  A diagnostic has a headline, labels that
point into one source text, and notes. -/

namespace RSource

/-! ### Codes

Codes of the form `E0xxx` come from lexing, `E1xxx` from parsing and `E9xxx` from failures of the
tool itself.  A code is never given a second meaning. -/

/-- The part of the tool that reports a problem. -/
inductive Phase where
  | lexer
  | parser
  | internal
  deriving DecidableEq, Repr, Inhabited

def Phase.name : Phase → String
  | .lexer => "Lexer"
  | .parser => "Parser"
  | .internal => "Internal"

/-- A kind of problem. -/
inductive ErrorCode where
  | openString
  | unknownCharacter
  | unexpectedToken
  | noExpression
  | openDelimiter
  | noIdentifier
  | noToken
  | malformedDoc
  | noTree
  | corruptEntry
  deriving DecidableEq, Repr, Inhabited

namespace ErrorCode

/-- Every code, in order. -/
def all : List ErrorCode :=
  [.openString, .unknownCharacter, .unexpectedToken, .noExpression, .openDelimiter, .noIdentifier,
    .noToken, .malformedDoc, .noTree, .corruptEntry]

/-- The written form of a code. -/
def name : ErrorCode → String
  | .openString => "E0001"
  | .unknownCharacter => "E0002"
  | .unexpectedToken => "E1001"
  | .noExpression => "E1002"
  | .openDelimiter => "E1003"
  | .noIdentifier => "E1004"
  | .noToken => "E1005"
  | .malformedDoc => "E1006"
  | .noTree => "E9001"
  | .corruptEntry => "E9002"

/-- What a code means; also the text of a label that has none of its own. -/
def description : ErrorCode → String
  | .openString => "unterminated string literal"
  | .unknownCharacter => "unrecognized character"
  | .unexpectedToken => "unexpected token"
  | .noExpression => "expected expression"
  | .openDelimiter => "unclosed delimiter"
  | .noIdentifier => "expected identifier"
  | .noToken => "expected token"
  | .malformedDoc => "malformed doc comment"
  | .noTree => "syntax tree could not be assembled"
  | .corruptEntry => "stub index entry corrupt"

/-- The phase that reports a code. -/
def phase : ErrorCode → Phase
  | .openString | .unknownCharacter => .lexer
  | .noTree | .corruptEntry => .internal
  | _ => .parser

/-- The code with a written form; the case of ASCII letters does not matter. -/
def ofName? (text : String) : Option ErrorCode :=
  all.find? fun code => code.name.toLower == text.toLower

end ErrorCode

/-! ### Diagnostics -/

inductive Severity where
  | error
  | warning
  | note
  deriving DecidableEq, Repr, Inhabited

def Severity.name : Severity → String
  | .error => "error"
  | .warning => "warning"
  | .note => "note"

/-- Whether a label points at the problem or at something it depends on. -/
inductive LabelStyle where
  | primary
  | secondary
  deriving DecidableEq, Repr, Inhabited

/-- The character a label is underlined with. -/
def LabelStyle.marker : LabelStyle → Char
  | .primary => '^'
  | .secondary => '-'

/-- A remark on a part of the source. -/
structure Label where
  span : Span
  message : String
  style : LabelStyle
  deriving DecidableEq, Repr, Inhabited

structure Diagnostic where
  code : ErrorCode
  severity : Severity
  message : String
  labels : List Label
  notes : List String
  deriving DecidableEq, Repr, Inhabited

namespace Diagnostic

def isError (d : Diagnostic) : Bool := d.severity == .error

/-- Where the problem is: the span of the first primary label. -/
def primarySpan? (d : Diagnostic) : Option Span :=
  (d.labels.find? (·.style == .primary)).map Label.span

/-- The severity and the code, as in `error[E1002]`. -/
def heading (d : Diagnostic) : String := s!"{d.severity.name}[{d.code.name}]"

/-- The headline. -/
protected def toString (d : Diagnostic) : String := s!"{d.heading}: {d.message}"

instance : ToString Diagnostic := ⟨Diagnostic.toString⟩

end Diagnostic

end RSource
