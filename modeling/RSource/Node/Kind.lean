import RSource.Text.Hex
import RSource.Token.Kind

/-! The kinds of tree node: one for every production of the grammar, and the leaves, which hold one
token each.  Every kind has a numeric tag that stays the same in stored data. -/

namespace RSource

/-- The kind of a tree node. -/
inductive NodeKind where
  /-- The root of an R source. -/
  | file
  /-- A region that could not be parsed, possibly empty. -/
  | error
  /-- Stands for an omitted expression, as in `f(, x)`, `x[1, ]` and `a =`. -/
  | emptyExpression
  /-- A literal that is not complete: a string without its end. -/
  | invalidLiteral
  | assignmentStatement
  | ifStatement
  | whileStatement
  | forStatement
  | repeatStatement
  | breakStatement
  | nextStatement
  | blockExpression
  | helpExpression
  | parenthesizedExpression
  | functionExpression
  | parameterList
  | parameter
  | callExpression
  | argumentList
  | namedArgument
  | subscriptionExpression
  | memberExpression
  | atExpression
  | namespaceAccessExpression
  | operatorExpression
  | tildeExpression
  | formulaExpression
  | notExpression
  | signExpression
  | identifierExpression
  | stringLiteralExpression
  | numericLiteralExpression
  | booleanLiteral
  | nullLiteral
  | naLiteral
  /-- The literals `Inf` and `NaN`. -/
  | boundaryLiteral
  | assignOperator
  | andOperator
  | orOperator
  | notOperator
  | compareOperator
  | sumOperator
  | productOperator
  | specialOperator
  | colonOperator
  | powerOperator
  | tildeOperator
  | dollarOperator
  | atOperator
  | roxygenComment
  | roxygenParamTag
  | roxygenTag
  | roxygenParameter
  | roxygenHelpPageLink
  | roxygenLinkDestination
  | roxygenAutolink
  | roxygenNamespaceAccess
  | roxygenIdentifier
  /-- A leaf. -/
  | token (kind : TokenKind)
  deriving DecidableEq, Repr, Inhabited

namespace NodeKind

/-- Tags from here on are those of leaves. -/
def leafTagBase : Nat := 0x8000

/-- Every production kind with its tag and its name in tree dumps. -/
def productions : List (NodeKind × Nat × String) := [
  (.file, 1, "File"),
  (.error, 2, "Error"),
  (.emptyExpression, 3, "EmptyExpression"),
  (.invalidLiteral, 4, "InvalidLiteral"),
  (.assignmentStatement, 10, "AssignmentStatement"),
  (.ifStatement, 11, "IfStatement"),
  (.whileStatement, 12, "WhileStatement"),
  (.forStatement, 13, "ForStatement"),
  (.repeatStatement, 14, "RepeatStatement"),
  (.breakStatement, 15, "BreakStatement"),
  (.nextStatement, 16, "NextStatement"),
  (.blockExpression, 20, "BlockExpression"),
  (.helpExpression, 21, "HelpExpression"),
  (.parenthesizedExpression, 22, "ParenthesizedExpression"),
  (.functionExpression, 23, "FunctionExpression"),
  (.parameterList, 24, "ParameterList"),
  (.parameter, 25, "Parameter"),
  (.callExpression, 26, "CallExpression"),
  (.argumentList, 27, "ArgumentList"),
  (.namedArgument, 28, "NamedArgument"),
  (.subscriptionExpression, 29, "SubscriptionExpression"),
  (.memberExpression, 30, "MemberExpression"),
  (.atExpression, 31, "AtExpression"),
  (.namespaceAccessExpression, 32, "NamespaceAccessExpression"),
  (.operatorExpression, 33, "OperatorExpression"),
  (.tildeExpression, 34, "TildeExpression"),
  (.formulaExpression, 35, "UnaryTildeExpression"),
  (.notExpression, 36, "UnaryNotExpression"),
  (.signExpression, 37, "UnaryPlusMinusExpression"),
  (.identifierExpression, 40, "IdentifierExpression"),
  (.stringLiteralExpression, 41, "StringLiteralExpression"),
  (.numericLiteralExpression, 42, "NumericLiteralExpression"),
  (.booleanLiteral, 43, "BooleanLiteral"),
  (.nullLiteral, 44, "NullLiteral"),
  (.naLiteral, 45, "NaLiteral"),
  (.boundaryLiteral, 46, "BoundaryLiteral"),
  (.assignOperator, 50, "AssignOperator"),
  (.andOperator, 51, "AndOperator"),
  (.orOperator, 52, "OrOperator"),
  (.notOperator, 53, "NotOperator"),
  (.compareOperator, 54, "CompareOperator"),
  (.sumOperator, 55, "PlusMinusOperator"),
  (.productOperator, 56, "MulDivOperator"),
  (.specialOperator, 57, "InfixOperator"),
  (.colonOperator, 58, "ColonOperator"),
  (.powerOperator, 59, "ExpOperator"),
  (.tildeOperator, 60, "TildeOperator"),
  (.dollarOperator, 61, "ListSubsetOperator"),
  (.atOperator, 62, "AtOperator"),
  (.roxygenComment, 80, "RoxygenComment"),
  (.roxygenParamTag, 81, "RoxygenParamTag"),
  (.roxygenTag, 82, "RoxygenTag"),
  (.roxygenParameter, 83, "RoxygenParameter"),
  (.roxygenHelpPageLink, 84, "RoxygenHelpPageLink"),
  (.roxygenLinkDestination, 85, "RoxygenLinkDestination"),
  (.roxygenAutolink, 86, "RoxygenAutolink"),
  (.roxygenNamespaceAccess, 87, "RoxygenNamespaceAccess"),
  (.roxygenIdentifier, 88, "RoxygenIdentifier")]

/-- The tag of a kind. -/
def tag : NodeKind → Nat
  | .token kind => leafTagBase + kind.index
  | .file => 1
  | .error => 2
  | .emptyExpression => 3
  | .invalidLiteral => 4
  | .assignmentStatement => 10
  | .ifStatement => 11
  | .whileStatement => 12
  | .forStatement => 13
  | .repeatStatement => 14
  | .breakStatement => 15
  | .nextStatement => 16
  | .blockExpression => 20
  | .helpExpression => 21
  | .parenthesizedExpression => 22
  | .functionExpression => 23
  | .parameterList => 24
  | .parameter => 25
  | .callExpression => 26
  | .argumentList => 27
  | .namedArgument => 28
  | .subscriptionExpression => 29
  | .memberExpression => 30
  | .atExpression => 31
  | .namespaceAccessExpression => 32
  | .operatorExpression => 33
  | .tildeExpression => 34
  | .formulaExpression => 35
  | .notExpression => 36
  | .signExpression => 37
  | .identifierExpression => 40
  | .stringLiteralExpression => 41
  | .numericLiteralExpression => 42
  | .booleanLiteral => 43
  | .nullLiteral => 44
  | .naLiteral => 45
  | .boundaryLiteral => 46
  | .assignOperator => 50
  | .andOperator => 51
  | .orOperator => 52
  | .notOperator => 53
  | .compareOperator => 54
  | .sumOperator => 55
  | .productOperator => 56
  | .specialOperator => 57
  | .colonOperator => 58
  | .powerOperator => 59
  | .tildeOperator => 60
  | .dollarOperator => 61
  | .atOperator => 62
  | .roxygenComment => 80
  | .roxygenParamTag => 81
  | .roxygenTag => 82
  | .roxygenParameter => 83
  | .roxygenHelpPageLink => 84
  | .roxygenLinkDestination => 85
  | .roxygenAutolink => 86
  | .roxygenNamespaceAccess => 87
  | .roxygenIdentifier => 88

/-- The name of a production; every leaf is a `Token`. -/
def name : NodeKind → String
  | .token _ => "Token"
  | .file => "File"
  | .error => "Error"
  | .emptyExpression => "EmptyExpression"
  | .invalidLiteral => "InvalidLiteral"
  | .assignmentStatement => "AssignmentStatement"
  | .ifStatement => "IfStatement"
  | .whileStatement => "WhileStatement"
  | .forStatement => "ForStatement"
  | .repeatStatement => "RepeatStatement"
  | .breakStatement => "BreakStatement"
  | .nextStatement => "NextStatement"
  | .blockExpression => "BlockExpression"
  | .helpExpression => "HelpExpression"
  | .parenthesizedExpression => "ParenthesizedExpression"
  | .functionExpression => "FunctionExpression"
  | .parameterList => "ParameterList"
  | .parameter => "Parameter"
  | .callExpression => "CallExpression"
  | .argumentList => "ArgumentList"
  | .namedArgument => "NamedArgument"
  | .subscriptionExpression => "SubscriptionExpression"
  | .memberExpression => "MemberExpression"
  | .atExpression => "AtExpression"
  | .namespaceAccessExpression => "NamespaceAccessExpression"
  | .operatorExpression => "OperatorExpression"
  | .tildeExpression => "TildeExpression"
  | .formulaExpression => "UnaryTildeExpression"
  | .notExpression => "UnaryNotExpression"
  | .signExpression => "UnaryPlusMinusExpression"
  | .identifierExpression => "IdentifierExpression"
  | .stringLiteralExpression => "StringLiteralExpression"
  | .numericLiteralExpression => "NumericLiteralExpression"
  | .booleanLiteral => "BooleanLiteral"
  | .nullLiteral => "NullLiteral"
  | .naLiteral => "NaLiteral"
  | .boundaryLiteral => "BoundaryLiteral"
  | .assignOperator => "AssignOperator"
  | .andOperator => "AndOperator"
  | .orOperator => "OrOperator"
  | .notOperator => "NotOperator"
  | .compareOperator => "CompareOperator"
  | .sumOperator => "PlusMinusOperator"
  | .productOperator => "MulDivOperator"
  | .specialOperator => "InfixOperator"
  | .colonOperator => "ColonOperator"
  | .powerOperator => "ExpOperator"
  | .tildeOperator => "TildeOperator"
  | .dollarOperator => "ListSubsetOperator"
  | .atOperator => "AtOperator"
  | .roxygenComment => "RoxygenComment"
  | .roxygenParamTag => "RoxygenParamTag"
  | .roxygenTag => "RoxygenTag"
  | .roxygenParameter => "RoxygenParameter"
  | .roxygenHelpPageLink => "RoxygenHelpPageLink"
  | .roxygenLinkDestination => "RoxygenLinkDestination"
  | .roxygenAutolink => "RoxygenAutolink"
  | .roxygenNamespaceAccess => "RoxygenNamespaceAccess"
  | .roxygenIdentifier => "RoxygenIdentifier"

/-- The kind with a tag. -/
def ofTag? (tag : Nat) : Option NodeKind :=
  if leafTagBase ≤ tag then (TokenKind.ofIndex? (tag - leafTagBase)).map .token
  else (productions.find? fun entry => entry.2.1 == tag).map Prod.fst

/-- The name of a kind, with the token of a leaf. -/
def describe : NodeKind → String
  | .token kind => s!"Token({kind.name})"
  | kind => kind.name

/-- The kind a name describes. -/
def ofDescription? (text : String) : Option NodeKind :=
  (productions.map Prod.fst ++ TokenKind.all.map NodeKind.token).find? (·.describe == text)

/-- The token kind of a leaf. -/
def tokenKind? : NodeKind → Option TokenKind
  | .token kind => some kind
  | _ => none

def isToken (kind : NodeKind) : Bool := kind.tokenKind?.isSome

/-- White space, comment and line end leaves. -/
def isLayout (kind : NodeKind) : Bool := kind.tokenKind?.any TokenKind.isLayout

/-- The nodes that stand for an expression; statements are expressions too. -/
def isExpression : NodeKind → Bool
  | .emptyExpression | .invalidLiteral | .assignmentStatement | .ifStatement | .whileStatement
  | .forStatement | .repeatStatement | .breakStatement | .nextStatement | .blockExpression
  | .helpExpression | .parenthesizedExpression | .functionExpression | .callExpression
  | .subscriptionExpression | .memberExpression | .atExpression | .namespaceAccessExpression
  | .operatorExpression | .tildeExpression | .formulaExpression | .notExpression
  | .signExpression | .identifierExpression | .stringLiteralExpression
  | .numericLiteralExpression | .booleanLiteral | .nullLiteral | .naLiteral
  | .boundaryLiteral => true
  | _ => false

/-- The nodes around an operator token. -/
def isOperator : NodeKind → Bool
  | .assignOperator | .andOperator | .orOperator | .notOperator | .compareOperator
  | .sumOperator | .productOperator | .specialOperator | .colonOperator | .powerOperator
  | .tildeOperator | .dollarOperator | .atOperator => true
  | _ => false

/-- The statements that `break` and `next` refer to. -/
def isLoop : NodeKind → Bool
  | .forStatement | .whileStatement | .repeatStatement => true
  | _ => false

theorem tag_productions : ∀ entry ∈ productions, entry.1.tag = entry.2.1 ∧
    entry.1.name = entry.2.2 := by
  decide

@[simp] theorem ofTag?_tag (kind : NodeKind) : ofTag? kind.tag = some kind := by
  cases kind with
  | token k => cases k <;> rfl
  | _ => rfl

end NodeKind

/-- A tag that no kind has. -/
structure UnknownTag where
  tag : Nat
  deriving DecidableEq, Repr

/-- The message for the tag, in four hexadecimal digits. -/
def UnknownTag.message (e : UnknownTag) : String :=
  s!"unknown node kind tag 0x{Text.hexPadded 4 e.tag}"

end RSource
