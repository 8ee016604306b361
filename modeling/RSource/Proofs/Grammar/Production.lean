import Mathlib.Computability.Language
import Mathlib.Order.CompletePartialOrder
import Mathlib.Order.ConditionallyCompleteLattice.Basic
import RSource.Proofs.Parser.Reading

/-! The productions of the grammar.  For every kind of node, `children` is the language of the rows
that may stand below it.  A strict tree keeps to the grammar.  In a lenient one, which is what the
parser makes of any tokens, a closing bracket may be missing and an error may stand where an
expression is missing or where something does not belong. -/

namespace RSource

open scoped Computability

/-- How closely a tree keeps to the grammar. -/
inductive Rigor where
  | strict
  | lenient
  deriving DecidableEq

namespace Rigor

/-- What only lenient trees may have. -/
def allow : Rigor → Language Outline → Language Outline
  | .strict, _ => 0
  | .lenient, L => L

/-- Strict trees come from parses without errors. -/
def Admits (rigor : Rigor) (errors : List ParseError) : Prop := rigor = .strict → errors = []

@[simp] theorem admits_append {rigor : Rigor} {es fs : List ParseError} :
    rigor.Admits (es ++ fs) ↔ rigor.Admits es ∧ rigor.Admits fs := by
  simp only [Admits, List.append_eq_nil_iff]
  tauto

@[simp] theorem admits_cons {rigor : Rigor} {e : ParseError} {es : List ParseError} :
    rigor.Admits (e :: es) ↔ rigor = .lenient := by
  cases rigor <;> simp [Admits]

/-- The kinds of node that stand for an expression. -/
def stands (rigor : Rigor) (kind : NodeKind) : Bool :=
  (kind.isExpression && kind != .emptyExpression) || (rigor == .lenient && kind == .error)

end Rigor

namespace Outline

/-- The kind of a node. -/
def kind? : Outline → Option NodeKind
  | .token _ => none
  | .node kind _ => some kind

/-- The first token of the outline is the first of its line. -/
def StartsLine (tokens : List Token) (o : Outline) : Prop :=
  ∃ i, o.tokens.head? = some i ∧ startsLine tokens i

/-- The outline is a semicolon or an error. -/
def Parts (o : Outline) : Prop := o.kind? = none ∨ o.kind? = some .error

/-- Two outlines in a list of statements: one of them is a semicolon or an error, or the second
begins a line. -/
def Apart (tokens : List Token) (o p : Outline) : Prop :=
  o.Parts ∨ p.Parts ∨ p.StartsLine tokens

end Outline

namespace Production

section

variable (tokens : List Token) (rigor : Rigor)

/-! ### Symbols -/

/-- A leaf with a token of one of some kinds. -/
def token (kinds : List TokenKind) : Language Outline :=
  {os | ∃ i t, os = [.token i] ∧ tokens[i]? = some t ∧ t.kind ∈ kinds}

/-- A node of one of some kinds. -/
def node (kinds : List NodeKind) : Language Outline :=
  {os | ∃ kind cs, os = [.node kind cs] ∧ kind ∈ kinds}

/-- A node around one token, which is of one of some kinds. -/
def operator (kind : NodeKind) (kinds : List TokenKind) : Language Outline :=
  {os | ∃ cs, os = [.node kind cs] ∧ cs ∈ token tokens kinds}

/-- A node that stands for an expression and has at least one token. -/
def expression : Language Outline :=
  {os | ∃ kind cs, os = [.node kind cs] ∧ rigor.stands kind ∧ Outline.forestTokens cs ≠ []}

def fault : Language Outline := rigor.allow (node [.error])

/-- An expression, or an error in its place. -/
def operand : Language Outline := expression rigor + fault rigor

/-- An operand that may be left out. -/
def optional : Language Outline := node [.emptyExpression] + operand rigor

/-- A token that lenient trees may lack. -/
def wanted (kind : TokenKind) : Language Outline := token tokens [kind] + rigor.allow 1

/-! ### Lists -/

/-- Expressions and semicolons, with a semicolon or a line end between two expressions. -/
def statements : Language Outline :=
  (token tokens [.semicolon] + expression rigor)∗ ⊓ {os | os.IsChain (Outline.Apart tokens)}

/-- Elements with commas between them. -/
def separated (element : Language Outline) : Language Outline :=
  1 + element * (token tokens [.comma] * element)∗

/-- Elements with commas between them up to a closer. -/
def elements (closer : TokenKind) (element : Language Outline) : Language Outline :=
  separated tokens element * wanted tokens rigor closer

/-- An argument or subscript: left out, with a name, or an expression. -/
def argument : Language Outline :=
  node [.emptyExpression] + (node [.namedArgument] + operand rigor) * (1 + fault rigor)

/-! ### Rows -/

/-- An expression and its closing parenthesis. -/
def closed : Language Outline := operand rigor * wanted tokens rigor .rightParen

/-- A condition between parentheses. -/
def condition : Language Outline :=
  token tokens [.leftParen] * closed tokens rigor + rigor.allow 1

/-- The variable and the range of a `for`. -/
def loopHeader : Language Outline :=
  token tokens [.leftParen] * ((node [.identifierExpression] + fault rigor) *
    ((token tokens [.inKeyword] * operand rigor + rigor.allow 1) *
      wanted tokens rigor .rightParen)) + rigor.allow 1

/-- The name of a parameter and its default. -/
def parameter : Language Outline :=
  node [.identifierExpression] * (1 + operator tokens .assignOperator [.equal] * operand rigor) +
    rigor.allow (node [.error] + 1)

/-- What stands right of `$` or `@`. -/
def member : Language Outline :=
  node [.identifierExpression, .stringLiteralExpression, .parenthesizedExpression] + fault rigor

/-- The operators of `operatorExpression`. -/
def binaryOperators : List NodeKind :=
  [.orOperator, .andOperator, .compareOperator, .sumOperator, .productOperator, .specialOperator,
    .colonOperator, .powerOperator]

/-- The reserved words that `?` takes as a topic. -/
def keywords : List TokenKind := TokenKind.all.filter TokenKind.isKeyword

/-- The rows that may stand below a node. -/
def children : NodeKind → Language Outline
  | .file => statements tokens rigor
  | .error => rigor.allow (token tokens TokenKind.all)∗
  | .emptyExpression => 1
  | .invalidLiteral => rigor.allow (token tokens [.openString])
  | .assignmentStatement =>
    expression rigor * (operator tokens .assignOperator
        [.leftAssign, .leftSuperAssign, .colonAssign, .rightAssign, .rightSuperAssign] *
      operand rigor) +
    expression rigor * (operator tokens .assignOperator [.equal] * optional rigor)
  | .operatorExpression => expression rigor * (node binaryOperators * operand rigor)
  | .tildeExpression => expression rigor * (node [.tildeOperator] * operand rigor)
  | .formulaExpression => operator tokens .tildeOperator [.tilde] * operand rigor
  | .notExpression => operator tokens .notOperator [.not] * operand rigor
  | .signExpression => operator tokens .sumOperator [.plus, .minus] * operand rigor
  | .ifStatement =>
    token tokens [.ifKeyword] * (condition tokens rigor * (operand rigor *
      (1 + token tokens [.elseKeyword] * operand rigor)))
  | .whileStatement => token tokens [.whileKeyword] * (condition tokens rigor * operand rigor)
  | .forStatement => token tokens [.forKeyword] * (loopHeader tokens rigor * operand rigor)
  | .repeatStatement => token tokens [.repeatKeyword] * operand rigor
  | .breakStatement => token tokens [.breakKeyword]
  | .nextStatement => token tokens [.nextKeyword]
  | .blockExpression =>
    token tokens [.leftBrace] * (statements tokens rigor * wanted tokens rigor .rightBrace)
  | .helpExpression =>
    token tokens [.question] * ((1 + token tokens [.question]) *
      (token tokens keywords + operand rigor))
  | .parenthesizedExpression => token tokens [.leftParen] * closed tokens rigor
  | .functionExpression =>
    token tokens [.functionKeyword, .lambda] * (node [.parameterList] * operand rigor)
  | .parameterList =>
    token tokens [.leftParen] * elements tokens rigor .rightParen (node [.parameter]) +
      rigor.allow 1
  | .parameter => parameter tokens rigor * (1 + fault rigor)
  | .callExpression => expression rigor * node [.argumentList]
  | .argumentList =>
    token tokens [.leftParen] * elements tokens rigor .rightParen (argument rigor)
  | .namedArgument =>
    node [.identifierExpression, .stringLiteralExpression, .nullLiteral] *
      (operator tokens .assignOperator [.equal] * optional rigor)
  | .subscriptionExpression =>
    expression rigor *
      (token tokens [.leftBracket] * elements tokens rigor .rightBracket (argument rigor) +
        token tokens [.leftDoubleBracket] *
          elements tokens rigor .rightDoubleBracket (argument rigor))
  | .memberExpression => expression rigor * (node [.dollarOperator] * member rigor)
  | .atExpression => expression rigor * (node [.atOperator] * member rigor)
  | .namespaceAccessExpression =>
    token tokens [.identifier, .dots, .underscore, .string] *
      (token tokens [.doubleColon, .tripleColon] *
        (node [.identifierExpression, .stringLiteralExpression] + fault rigor))
  | .identifierExpression => token tokens [.identifier, .dots, .underscore]
  | .stringLiteralExpression => token tokens [.string]
  | .numericLiteralExpression => token tokens [.integer, .numeric, .complex]
  | .booleanLiteral => token tokens [.trueKeyword, .falseKeyword]
  | .nullLiteral => token tokens [.nullKeyword]
  | .naLiteral => token tokens
    [.naKeyword, .naIntegerKeyword, .naRealKeyword, .naComplexKeyword, .naCharacterKeyword]
  | .boundaryLiteral => token tokens [.infKeyword, .nanKeyword]
  | .assignOperator => token tokens
    [.leftAssign, .leftSuperAssign, .colonAssign, .equal, .rightAssign, .rightSuperAssign]
  | .orOperator => token tokens [.or, .orOr]
  | .andOperator => token tokens [.and, .andAnd]
  | .notOperator => token tokens [.not]
  | .compareOperator => token tokens
    [.equalEqual, .notEqual, .less, .lessEqual, .greater, .greaterEqual]
  | .sumOperator => token tokens [.plus, .minus]
  | .productOperator => token tokens [.times, .divide]
  | .specialOperator => token tokens [.specialOp]
  | .colonOperator => token tokens [.colon]
  | .powerOperator => token tokens [.power]
  | .tildeOperator => token tokens [.tilde]
  | .dollarOperator => token tokens [.dollar]
  | .atOperator => token tokens [.at]
  | .roxygenComment | .roxygenParamTag | .roxygenTag | .roxygenParameter | .roxygenHelpPageLink
  | .roxygenLinkDestination | .roxygenAutolink | .roxygenNamespaceAccess | .roxygenIdentifier
  | .token _ => 0

/-! ### Tokens of a row -/

variable {tokens rigor} {L M : Language Outline}

/-- Every row of the language has a token. -/
def HasToken (L : Language Outline) : Prop := ∀ os ∈ L, Outline.forestTokens os ≠ []

theorem HasToken.add (h : HasToken L) (h' : HasToken M) : HasToken (L + M) :=
  fun os hos => hos.elim (h os) (h' os)

theorem HasToken.mul_right (h : HasToken L) : HasToken (L * M) := by
  rintro _ ⟨os, hos, ps, -, rfl⟩
  simp [h os hos]

theorem hasToken_token (kinds : List TokenKind) : HasToken (token tokens kinds) := by
  rintro _ ⟨i, t, rfl, -, -⟩
  simp [Outline.forestTokens, Outline.tokens]

theorem hasToken_expression : HasToken (expression rigor) := by
  rintro _ ⟨kind, cs, rfl, -, hcs⟩
  simpa [Outline.forestTokens, Outline.tokens] using hcs

theorem hasToken_operator (kind : NodeKind) (kinds : List TokenKind) :
    HasToken (operator tokens kind kinds) := by
  rintro _ ⟨cs, rfl, hcs⟩
  simpa [Outline.forestTokens, Outline.tokens] using hasToken_token kinds cs hcs

theorem hasToken_bot : HasToken (0 : Language Outline) := fun _ h => h.elim

/-- Every expression but an empty one has a token. -/
theorem hasToken_children {kind : NodeKind} (h : kind.isExpression)
    (hempty : kind ≠ .emptyExpression) : HasToken (children tokens rigor kind) := by
  cases kind
  case emptyExpression => exact absurd rfl hempty
  case invalidLiteral =>
    cases rigor with
    | strict => exact hasToken_bot
    | lenient => exact hasToken_token _
  case assignmentStatement => exact hasToken_expression.mul_right.add hasToken_expression.mul_right
  -- Every other row begins with a token, an operator around one or an expression.
  all_goals first
    | exact absurd h Bool.false_ne_true
    | exact hasToken_token _
    | exact (hasToken_token _).mul_right
    | exact hasToken_expression.mul_right
    | exact (hasToken_operator _ _).mul_right

end

end Production

namespace Outline

variable (tokens : List Token) (rigor : Rigor)

mutual
/-- Every node below has a row of children that its kind may have. -/
def Derived : Outline → Prop
  | .token _ => True
  | .node kind os => os ∈ Production.children tokens rigor kind ∧ ForestDerived os

def ForestDerived : List Outline → Prop
  | [] => True
  | o :: os => o.Derived ∧ ForestDerived os
end

variable {tokens rigor}

@[simp] theorem forestDerived_append {os ps : List Outline} :
    ForestDerived tokens rigor (os ++ ps) ↔
      ForestDerived tokens rigor os ∧ ForestDerived tokens rigor ps := by
  induction os with
  | nil => simp [ForestDerived]
  | cons o os ih => simp [ForestDerived, ih, and_assoc]

end Outline

end RSource
