/-! The kinds of token of R sources and of doc comments.  A kind carries no text: the text of a
token is the part of the source under its span. -/

namespace RSource

/-- The kind of a token.  The order of the constructors is part of stored data, so kinds are only
ever added at the end. -/
inductive TokenKind where
  | whitespace
  | newline
  | comment
  | identifier
  | integer
  | numeric
  | complex
  | string
  /-- A string without its closing quote. -/
  | openString
  | ifKeyword
  | elseKeyword
  | repeatKeyword
  | whileKeyword
  | functionKeyword
  /-- The short form of `function`: `\`. -/
  | lambda
  | forKeyword
  | inKeyword
  | nextKeyword
  | breakKeyword
  | trueKeyword
  | falseKeyword
  | nullKeyword
  | infKeyword
  | nanKeyword
  | naKeyword
  | naIntegerKeyword
  | naRealKeyword
  | naComplexKeyword
  | naCharacterKeyword
  | dots
  /-- The token `<-`. -/
  | leftAssign
  /-- The token `<<-`. -/
  | leftSuperAssign
  /-- The token `:=`. -/
  | colonAssign
  /-- The token `->`. -/
  | rightAssign
  /-- The token `->>`. -/
  | rightSuperAssign
  /-- The token `=`. -/
  | equal
  | equalEqual
  | notEqual
  | less
  | lessEqual
  | greater
  | greaterEqual
  | not
  | and
  | andAnd
  | or
  | orOr
  | tilde
  | plus
  | minus
  | times
  | divide
  /-- The token `^` or `**`. -/
  | power
  | colon
  | doubleColon
  | tripleColon
  /-- The token `$`. -/
  | dollar
  /-- The token `@`. -/
  | at
  /-- The token `?`. -/
  | question
  /-- The token `%op%` or `|>`. -/
  | specialOp
  /-- The pipe placeholder `_`. -/
  | underscore
  | leftParen
  | rightParen
  | leftBrace
  | rightBrace
  | leftBracket
  /-- The token `[[`. -/
  | leftDoubleBracket
  | rightBracket
  /-- The token `]]` that closes a `[[`. -/
  | rightDoubleBracket
  | comma
  | semicolon
  /-- Characters that begin no token. -/
  | badCharacter
  | endOfFile
  /-- The token `#'`. -/
  | docMarker
  /-- The token `@param`, `@return` and the like. -/
  | docTagName
  | docIdentifier
  | docDoubleColon
  | docLeftBracket
  | docRightBracket
  | docLeftParen
  | docRightParen
  | docLeftAngle
  | docRightAngle
  | docAutolinkUri
  | docComma
  | docWhitespace
  | docNewline
  | docText
  deriving DecidableEq, Repr, Inhabited

namespace TokenKind

/-- Every kind, in order. -/
def all : List TokenKind := [
  .whitespace, .newline, .comment, .identifier, .integer, .numeric, .complex, .string,
  .openString, .ifKeyword, .elseKeyword, .repeatKeyword, .whileKeyword, .functionKeyword, .lambda,
  .forKeyword, .inKeyword, .nextKeyword, .breakKeyword, .trueKeyword, .falseKeyword, .nullKeyword,
  .infKeyword, .nanKeyword, .naKeyword, .naIntegerKeyword, .naRealKeyword, .naComplexKeyword,
  .naCharacterKeyword, .dots, .leftAssign, .leftSuperAssign, .colonAssign, .rightAssign,
  .rightSuperAssign, .equal, .equalEqual, .notEqual, .less, .lessEqual, .greater, .greaterEqual,
  .not, .and, .andAnd, .or, .orOr, .tilde, .plus, .minus, .times, .divide, .power, .colon,
  .doubleColon, .tripleColon, .dollar, .at, .question, .specialOp, .underscore, .leftParen,
  .rightParen, .leftBrace, .rightBrace, .leftBracket, .leftDoubleBracket, .rightBracket,
  .rightDoubleBracket, .comma, .semicolon, .badCharacter, .endOfFile, .docMarker, .docTagName,
  .docIdentifier, .docDoubleColon, .docLeftBracket, .docRightBracket, .docLeftParen,
  .docRightParen, .docLeftAngle, .docRightAngle, .docAutolinkUri, .docComma, .docWhitespace,
  .docNewline, .docText]

/-- The place of a kind in the order. -/
def index (k : TokenKind) : Nat := k.ctorIdx

/-- The kind at a place of the order. -/
def ofIndex? (index : Nat) : Option TokenKind := all[index]?

/-- The name of a kind in token lists and tree dumps. -/
def name : TokenKind → String
  | .whitespace => "Whitespace"
  | .newline => "Newline"
  | .comment => "Comment"
  | .identifier => "Identifier"
  | .integer => "Integer"
  | .numeric => "Numeric"
  | .complex => "Complex"
  | .string => "String"
  | .openString => "InvalidString"
  | .ifKeyword => "If"
  | .elseKeyword => "Else"
  | .repeatKeyword => "Repeat"
  | .whileKeyword => "While"
  | .functionKeyword => "Function"
  | .lambda => "Lambda"
  | .forKeyword => "For"
  | .inKeyword => "In"
  | .nextKeyword => "Next"
  | .breakKeyword => "Break"
  | .trueKeyword => "True"
  | .falseKeyword => "False"
  | .nullKeyword => "Null"
  | .infKeyword => "Inf"
  | .nanKeyword => "NaN"
  | .naKeyword => "Na"
  | .naIntegerKeyword => "NaInteger"
  | .naRealKeyword => "NaReal"
  | .naComplexKeyword => "NaComplex"
  | .naCharacterKeyword => "NaCharacter"
  | .dots => "TripleDots"
  | .leftAssign => "LeftAssign"
  | .leftSuperAssign => "LeftComplexAssign"
  | .colonAssign => "LeftAssignOld"
  | .rightAssign => "RightAssign"
  | .rightSuperAssign => "RightComplexAssign"
  | .equal => "Eq"
  | .equalEqual => "EqEq"
  | .notEqual => "NotEq"
  | .less => "Lt"
  | .lessEqual => "Le"
  | .greater => "Gt"
  | .greaterEqual => "Ge"
  | .not => "Not"
  | .and => "And"
  | .andAnd => "AndAnd"
  | .or => "Or"
  | .orOr => "OrOr"
  | .tilde => "Tilde"
  | .plus => "Plus"
  | .minus => "Minus"
  | .times => "Mult"
  | .divide => "Div"
  | .power => "Exp"
  | .colon => "Colon"
  | .doubleColon => "DoubleColon"
  | .tripleColon => "TripleColon"
  | .dollar => "ListSubset"
  | .at => "At"
  | .question => "Help"
  | .specialOp => "InfixOp"
  | .underscore => "Underscore"
  | .leftParen => "LParen"
  | .rightParen => "RParen"
  | .leftBrace => "LBrace"
  | .rightBrace => "RBrace"
  | .leftBracket => "LBracket"
  | .leftDoubleBracket => "LDoubleBracket"
  | .rightBracket => "RBracket"
  | .rightDoubleBracket => "RDoubleBracket"
  | .comma => "Comma"
  | .semicolon => "Semi"
  | .badCharacter => "BadCharacter"
  | .endOfFile => "Eof"
  | .docMarker => "DocPrefix"
  | .docTagName => "DocTagName"
  | .docIdentifier => "DocIdentifier"
  | .docDoubleColon => "DocDoubleColon"
  | .docLeftBracket => "DocLBracket"
  | .docRightBracket => "DocRBracket"
  | .docLeftParen => "DocLParen"
  | .docRightParen => "DocRParen"
  | .docLeftAngle => "DocLAngle"
  | .docRightAngle => "DocRAngle"
  | .docAutolinkUri => "DocAutolinkUri"
  | .docComma => "DocComma"
  | .docWhitespace => "DocWhitespace"
  | .docNewline => "DocNewline"
  | .docText => "DocText"

/-- The kind of a name. -/
def ofName? (name : String) : Option TokenKind := all.find? fun k => k.name == name

/-- How error messages speak of a kind. -/
def describe : TokenKind → String
  | .whitespace => "whitespace"
  | .newline => "newline"
  | .comment => "comment"
  | .identifier => "identifier"
  | .integer => "integer literal"
  | .numeric => "numeric literal"
  | .complex => "complex literal"
  | .string => "string literal"
  | .openString => "unterminated string"
  | .ifKeyword => "`if`"
  | .elseKeyword => "`else`"
  | .repeatKeyword => "`repeat`"
  | .whileKeyword => "`while`"
  | .functionKeyword => "`function`"
  | .lambda => "`\\`"
  | .forKeyword => "`for`"
  | .inKeyword => "`in`"
  | .nextKeyword => "`next`"
  | .breakKeyword => "`break`"
  | .trueKeyword => "`TRUE`"
  | .falseKeyword => "`FALSE`"
  | .nullKeyword => "`NULL`"
  | .infKeyword => "`Inf`"
  | .nanKeyword => "`NaN`"
  | .naKeyword => "`NA`"
  | .naIntegerKeyword => "`NA_integer_`"
  | .naRealKeyword => "`NA_real_`"
  | .naComplexKeyword => "`NA_complex_`"
  | .naCharacterKeyword => "`NA_character_`"
  | .dots => "`...`"
  | .leftAssign => "`<-`"
  | .leftSuperAssign => "`<<-`"
  | .colonAssign => "`:=`"
  | .rightAssign => "`->`"
  | .rightSuperAssign => "`->>`"
  | .equal => "`=`"
  | .equalEqual => "`==`"
  | .notEqual => "`!=`"
  | .less => "`<`"
  | .lessEqual => "`<=`"
  | .greater => "`>`"
  | .greaterEqual => "`>=`"
  | .not => "`!`"
  | .and => "`&`"
  | .andAnd => "`&&`"
  | .or => "`|`"
  | .orOr => "`||`"
  | .tilde => "`~`"
  | .plus => "`+`"
  | .minus => "`-`"
  | .times => "`*`"
  | .divide => "`/`"
  | .power => "`^`"
  | .colon => "`:`"
  | .doubleColon => "`::`"
  | .tripleColon => "`:::`"
  | .dollar => "`$`"
  | .at => "`@`"
  | .question => "`?`"
  | .specialOp => "infix operator"
  | .underscore => "`_`"
  | .leftParen => "`(`"
  | .rightParen => "`)`"
  | .leftBrace => "`\x7b`"
  | .rightBrace => "`\x7d`"
  | .leftBracket => "`[`"
  | .leftDoubleBracket => "`[[`"
  | .rightBracket => "`]`"
  | .rightDoubleBracket => "`]]`"
  | .comma => "`,`"
  | .semicolon => "`;`"
  | .badCharacter => "bad character"
  | .endOfFile => "end of file"
  | .docMarker => "`#'`"
  | .docTagName => "doc tag"
  | .docIdentifier => "doc identifier"
  | .docDoubleColon => "`::` in doc comment"
  | .docLeftBracket => "`[` in doc comment"
  | .docRightBracket => "`]` in doc comment"
  | .docLeftParen => "`(` in doc comment"
  | .docRightParen => "`)` in doc comment"
  | .docLeftAngle => "`<` in doc comment"
  | .docRightAngle => "`>` in doc comment"
  | .docAutolinkUri => "link target"
  | .docComma => "`,` in doc comment"
  | .docWhitespace => "doc whitespace"
  | .docNewline => "doc newline"
  | .docText => "doc text"

/-- White space and comments: part of the tree, never seen by the grammar. -/
def isTrivia : TokenKind → Bool
  | .whitespace | .comment => true
  | _ => false

/-- Trivia and line ends. -/
def isLayout (k : TokenKind) : Bool := k.isTrivia || k == .newline

/-- The kind belongs to doc comments. -/
def isDoc (k : TokenKind) : Bool := TokenKind.docMarker.index ≤ k.index

/-- The reserved words. -/
def isKeyword : TokenKind → Bool
  | .ifKeyword | .elseKeyword | .repeatKeyword | .whileKeyword | .functionKeyword | .forKeyword
  | .inKeyword | .nextKeyword | .breakKeyword | .trueKeyword | .falseKeyword | .nullKeyword
  | .infKeyword | .nanKeyword | .naKeyword | .naIntegerKeyword | .naRealKeyword
  | .naComplexKeyword | .naCharacterKeyword => true
  | _ => false

/-- `<-`, `<<-` and `:=`. -/
def isLeftAssign : TokenKind → Bool
  | .leftAssign | .leftSuperAssign | .colonAssign => true
  | _ => false

/-- `->` and `->>`. -/
def isRightAssign : TokenKind → Bool
  | .rightAssign | .rightSuperAssign => true
  | _ => false

/-- `<<-` and `->>`, which assign in an enclosing environment. -/
def isSuperAssign : TokenKind → Bool
  | .leftSuperAssign | .rightSuperAssign => true
  | _ => false

theorem mem_all (k : TokenKind) : k ∈ all := by
  cases k <;> decide

end TokenKind

end RSource
