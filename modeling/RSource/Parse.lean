import RSource.Diagnostic.Basic
import RSource.Grammar.DocComment
import RSource.Grammar.Precedence
import RSource.Lexeme.Doc
import RSource.Token.Stream
import RSource.Tree.Build

/-! Parsing: from a text to its syntax tree.  A problem in the text never stops a parse; the tree
always covers the whole text, and the errors found stand beside it. -/

namespace RSource

/-- What a text is read as. -/
inductive Entry where
  /-- A whole R source. -/
  | file
  /-- A doc comment. -/
  | docComment
  deriving DecidableEq, Repr, Inhabited

def Entry.name : Entry → String
  | .file => "File"
  | .docComment => "Roxygen"

/-- An error as it is shown to users. -/
def ParseError.diagnostic (e : ParseError) : Diagnostic :=
  let code := e.problem.code
  ⟨code, .error, e.problem.message, [⟨e.span, code.description, .primary⟩], []⟩

/-- A tree with the errors found in its text, in order. -/
structure Parse where
  tree : SyntaxTree
  errors : List ParseError
  entry : Entry
  deriving Repr

namespace Parse

def hasErrors (p : Parse) : Bool := !p.errors.isEmpty

/-- The errors as they are shown to users. -/
def diagnostics (p : Parse) : List Diagnostic := p.errors.map ParseError.diagnostic

/-- The number of errors that are kept unless a parse is told otherwise. -/
def defaultLimit : Nat := 1000

end Parse

/-- What a parser finds in tokens, from their start on. -/
def Parser.run (parser : Parser Outline) (context : Context) (tokens : List Token) :
    Outline × List ParseError :=
  let outcome := parser context (.ofTokens tokens)
  (outcome.value, ParseError.firstAtEach none outcome.errors)

/-- The parse of a text that is cut into tokens already.  Only the first `limit` errors are kept. -/
def parseWith (entry : Entry) (parser : Parser Outline) (context : Context) (text : String)
    (tokens : List Token) (limit : Nat) : Except TreeError Parse := do
  if maxOffset < Text.byteLength text then throw .sourceTooLarge
  let (outline, errors) := parser.run context tokens
  return ⟨← SyntaxTree.build text tokens outline.events, errors.take limit, entry⟩

/-- The parse of the tokens of an R source. -/
def parseTokens (text : String) (tokens : List Token) (limit : Nat) : Except TreeError Parse :=
  parseWith .file Grammar.source .statements text tokens limit

/-- The parse of an R source. -/
def parse (text : String) (limit : Nat) : Except TreeError Parse :=
  parseTokens text (lex text) limit

/-- The parse of a doc comment. -/
def parseDoc (text : String) : Except TreeError Parse :=
  parseWith .docComment (Grammar.DocComment.comment text) .docComment text (lexDoc text)
    Parse.defaultLimit

end RSource
