import RSource.Token.Stream
import RSource.Tree.Basic
import RSource.View.Assignment

/-! Renaming.  The new name takes the place of one token; the tree keeps its shape, and the name is
written so that it is read back as it is. -/

namespace RSource

/-- What keeps a node from being renamed. -/
inductive RenameError where
  | notNamed (kind : NodeKind)
  | noName
  | invalidName (name : String)
  | tree (cause : TreeError)
  deriving DecidableEq, Repr

def RenameError.message : RenameError → String
  | .notNamed kind => s!"{kind.describe} nodes cannot be renamed"
  | .noName => "node has no name to rename"
  | .invalidName name => s!"`{name}` cannot be written as a name here"
  | .tree cause => cause.message

namespace Rename

/-- A name that can be written without backticks: it is read as one identifier. -/
def isPlain (name : String) : Bool :=
  name.toList.head? != some '\x60' &&
    match lex name with
    | [token, _] => token.kind == .identifier && token.span.length == Text.byteLength name
    | _ => false

/-- How a name is written in place of an identifier.  It gets backticks if it needs them or if the
text it replaces has them. -/
def identifierText (old name : String) : Except RenameError String :=
  if ['\x60'].isPrefixOf old.toList || !isPlain name then
    if name.toList.contains '\x60' then .error (.invalidName name) else .ok s!"`{name}`"
  else .ok name

/-- The characters begin with `part` somewhere. -/
def hasPart (part : List Char) : List Char → Bool
  | [] => part.isEmpty
  | c :: cs => part.isPrefixOf (c :: cs) || hasPart part cs

/-- How a name is written in place of a string literal.  It gets the delimiters of the text it
replaces, and may not hold what ends the literal; in a literal that is not raw, it may hold no
backslash. -/
def stringText (old name : String) : Except RenameError String :=
  match StringLiteral.delimiters? old with
  | none => .error .noName
  | some (opening, closing) =>
    let length := Text.byteLength old
    let opener := Text.slice old ⟨0, opening⟩
    let closer := Text.slice old ⟨length - closing, length⟩
    let quote := (opener.toList.getLast?).getD '"'
    let cs := name.toList
    if hasPart closer.toList cs || (opening ≤ 1 && (cs.contains quote || cs.contains '\\')) then
      .error (.invalidName name)
    else .ok (opener ++ name ++ closer)

/-- The identifier or string literal that carries the name of a node. -/
def target? (t : SyntaxTree) (id : NodeId) : Except RenameError NodeId :=
  let found (name : Option NodeId) : Except RenameError NodeId :=
    match name with
    | some name => .ok name
    | none => .error .noName
  match t.kind? id with
  | some .identifierExpression | some .stringLiteralExpression => .ok id
  | some .assignmentStatement => found (Assignment.name? t id)
  | some .parameter => found (Parameter.name? t id)
  | some .namedArgument => found (NamedArgument.name? t id)
  | some kind => .error (.notNamed kind)
  | none => .error .noName

/-- The leaf to write to and its new text. -/
def replacement (t : SyntaxTree) (target : NodeId) (name : String) :
    Except RenameError (NodeId × String) :=
  let identifier := t.isKind .identifierExpression target
  match if identifier then Identifier.token? t target else t.childToken? target .string with
  | none => .error .noName
  | some leaf => do
    let old := t.textOf leaf
    let text ← if identifier then identifierText old name else stringText old name
    return (leaf, text)

end Rename

/-- The tree after a node is given a name. -/
def SyntaxTree.rename (t : SyntaxTree) (id : NodeId) (name : String) :
    Except RenameError SyntaxTree := do
  if name.isEmpty then throw (.invalidName "")
  let target ← Rename.target? t id
  let (leaf, text) ← Rename.replacement t target name
  match t.replaceTokenText leaf text with
  | .ok edited => return edited
  | .error cause => throw (.tree cause)

end RSource
