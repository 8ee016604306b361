import RSource.Text.Trim
import RSource.Tree.Expression

/-! The names that identifiers and string literals stand for. -/

namespace RSource

/-- Stands for a name that cannot be told. -/
def unnamed : String := "<unnamed>"

/-- The marks that surround names: backticks and quotes. -/
def isNameMark (c : Char) : Bool := c == '\x60' || c == '"' || c == '\x27'

/-- The text without backticks at its ends. -/
def withoutBackticks (text : String) : String := Text.trim (· == '\x60') text

/-- What comes after the first `::` of a text, or the text itself if there is none. -/
def afterDoubleColon (cs : List Char) : List Char :=
  match go cs with
  | some rest => rest
  | none => cs
where
  /-- What comes after the first `::`. -/
  go : List Char → Option (List Char)
    | ':' :: ':' :: rest => some rest
    | _ :: rest => go rest
    | [] => none

namespace Identifier

/-- The name of an identifier: its text without backticks, and under an assignment without quotes
either.  A package in front of the name is no part of it. -/
def name (t : SyntaxTree) (id : NodeId) : String :=
  let text := String.ofList (afterDoubleColon (t.textOf id).toList)
  if (t.parent? id).any (t.isKind .assignmentStatement) then Text.trim isNameMark text
  else withoutBackticks text

/-- The leaf that holds the name, absent for `...` and `_`. -/
def token? (t : SyntaxTree) (id : NodeId) : Option NodeId := t.childToken? id .identifier

end Identifier

namespace StringLiteral

/-- The lengths in bytes of what opens and closes a string literal: a quote on either side, or for a
raw string the letter, the quote, dashes and a bracket.  A quote is one byte long; dashes after a
longer character do not count. -/
def delimiters? (text : String) : Option (Nat × Nat) :=
  match text.toList with
  | 'r' :: c :: cs | 'R' :: c :: cs =>
    let dashes := if c.utf8Size = 1 then (cs.takeWhile (· == '-')).length else 0
    if 5 + 2 * dashes ≤ Text.byteLength text then some (3 + dashes, 2 + dashes) else none
  | _ => if 2 ≤ Text.byteLength text then some (1, 1) else none

/-- The contents of a string literal. -/
def contents? (text : String) : Option String := do
  let (opening, closing) ← delimiters? text
  Text.slice? text ⟨opening, Text.byteLength text - closing⟩

def name? (t : SyntaxTree) (id : NodeId) : Option String := contents? (t.textOf id)

end StringLiteral

/-- The name that an identifier or a string literal stands for. -/
def nameOf? (t : SyntaxTree) (id : NodeId) : Option String :=
  match t.kind? id with
  | some .identifierExpression => some (Identifier.name t id)
  | some .stringLiteralExpression => StringLiteral.name? t id
  | _ => none

/-- The node is an identifier or a string literal. -/
def isName (t : SyntaxTree) (id : NodeId) : Bool :=
  t.isKind .identifierExpression id || t.isKind .stringLiteralExpression id

/-- The name of a node that may be missing. -/
def nameOrUnnamed (t : SyntaxTree) (id : Option NodeId) : String :=
  (id.bind (nameOf? t)).getD unnamed

end RSource
