import RSource.Text.Quoted
import RSource.Tree.Basic

/-! The written form of a tree: a line for every node, indented by its depth, and the text of leaves
in quotes.  A node of a token's kind is written as a leaf. -/

namespace RSource.SyntaxTree

/-- One line of a dump, without its line end. -/
def dumpLine (t : SyntaxTree) (depth : Nat) (id : NodeId) : String :=
  let indent := String.ofList (List.replicate (2 * depth) ' ')
  match t.tokenKind? id with
  | some kind => s!"{indent}{kind.name}@{t.span id} {Text.quoted (t.textOf id)}"
  | none => s!"{indent}{t.describe id}"

/-- The lines of a dump, each with its line end. -/
def dumpLines (t : SyntaxTree) : List String :=
  (t.shape.depths t.isToken 0).map fun (depth, id) => t.dumpLine depth id ++ "\n"

def dump (t : SyntaxTree) : String := String.join t.dumpLines

end RSource.SyntaxTree
