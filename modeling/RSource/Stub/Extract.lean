import RSource.Parse
import RSource.Stub.Basic
import RSource.View.Assignment

/-! The stubs of a syntax tree. -/

namespace RSource

namespace StubTree

/-- The stub of a parameter of the function assigned at `parent`. -/
def parameterStub (t : SyntaxTree) (parent : StubId) (id : NodeId) : Stub :=
  ⟨.parameter (Parameter.name t id), some parent, t.span ((Parameter.name? t id).getD id)⟩

/-- The stub of an assignment whose assignee is the name at `name`. -/
def assignmentStub (t : SyntaxTree) (scope : Option StubId) (id name : NodeId) : Stub :=
  let isTopLevel := (t.parent? id).any (t.isKind .file)
  ⟨.assignment (Assignment.name t id) (Assignment.isFunctionDeclaration t id) isTopLevel
    (Assignment.isRight t id), scope, t.span name⟩

/-- The stubs of a named assignment and of the parameters of its function, when the first of them
gets the place `place`. -/
def declared (t : SyntaxTree) (scope : Option StubId) (place : StubId) (id name : NodeId) :
    List Stub :=
  let parameters := ((Assignment.function? t id).map (Function.parameters t)).getD []
  assignmentStub t scope id name :: parameters.map (parameterStub t place)

/-- The name that a node assigns to, if it is an assignment. -/
def assigned? (t : SyntaxTree) (id : NodeId) : Option NodeId :=
  if t.isKind .assignmentStatement id then Assignment.name? t id else none

/-- A walk over a tree: the nodes that wait for their visit, next first, each with the stub around
it, and the stubs of what was visited. -/
structure Walk where
  waiting : List (NodeId × Option StubId)
  stubs : Array Stub

namespace Walk

/-- Those among some nodes that are to be visited, with the stub around them.  Tokens are left out.
-/
def entries (t : SyntaxTree) (scope : Option StubId) (ids : List NodeId) :
    List (NodeId × Option StubId) :=
  (ids.filter fun c => !t.isToken c).map fun c => (c, scope)

/-- The children of a node wait for their visit before all others. -/
def enter (t : SyntaxTree) (id : NodeId) (scope : Option StubId) (w : Walk) : Walk :=
  { w with waiting := entries t scope (t.children id) ++ w.waiting }

/-- Visits a node.  What is assigned inside a function is no declaration of the source. -/
def visit (t : SyntaxTree) (id : NodeId) (scope : Option StubId) (w : Walk) : Walk :=
  if t.isKind .functionExpression id then w
  else
    match assigned? t id with
    | some name =>
      enter t id (some w.stubs.size)
        { w with stubs := w.stubs ++ declared t scope w.stubs.size id name }
    | none => enter t id scope w

/-- The stubs when no node waits any more, or after `bound` visits. -/
def run (t : SyntaxTree) : Nat → Walk → Array Stub
  | 0, w => w.stubs
  | _ + 1, ⟨[], stubs⟩ => stubs
  | bound + 1, ⟨(id, scope) :: waiting, stubs⟩ => run t bound (visit t id scope ⟨waiting, stubs⟩)

end Walk

/-- The stubs of a tree.  No node is visited twice, so that there are enough visits. -/
def ofTree (t : SyntaxTree) : StubTree := ⟨Walk.run t t.size ⟨[(t.root, none)], #[]⟩⟩

/-- The stubs of a source. -/
def ofSource (text : String) (limit : Nat) : Except TreeError StubTree :=
  return ofTree (← parse text limit).tree

end StubTree

end RSource
