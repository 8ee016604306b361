import RSource.Tree.Basic

/-! Visitors: walks over a tree with one method for the nodes of every view.  A method goes on to
the children unless it is replaced by one that does not. -/

namespace RSource

/-- What a node is viewed as. -/
inductive Element where
  /-- A node of a kind that has a view of its own. -/
  | view (kind : NodeKind) (own : kind.isOperator = false ∧ kind.isToken = false)
  /-- A node of one of the kinds of operators, which share a view. -/
  | operator
  | token

def Element.ofKind (kind : NodeKind) : Element :=
  if htoken : kind.isToken then .token
  else if hoperator : kind.isOperator then .operator
  else .view kind ⟨Bool.eq_false_iff.mpr hoperator, Bool.eq_false_iff.mpr htoken⟩

/-- What is done at a node.  It is given the node and the way to go on from it, which takes a state
to the one after it. -/
abbrev VisitorMethod (σ : Type) := NodeId → (σ → σ) → σ → σ

/-- The methods that are not replaced.  All but that of tokens go on to the children. -/
def Element.descend {σ : Type} : Element → VisitorMethod σ
  | .token => fun _ _ => id
  | _ => fun _ children => children

/-- A visitor with a state. -/
structure Visitor (σ : Type) where
  /-- What is done at every node.  From there it may go on to the method of the view. -/
  element : Element → VisitorMethod σ := fun _ _ dispatch => dispatch
  /-- The methods of the views.  From there they may go on to the children. -/
  method : Element → VisitorMethod σ := Element.descend

namespace Visitor

variable {σ : Type}

mutual
/-- The state after a visit to a node. -/
def visit (v : Visitor σ) (view : NodeId → Element) : Rose NodeId → σ → σ
  | .node id cs => v.element (view id) id (v.method (view id) id (v.visitAll view cs))

/-- The state after visits to nodes one after the other. -/
def visitAll (v : Visitor σ) (view : NodeId → Element) : List (Rose NodeId) → σ → σ
  | [], s => s
  | t :: ts, s => v.visitAll view ts (v.visit view t s)
end

/-- The visitor that notes every node that it comes to.  Its methods are replaced for the nodes from
which it does not go on. -/
def noting (stops : NodeId → Bool) : Visitor (Array NodeId) where
  element _ node dispatch seen := dispatch (seen.push node)
  method e node children := if stops node then id else e.descend node children

end Visitor

namespace SyntaxTree

variable {σ : Type}

def element (t : SyntaxTree) (id : NodeId) : Element := .ofKind ((t.kind? id).getD .error)

/-- The state after a visit to the root. -/
def walk (t : SyntaxTree) (v : Visitor σ) (s : σ) : σ := v.visit t.element t.shape s

/-- The nodes that are visited by a visitor that does not go on from some of them. -/
def visited (t : SyntaxTree) (stops : NodeId → Bool) : List NodeId :=
  (t.walk (.noting stops) #[]).toList

end SyntaxTree

end RSource
