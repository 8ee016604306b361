import RSource.Node.Kind
import RSource.Rose
import RSource.Text.Slice

/-! Syntax trees.  The nodes of a tree stand in one array and refer to each other by their place in
it. Every token of the source is a leaf, so that the texts of the leaves, in order, are the source.
In trees that are built from events a node comes after its children and the root is last. -/

namespace RSource

/-- The place of a node in its tree. -/
abbrev NodeId := Nat

/-- A node: what it is, what it covers, and its place among the others. -/
structure Node where
  kind : NodeKind
  span : Span
  parent : Option NodeId
  children : List NodeId
  deriving DecidableEq, Repr, Inhabited

/-- A tree over a source text. -/
structure SyntaxTree where
  text : String
  nodes : Array Node
  root : NodeId
  deriving DecidableEq, Repr

/-- What keeps a tree from being built or edited. -/
inductive TreeError where
  | unbalancedFinish
  | unclosedNodes (count : Nat)
  | rootCount (count : Nat)
  | tokenOutOfOrder (index cursor : Nat)
  | badForwardParent (place : Nat)
  | notALeaf (node : NodeId)
  | sourceTooLarge
  deriving DecidableEq, Repr

def TreeError.message : TreeError → String
  | .unbalancedFinish => "finish event without a matching start"
  | .unclosedNodes count => s!"{count} node(s) still open at end of events"
  | .rootCount count => s!"expected exactly one root node, found {count}"
  | .tokenOutOfOrder index cursor =>
    s!"token {index} consumed out of order (builder at {cursor})"
  | .badForwardParent place => s!"forward parent of event {place} does not point at a start event"
  | .notALeaf node => s!"node NodeId({node}) is not a token leaf"
  | .sourceTooLarge => "source exceeds u32::MAX bytes"

namespace SyntaxTree

/-- The number of nodes, leaves included. -/
def size (t : SyntaxTree) : Nat := t.nodes.size

def kind? (t : SyntaxTree) (id : NodeId) : Option NodeKind := (t.nodes[id]?).map Node.kind

/-- The span of a node, empty for one that is not there. -/
def span (t : SyntaxTree) (id : NodeId) : Span :=
  ((t.nodes[id]?).map Node.span).getD (.point 0)

def parent? (t : SyntaxTree) (id : NodeId) : Option NodeId := (t.nodes[id]?).bind Node.parent

def children (t : SyntaxTree) (id : NodeId) : List NodeId :=
  ((t.nodes[id]?).map Node.children).getD []

/-- The node is there and of this kind. -/
def isKind (t : SyntaxTree) (kind : NodeKind) (id : NodeId) : Bool := t.kind? id = some kind

/-- The token kind of a leaf. -/
def tokenKind? (t : SyntaxTree) (id : NodeId) : Option TokenKind :=
  (t.kind? id).bind NodeKind.tokenKind?

/-- The node is a leaf that holds a token of this kind. -/
def isTokenOf (t : SyntaxTree) (kind : TokenKind) (id : NodeId) : Bool :=
  t.tokenKind? id = some kind

def isToken (t : SyntaxTree) (id : NodeId) : Bool := (t.tokenKind? id).isSome

def isExpression (t : SyntaxTree) (id : NodeId) : Bool := (t.kind? id).any NodeKind.isExpression

def isOperator (t : SyntaxTree) (id : NodeId) : Bool := (t.kind? id).any NodeKind.isOperator

def isLayout (t : SyntaxTree) (id : NodeId) : Bool := (t.kind? id).any NodeKind.isLayout

/-- The source text a node covers. -/
def textOf (t : SyntaxTree) (id : NodeId) : String := Text.slice t.text (t.span id)

/-- The written form of a node: its kind and its span. -/
def describe (t : SyntaxTree) (id : NodeId) : String :=
  let kind := ((t.kind? id).map NodeKind.describe).getD ""
  s!"{kind}@{t.span id}"

/-! ### Neighbours -/

/-- The children that are not layout. -/
def significantChildren (t : SyntaxTree) (id : NodeId) : List NodeId :=
  (t.children id).filter fun c => !t.isLayout c

/-- The first child of a kind. -/
def childOfKind? (t : SyntaxTree) (id : NodeId) (kind : NodeKind) : Option NodeId :=
  (t.children id).find? (t.isKind kind)

/-- The first leaf child with a token of a kind. -/
def childToken? (t : SyntaxTree) (id : NodeId) (kind : TokenKind) : Option NodeId :=
  t.childOfKind? id (.token kind)

/-- The place of a node among its parent's children. -/
def indexInParent? (t : SyntaxTree) (id : NodeId) : Option Nat := do
  let parent ← t.parent? id
  (t.children parent).idxOf? id

def nextSibling? (t : SyntaxTree) (id : NodeId) : Option NodeId := do
  let parent ← t.parent? id
  let index ← t.indexInParent? id
  (t.children parent)[index + 1]?

/-- The siblings before a node, nearest first. -/
def siblingsBefore (t : SyntaxTree) (id : NodeId) : List NodeId :=
  match t.parent? id, t.indexInParent? id with
  | some parent, some index => ((t.children parent).take index).reverse
  | _, _ => []

def prevSibling? (t : SyntaxTree) (id : NodeId) : Option NodeId := (t.siblingsBefore id).head?

/-- The parent of a node, its parent, and so on, at most `bound` of them. -/
def ancestorsUpTo (t : SyntaxTree) : Nat → NodeId → List NodeId
  | 0, _ => []
  | bound + 1, id =>
    match t.parent? id with
    | some parent => parent :: t.ancestorsUpTo bound parent
    | none => []

/-- The nodes around a node, innermost first. -/
def ancestors (t : SyntaxTree) (id : NodeId) : List NodeId := t.ancestorsUpTo t.size id

/-! ### Traversal -/

/-- The nodes met by taking the first node of a list and putting its children in its place, until
the list is empty or `bound` nodes are taken. -/
def workList (t : SyntaxTree) : Nat → List NodeId → List NodeId
  | 0, _ => []
  | _ + 1, [] => []
  | bound + 1, id :: rest => id :: t.workList bound (t.children id ++ rest)

/-- A node and everything below it in document order. -/
def preorder (t : SyntaxTree) (id : NodeId) : List NodeId := t.workList t.size [id]

/-- All nodes of a kind in document order. -/
def nodesOfKind (t : SyntaxTree) (kind : NodeKind) : List NodeId :=
  (t.preorder t.root).filter (t.isKind kind)

/-- For every node the tree below it, built from the subtrees of the nodes before it. -/
def subtrees (t : SyntaxTree) : Array (Rose NodeId) :=
  t.nodes.foldl (fun done node =>
    done.push (.node done.size (node.children.filterMap fun c => done[c]?))) #[]

/-- The tree of node places below the root. -/
def shape (t : SyntaxTree) : Rose NodeId := ((t.subtrees)[t.root]?).getD (.node t.root [])

/-- The innermost node whose span contains an offset, or the root. -/
def covering (t : SyntaxTree) (offset : Nat) : NodeId :=
  t.shape.descend fun id => (t.span id).contains offset

/-! ### Edits

The text of one leaf is replaced.  This keeps the shape of a tree; every span moves to where its
text now stands. -/

/-- The tree after the text of a leaf is replaced. -/
def replaceTokenText (t : SyntaxTree) (leaf : NodeId) (text : String) :
    Except TreeError SyntaxTree :=
  if !t.isToken leaf then .error (.notALeaf leaf)
  else
    let edit := t.span leaf
    let length := Text.byteLength text
    if maxOffset < length ∨ maxOffset < Text.byteLength t.text - edit.length + length then
      .error .sourceTooLarge
    else
      .ok {
        text := Text.splice t.text edit text
        nodes := t.nodes.map fun node => { node with span := node.span.adjustForEdit edit length }
        root := t.root }

end SyntaxTree

end RSource
