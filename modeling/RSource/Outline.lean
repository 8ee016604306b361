import RSource.Event

/-! Outlines: what the parser finds.  An outline has the nodes of a syntax tree, but of the leaves
only those that the grammar sees, each given by its place among the tokens.  Layout is added when a
tree is built from the outline's events. -/

namespace RSource

/-- A tree over tokens, without layout. -/
inductive Outline where
  | token (index : Nat)
  | node (kind : NodeKind) (children : List Outline)
  deriving Repr, Inhabited

namespace Outline

mutual
/-- The events that build a tree of this outline, with others after them. -/
def eventsThen (rest : List Event) : Outline → List Event
  | .token index => .token index :: rest
  | .node kind children => .start kind none :: forestEventsThen (.finish :: rest) children

/-- The events of outlines that stand side by side, with others after them. -/
def forestEventsThen (rest : List Event) : List Outline → List Event
  | [] => rest
  | o :: os => eventsThen (forestEventsThen rest os) o
end

/-- The events that build a tree of this outline. -/
def events (o : Outline) : List Event := o.eventsThen []

mutual
/-- The places of the tokens, in order. -/
def tokens : Outline → List Nat
  | .token index => [index]
  | .node _ children => forestTokens children

/-- The places of the tokens of outlines that stand side by side. -/
def forestTokens : List Outline → List Nat
  | [] => []
  | o :: os => o.tokens ++ forestTokens os
end

@[simp] theorem forestTokens_append (os ps : List Outline) :
    forestTokens (os ++ ps) = forestTokens os ++ forestTokens ps := by
  induction os with
  | nil => rfl
  | cons o os ih => simp [forestTokens, ih]

end Outline

end RSource
