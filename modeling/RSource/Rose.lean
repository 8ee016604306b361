/-! Trees with any number of children. -/

namespace RSource

/-- A labelled tree with a list of children. -/
inductive Rose (α : Type) where
  | node (label : α) (children : List (Rose α))
  deriving Repr, Inhabited

namespace Rose

variable {α : Type}

def label : Rose α → α
  | .node a _ => a

def children : Rose α → List (Rose α)
  | .node _ cs => cs

mutual
/-- The number of nodes. -/
def size : Rose α → Nat
  | .node _ cs => forestSize cs + 1

/-- The number of nodes of a list of trees. -/
def forestSize : List (Rose α) → Nat
  | [] => 0
  | t :: ts => t.size + forestSize ts
end

mutual
/-- The labels, each before those of its children. -/
def preorder : Rose α → List α
  | .node a cs => a :: forestPreorder cs

/-- The labels of a list of trees, tree by tree. -/
def forestPreorder : List (Rose α) → List α
  | [] => []
  | t :: ts => t.preorder ++ forestPreorder ts
end

mutual
/-- The labels in preorder, without those below a label that satisfies `stop`. -/
def pruned (stop : α → Bool) : Rose α → List α
  | .node a cs => a :: if stop a then [] else forestPruned stop cs

def forestPruned (stop : α → Bool) : List (Rose α) → List α
  | [] => []
  | t :: ts => t.pruned stop ++ forestPruned stop ts
end

mutual
/-- The labels with their depths, in preorder, without those below a label that satisfies `stop`; the
root's depth is given. -/
def depths (stop : α → Bool) (depth : Nat) : Rose α → List (Nat × α)
  | .node a cs => (depth, a) :: if stop a then [] else forestDepths stop (depth + 1) cs

def forestDepths (stop : α → Bool) (depth : Nat) : List (Rose α) → List (Nat × α)
  | [] => []
  | t :: ts => t.depths stop depth ++ forestDepths stop depth ts
end

mutual
/-- The label reached from the root by going to the first child that satisfies `into`, as long as
there is one. -/
def descend (into : α → Bool) : Rose α → α
  | .node a cs => (forestDescend? into cs).getD a

def forestDescend? (into : α → Bool) : List (Rose α) → Option α
  | [] => none
  | t :: ts => if into t.label then some (t.descend into) else forestDescend? into ts
end

end Rose

end RSource
