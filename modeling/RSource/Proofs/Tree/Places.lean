import Mathlib.Data.List.Basic
import RSource.Outline
import RSource.Tree.Build

/-! Where the nodes of a built tree stand.  `number` gives every node of a rose tree its place, and
`ofRose` puts each node at its place in the array.  So what is read off the array, in preorder or as
a rose tree of places, is what the rose tree holds: `leaves_ofRose` and `outline_ofRose`. -/

namespace RSource

namespace Rose

variable {α β γ : Type}

mutual
/-- The tree with every label replaced by its image. -/
def map (f : α → β) : Rose α → Rose β
  | .node a cs => .node (f a) (forestMap f cs)

def forestMap (f : α → β) : List (Rose α) → List (Rose β)
  | [] => []
  | t :: ts => t.map f :: forestMap f ts
end

theorem forestMap_eq_map (f : α → β) (ts : List (Rose α)) : forestMap f ts = ts.map (map f) := by
  induction ts with
  | nil => rfl
  | cons t ts ih => simp [forestMap, ih]

mutual
theorem map_map (g : β → γ) (f : α → β) : (t : Rose α) → (t.map f).map g = t.map (g ∘ f)
  | .node _ cs => by simp [map, forestMap_forestMap g f cs]

theorem forestMap_forestMap (g : β → γ) (f : α → β) :
    (ts : List (Rose α)) → forestMap g (forestMap f ts) = forestMap (g ∘ f) ts
  | [] => rfl
  | t :: ts => by simp [forestMap, map_map g f t, forestMap_forestMap g f ts]
end

mutual
theorem preorder_map (f : α → β) : (t : Rose α) → (t.map f).preorder = t.preorder.map f
  | .node _ cs => by simp [map, preorder, forestPreorder_map f cs]

theorem forestPreorder_map (f : α → β) :
    (ts : List (Rose α)) → forestPreorder (forestMap f ts) = (forestPreorder ts).map f
  | [] => rfl
  | t :: ts => by simp [forestMap, forestPreorder, preorder_map f t, forestPreorder_map f ts]
end

mutual
theorem map_congr {f g : α → β} :
    (t : Rose α) → (∀ a ∈ t.preorder, f a = g a) → t.map f = t.map g
  | .node a cs, h => by
    simp only [preorder, List.mem_cons, forall_eq_or_imp] at h
    simp [map, h.1, forestMap_congr cs h.2]

theorem forestMap_congr {f g : α → β} : (ts : List (Rose α)) →
    (∀ a ∈ forestPreorder ts, f a = g a) → forestMap f ts = forestMap g ts
  | [], _ => rfl
  | t :: ts, h => by
    simp only [forestPreorder, List.mem_append] at h
    simp [forestMap, map_congr t fun a ha => h a (.inl ha),
      forestMap_congr ts fun a ha => h a (.inr ha)]
end

@[simp] theorem forestPreorder_append (ts us : List (Rose α)) :
    forestPreorder (ts ++ us) = forestPreorder ts ++ forestPreorder us := by
  induction ts with
  | nil => rfl
  | cons t ts ih => simp [forestPreorder, ih]

@[simp] theorem forestMap_append (f : α → β) (ts us : List (Rose α)) :
    forestMap f (ts ++ us) = forestMap f ts ++ forestMap f us := by
  simp [forestMap_eq_map]

end Rose

/-- The token that a leaf of this extent holds. -/
def Extent.token? (e : Extent) : Option Token := e.kind.tokenKind?.map fun k => ⟨k, e.span⟩

namespace Outline

mutual
/-- The outline of a tree of kinds whose first leaf is the token with index `place`, as a row,
because a layout leaf has none.  With it comes the index after that of the last leaf. -/
def ofTree (place : Nat) : Rose NodeKind → List Outline × Nat
  | .node (.token kind) [] => (if kind.isLayout then [] else [.token place], place + 1)
  | .node kind cs => ([.node kind (ofForest place cs).1], (ofForest place cs).2)

/-- The outlines of trees that stand side by side. -/
def ofForest (place : Nat) : List (Rose NodeKind) → List Outline × Nat
  | [] => ([], place)
  | t :: ts =>
    ((ofTree place t).1 ++ (ofForest (ofTree place t).2 ts).1, (ofForest (ofTree place t).2 ts).2)
end

end Outline

namespace SyntaxTree

/-- The token that a leaf holds. -/
def token? (t : SyntaxTree) (id : NodeId) : Option Token :=
  (t.nodes[id]?).bind fun node => node.kind.tokenKind?.map fun k => ⟨k, node.span⟩

/-- The tokens of the leaves in document order. -/
def leaves (t : SyntaxTree) : List Token := (t.preorder t.root).filterMap t.token?

/-- The kinds of the nodes below the root, in the form of the tree. -/
def kinds (t : SyntaxTree) : Rose NodeKind := t.shape.map fun id => (t.kind? id).getD .error

/-- The tree without its layout: every other leaf is given by the number of leaves before it. -/
def outline (t : SyntaxTree) : List Outline := (Outline.ofTree 0 t.kinds).1

/-! ### Numbering -/

@[simp] theorem number_node (first : Nat) (e : Extent) (cs : List (Rose Extent)) :
    number first (.node e cs) = (.node ((numberAll first cs).2, e) (numberAll first cs).1,
      (numberAll first cs).2 + 1) := rfl

@[simp] theorem numberAll_nil (first : Nat) : numberAll first [] = ([], first) := rfl

@[simp] theorem numberAll_cons (first : Nat) (t : Rose Extent) (ts : List (Rose Extent)) :
    numberAll first (t :: ts) =
      ((number first t).1 :: (numberAll (number first t).2 ts).1,
        (numberAll (number first t).2 ts).2) := rfl

mutual
theorem number_next (first : Nat) :
    (t : Rose Extent) → (number first t).2 = first + t.size
  | .node _ cs => by simp [Rose.size, numberAll_next first cs, Nat.add_assoc]

theorem numberAll_next (first : Nat) :
    (ts : List (Rose Extent)) → (numberAll first ts).2 = first + Rose.forestSize ts
  | [] => rfl
  | t :: ts => by
    rw [numberAll_cons, numberAll_next _ ts, number_next first t, Rose.forestSize, Nat.add_assoc]
end

/-- The root is numbered last. -/
theorem number_label (first : Nat) (t : Rose Extent) :
    (number first t).1.label.1 + 1 = first + t.size := by
  rw [← number_next]
  cases t
  rfl

/-- Every tree of a forest ends before the next free place. -/
theorem label_lt_of_mem_numberAll (first : Nat) (ts : List (Rose Extent)) :
    ∀ n ∈ (numberAll first ts).1, n.label.1 < (numberAll first ts).2 := by
  induction ts generalizing first with
  | nil => simp
  | cons t ts ih =>
    intro n hn
    simp only [numberAll_cons, List.mem_cons] at hn ⊢
    rcases hn with rfl | hn
    · have hlabel := number_label first t
      rw [numberAll_next, number_next, ← hlabel, Nat.add_right_comm]
      exact Nat.lt_succ_of_le (Nat.le_add_right _ _)
    · exact ih _ n hn

mutual
/-- Numbering keeps the extents. -/
theorem map_number (first : Nat) : (t : Rose Extent) → (number first t).1.map (·.2) = t
  | .node _ cs => by simp [Rose.map, forestMap_numberAll first cs]

theorem forestMap_numberAll (first : Nat) :
    (ts : List (Rose Extent)) → Rose.forestMap (·.2) (numberAll first ts).1 = ts
  | [] => rfl
  | t :: ts => by simp [Rose.forestMap, map_number first t, forestMap_numberAll _ ts]
end

mutual
theorem size_number (first : Nat) : (t : Rose Extent) → (number first t).1.size = t.size
  | .node _ cs => by simp [Rose.size, forestSize_numberAll first cs]

theorem forestSize_numberAll (first : Nat) :
    (ts : List (Rose Extent)) → Rose.forestSize (numberAll first ts).1 = Rose.forestSize ts
  | [] => rfl
  | t :: ts => by simp [Rose.forestSize, size_number first t, forestSize_numberAll _ ts]
end

/-! ### Nodes at their places -/

mutual
/-- The nodes of a numbered tree stand at their places, each after its children and with `parent`,
or the node around it, as its parent. -/
def Holds (t : SyntaxTree) (parent : Option NodeId) : Rose (NodeId × Extent) → Prop
  | .node (id, e) cs =>
    t.nodes[id]? = some ⟨e.kind, e.span, parent, cs.map (·.label.1)⟩ ∧
      (∀ c ∈ cs, c.label.1 < id) ∧ ForestHolds t id cs

/-- The nodes of numbered trees below `parent` stand at their places. -/
def ForestHolds (t : SyntaxTree) (parent : NodeId) : List (Rose (NodeId × Extent)) → Prop
  | [] => True
  | n :: ns => Holds t (some parent) n ∧ ForestHolds t parent ns
end

mutual
theorem nodesThen_eq (rest : List Node) (parent : Option NodeId) :
    (n : Rose (NodeId × Extent)) → nodesThen rest parent n = nodesThen [] parent n ++ rest
  | .node (id, e) cs => by
    simp only [nodesThen]
    rw [forestNodesThen_eq _ id cs, forestNodesThen_eq [_] id cs]
    simp

theorem forestNodesThen_eq (rest : List Node) (parent : NodeId) :
    (ns : List (Rose (NodeId × Extent))) →
      forestNodesThen rest parent ns = forestNodesThen [] parent ns ++ rest
  | [] => rfl
  | n :: ns => by
    simp only [forestNodesThen]
    rw [forestNodesThen_eq rest parent ns, nodesThen_eq (_ ++ rest) _ n,
      nodesThen_eq (forestNodesThen [] parent ns) _ n, List.append_assoc]
end

mutual
theorem length_nodesThen (parent : Option NodeId) :
    (n : Rose (NodeId × Extent)) → (nodesThen [] parent n).length = n.size
  | .node (id, e) cs => by
    simp [nodesThen, forestNodesThen_eq [_], length_forestNodesThen id cs, Rose.size]

theorem length_forestNodesThen (parent : NodeId) :
    (ns : List (Rose (NodeId × Extent))) →
      (forestNodesThen [] parent ns).length = Rose.forestSize ns
  | [] => rfl
  | n :: ns => by
    simp [forestNodesThen, nodesThen_eq (forestNodesThen [] parent ns), length_nodesThen _ n,
      length_forestNodesThen parent ns, Rose.forestSize]
end

mutual
/-- A numbered tree stands in every array that has its nodes from its first place on. -/
theorem holds_number {t : SyntaxTree} (before after : List Node) (parent : Option NodeId) :
    (r : Rose Extent) →
      t.nodes.toList = before ++ nodesThen [] parent (number before.length r).1 ++ after →
      t.Holds parent (number before.length r).1
  | .node e cs, h => by
    simp only [number_node, nodesThen] at h ⊢
    rw [forestNodesThen_eq, List.append_assoc, List.append_assoc, ← List.append_assoc] at h
    have hid : (numberAll before.length cs).2 = (before ++ forestNodesThen []
        (numberAll before.length cs).2 (numberAll before.length cs).1).length := by
      rw [List.length_append, length_forestNodesThen, forestSize_numberAll, numberAll_next]
    refine ⟨?_, label_lt_of_mem_numberAll before.length cs,
      holds_numberAll before (_ :: after) _ cs h⟩
    rw [← Array.getElem?_toList, h, List.getElem?_append_right (Nat.le_of_eq hid.symm),
      Nat.sub_eq_zero_of_le (Nat.le_of_eq hid)]
    rfl

theorem holds_numberAll {t : SyntaxTree} (before after : List Node) (parent : NodeId) :
    (rs : List (Rose Extent)) →
      t.nodes.toList =
        before ++ forestNodesThen [] parent (numberAll before.length rs).1 ++ after →
      t.ForestHolds parent (numberAll before.length rs).1
  | [], _ => trivial
  | r :: rs, h => by
    simp only [numberAll_cons, forestNodesThen] at h ⊢
    rw [nodesThen_eq] at h
    refine ⟨holds_number before _ _ r (by simpa using h), ?_⟩
    have hlength : (before ++ nodesThen [] (some parent) (number before.length r).1).length =
        (number before.length r).2 := by
      rw [List.length_append, length_nodesThen, size_number, number_next]
    have hrest := holds_numberAll (t := t)
      (before ++ nodesThen [] (some parent) (number before.length r).1) after parent rs
    rw [hlength] at hrest
    exact hrest (by simpa using h)
end

theorem holds_ofRose (text : String) (r : Rose Extent) :
    (ofRose text r).Holds none (number 0 r).1 :=
  holds_number [] [] none r (by simp [ofRose])

theorem root_ofRose (text : String) (r : Rose Extent) :
    (ofRose text r).root = (number 0 r).1.label.1 := rfl

theorem size_ofRose (text : String) (r : Rose Extent) : (ofRose text r).size = r.size := by
  simp [size, ofRose, length_nodesThen, size_number]

mutual
/-- What the array says of a node is what the numbered tree says of it. -/
theorem Holds.node? {t : SyntaxTree} {parent : Option NodeId} :
    {n : Rose (NodeId × Extent)} → t.Holds parent n → ∀ p ∈ n.preorder,
      ∃ node, t.nodes[p.1]? = some node ∧ node.kind = p.2.kind ∧ node.span = p.2.span
  | .node (id, e) cs, h, p, hp => by
    obtain ⟨hnode, -, hcs⟩ := h
    rcases List.mem_cons.mp hp with rfl | hp
    · exact ⟨_, hnode, rfl, rfl⟩
    · exact ForestHolds.node? hcs p hp

theorem ForestHolds.node? {t : SyntaxTree} {parent : NodeId} :
    {ns : List (Rose (NodeId × Extent))} → t.ForestHolds parent ns →
      ∀ p ∈ Rose.forestPreorder ns,
        ∃ node, t.nodes[p.1]? = some node ∧ node.kind = p.2.kind ∧ node.span = p.2.span
  | [], _, p, hp => by simp [Rose.forestPreorder] at hp
  | n :: ns, ⟨hn, hns⟩, p, hp => by
    rcases List.mem_append.mp hp with hp | hp
    · exact hn.node? p hp
    · exact ForestHolds.node? hns p hp
end

/-! ### Reading the array back -/

mutual
theorem workList_cons_of_holds {t : SyntaxTree} {parent : Option NodeId} (bound : Nat)
    (rest : List NodeId) : (n : Rose (NodeId × Extent)) → t.Holds parent n →
      t.workList (n.size + bound) (n.label.1 :: rest) =
        n.preorder.map (·.1) ++ t.workList bound rest
  | .node (id, e) cs, h => by
    obtain ⟨hnode, -, hcs⟩ := h
    have hchildren : t.children id = cs.map (·.label.1) := by simp [children, hnode]
    rw [Rose.size, Nat.add_right_comm, show (Rose.node (id, e) cs).label.1 = id from rfl, workList,
      hchildren, workList_append_of_holds bound rest cs hcs]
    rfl

theorem workList_append_of_holds {t : SyntaxTree} {parent : NodeId} (bound : Nat)
    (rest : List NodeId) : (ns : List (Rose (NodeId × Extent))) → t.ForestHolds parent ns →
      t.workList (Rose.forestSize ns + bound) (ns.map (·.label.1) ++ rest) =
        (Rose.forestPreorder ns).map (·.1) ++ t.workList bound rest
  | [], _ => by simp [Rose.forestSize, Rose.forestPreorder]
  | n :: ns, ⟨hn, hns⟩ => by
    rw [Rose.forestSize, Nat.add_assoc, List.map_cons, List.cons_append,
      workList_cons_of_holds _ _ n hn, workList_append_of_holds bound rest ns hns]
    simp [Rose.forestPreorder]
end

/-- The nodes of a built tree in document order are those of the rose tree. -/
theorem preorder_ofRose (text : String) (r : Rose Extent) :
    (ofRose text r).preorder (ofRose text r).root = (number 0 r).1.preorder.map (·.1) := by
  rw [preorder, size_ofRose, ← size_number 0, root_ofRose]
  simpa [workList] using workList_cons_of_holds 0 [] _ (holds_ofRose text r)

theorem leaves_ofRose (text : String) (r : Rose Extent) :
    (ofRose text r).leaves = r.preorder.filterMap Extent.token? := by
  have hread : ∀ p ∈ (number 0 r).1.preorder, (ofRose text r).token? p.1 = p.2.token? := by
    intro p hp
    obtain ⟨node, hnode, hkind, hspan⟩ := (holds_ofRose text r).node? p hp
    simp [token?, Extent.token?, hnode, hkind, hspan]
  calc (ofRose text r).leaves
    _ = (number 0 r).1.preorder.filterMap fun p => (ofRose text r).token? p.1 := by
      rw [leaves, preorder_ofRose, List.filterMap_map]; rfl
    _ = (number 0 r).1.preorder.filterMap fun p => p.2.token? := List.filterMap_congr hread
    _ = ((number 0 r).1.map (·.2)).preorder.filterMap Extent.token? := by
      rw [Rose.preorder_map, List.filterMap_map]; rfl
    _ = r.preorder.filterMap Extent.token? := by rw [map_number]

/-- The step of `subtrees`. -/
def growSubtrees (done : Array (Rose NodeId)) (node : Node) : Array (Rose NodeId) :=
  done.push (.node done.size (node.children.filterMap fun c => done[c]?))

theorem size_foldl_growSubtrees (nodes : List Node) (done : Array (Rose NodeId)) :
    (nodes.foldl growSubtrees done).size = done.size + nodes.length := by
  induction nodes generalizing done with
  | nil => rfl
  | cons node nodes ih => simp [ih, growSubtrees]; omega

theorem getElem?_foldl_growSubtrees (nodes : List Node) (done : Array (Rose NodeId)) {i : Nat}
    (h : i < done.size) : (nodes.foldl growSubtrees done)[i]? = done[i]? := by
  induction nodes generalizing done with
  | nil => rfl
  | cons node nodes ih =>
    rw [List.foldl_cons, ih _ (by simp [growSubtrees]; omega), growSubtrees,
      Array.getElem?_push_lt h, Array.getElem?_eq_getElem h]

/-- A subtree consists of its node and the subtrees of the children, if these stand before it. -/
theorem getElem?_subtrees {t : SyntaxTree} {id : NodeId} {node : Node}
    (h : t.nodes[id]? = some node) (before : ∀ c ∈ node.children, c < id) :
    t.subtrees[id]? = some (.node id (node.children.filterMap fun c => t.subtrees[c]?)) := by
  have hsubtrees : t.subtrees = t.nodes.toList.foldl growSubtrees #[] := by
    rw [subtrees, ← Array.foldl_toList]; rfl
  rw [← Array.getElem?_toList] at h
  obtain ⟨hlt, hget⟩ := List.getElem?_eq_some_iff.mp h
  have hsplit : t.nodes.toList = t.nodes.toList.take id ++ node :: t.nodes.toList.drop (id + 1) := by
    rw [← hget, List.getElem_cons_drop, List.take_append_drop]
  have hsize : ((t.nodes.toList.take id).foldl growSubtrees #[]).size = id := by
    rw [size_foldl_growSubtrees]; simp at hlt ⊢; omega
  rw [hsplit, List.foldl_append, List.foldl_cons] at hsubtrees
  have hbelow : ∀ c ∈ node.children,
      t.subtrees[c]? = ((t.nodes.toList.take id).foldl growSubtrees #[])[c]? := by
    intro c hc
    have hlt := Nat.lt_of_lt_of_eq (before c hc) hsize.symm
    rw [hsubtrees, getElem?_foldl_growSubtrees _ _ (by simp [growSubtrees]; omega), growSubtrees,
      Array.getElem?_push_lt hlt, Array.getElem?_eq_getElem hlt]
  rw [List.filterMap_congr hbelow, hsubtrees,
    getElem?_foldl_growSubtrees _ _ (by simp [growSubtrees]; omega), growSubtrees, hsize,
    Array.getElem?_push, if_pos hsize.symm]

mutual
theorem Holds.subtree {t : SyntaxTree} {parent : Option NodeId} :
    {n : Rose (NodeId × Extent)} → t.Holds parent n →
      t.subtrees[n.label.1]? = some (n.map (·.1))
  | .node (id, e) cs, ⟨hnode, hbefore, hcs⟩ => by
    have h := getElem?_subtrees hnode (by simpa using hbefore)
    rw [show (Rose.node (id, e) cs).label.1 = id from rfl, h]
    simp only [Rose.map, Option.some.injEq, Rose.node.injEq, true_and]
    exact ForestHolds.subtrees hcs

theorem ForestHolds.subtrees {t : SyntaxTree} {parent : NodeId} :
    {ns : List (Rose (NodeId × Extent))} → t.ForestHolds parent ns →
      ((ns.map (·.label.1)).filterMap fun c => t.subtrees[c]?) = Rose.forestMap (·.1) ns
  | [], _ => rfl
  | n :: ns, ⟨hn, hns⟩ => by
    simp only [List.map_cons, Rose.forestMap]
    rw [List.filterMap_cons_some hn.subtree, ForestHolds.subtrees hns]
end

/-- The tree of places is the numbered tree without its extents. -/
theorem shape_ofRose (text : String) (r : Rose Extent) :
    (ofRose text r).shape = (number 0 r).1.map (·.1) := by
  rw [shape, root_ofRose, (holds_ofRose text r).subtree, Option.getD_some]

theorem kinds_ofRose (text : String) (r : Rose Extent) :
    (ofRose text r).kinds = r.map Extent.kind := by
  have hread : ∀ p ∈ (number 0 r).1.preorder,
      ((ofRose text r).kind? p.1).getD .error = p.2.kind := by
    intro p hp
    obtain ⟨node, hnode, hkind, -⟩ := (holds_ofRose text r).node? p hp
    simp [kind?, hnode, hkind]
  calc (ofRose text r).kinds
    _ = (number 0 r).1.map fun p => ((ofRose text r).kind? p.1).getD .error := by
      rw [kinds, shape_ofRose, Rose.map_map]; rfl
    _ = (number 0 r).1.map fun p => p.2.kind := Rose.map_congr _ hread
    _ = ((number 0 r).1.map (·.2)).map Extent.kind := by rw [Rose.map_map]; rfl
    _ = r.map Extent.kind := by rw [map_number]

theorem outline_ofRose (text : String) (r : Rose Extent) :
    (ofRose text r).outline = (Outline.ofTree 0 (r.map Extent.kind)).1 := by
  rw [outline, kinds_ofRose]

end SyntaxTree

end RSource
