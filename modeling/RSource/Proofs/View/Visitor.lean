import RSource.Proofs.Except
import RSource.Proofs.Tree.Ancestors
import RSource.Proofs.Tree.Invariants
import RSource.View.Visitor

/-! The walk of a visitor beside the nodes in document order.  A visit takes a node and goes on to its
children one after the other (`visit_of_build`).  A visitor that does so unless it stops at the node
comes to the nodes that have no other node around them at which it stops, in document order
(`visit_eq_foldl` and `pruned_of_holds`). -/

namespace RSource

variable {σ : Type} {t : SyntaxTree} {v : Visitor σ} {act : NodeId → σ → σ} {stops : NodeId → Bool}

/-- At every node the visitor acts on its state, and then goes on to the children unless it stops. -/
def Visitor.Acts (v : Visitor σ) (t : SyntaxTree) (act : NodeId → σ → σ) (stops : NodeId → Bool) :
    Prop :=
  ∀ id children s, v.element (t.element id) id (v.method (t.element id) id children) s =
    if stops id then act id s else children (act id s)

namespace Visitor.Acts

mutual
theorem visit_eq_foldl (h : v.Acts t act stops) : (r : Rose NodeId) → ∀ s,
    v.visit t.element r s = (r.pruned stops).foldl (fun s id => act id s) s
  | .node id cs, s => by
    rw [Visitor.visit, h id, Rose.pruned, List.foldl_cons]
    split
    · rfl
    · exact visitAll_eq_foldl h cs (act id s)

theorem visitAll_eq_foldl (h : v.Acts t act stops) : (rs : List (Rose NodeId)) → ∀ s,
    v.visitAll t.element rs s = (Rose.forestPruned stops rs).foldl (fun s id => act id s) s
  | [], s => rfl
  | r :: rs, s => by
    rw [Visitor.visitAll, Rose.forestPruned, List.foldl_append, visit_eq_foldl h r,
      visitAll_eq_foldl h rs]
end

end Visitor.Acts

theorem Visitor.visitAll_map (v : Visitor σ) (view : NodeId → Element) (f : NodeId → Rose NodeId)
    (ids : List NodeId) (s : σ) :
    v.visitAll view (ids.map f) s = ids.foldl (fun s c => v.visit view (f c) s) s := by
  induction ids generalizing s with
  | nil => rfl
  | cons id ids ih => rw [List.map_cons, Visitor.visitAll, ih, List.foldl_cons]

namespace SyntaxTree

/-! ### A visit as a recursion over the nodes -/

/-- The tree of places below a node; that below the root is the shape of the tree. -/
def subtree (t : SyntaxTree) (id : NodeId) : Rose NodeId := ((t.subtrees)[id]?).getD (.node id [])

theorem subtree_of_holds {m : Rose (NodeId × Extent)} {parent : Option NodeId}
    (hm : t.Holds parent m) : t.subtree m.label.1 = m.map (·.1) := by
  rw [subtree, hm.subtree, Option.getD_some]

theorem subtree_ofRose {text : String} {r : Rose Extent} {id : NodeId}
    (hid : id < (ofRose text r).size) : (ofRose text r).subtree id =
      .node id (((ofRose text r).children id).map (ofRose text r).subtree) := by
  obtain ⟨m, parent, -, rfl, hm⟩ := exists_within hid
  have hchildren : m.children.map (Rose.map (·.1)) =
      ((ofRose text r).children m.label.1).map (ofRose text r).subtree := by
    rw [hm.children_eq, List.map_map]
    exact List.map_congr_left fun n hn => (subtree_of_holds (hm.child hn)).symm
  rw [subtree_of_holds hm, ← hchildren]
  cases m with
  | node p cs => rw [Rose.map, Rose.forestMap_eq_map]; rfl

/-- A visit to a node of a built tree hands it to the visitor, from there to the method of its view,
and from there its children, in order, to further visits. -/
theorem visit_of_build {text : String} {tokens : List Token} {events : List Event}
    (h : build text tokens events = .ok t) (v : Visitor σ) {id : NodeId} (hid : id < t.size) (s : σ) :
    v.visit t.element (t.subtree id) s =
      v.element (t.element id) id (v.method (t.element id) id fun s =>
        (t.children id).foldl (fun s c => v.visit t.element (t.subtree c) s) s) s := by
  obtain ⟨r, rfl⟩ := exists_ofRose_of_build h
  rw [subtree_ofRose hid, Visitor.visit, funext (v.visitAll_map _ (ofRose text r).subtree _)]

/-! ### What a visitor comes to -/

/-- No node around a node is one that a visitor stops at. -/
def inReach (t : SyntaxTree) (stops : NodeId → Bool) (id : NodeId) : Bool :=
  (t.ancestors id).all fun a => !stops a

mutual
/-- Below a node that the visitor comes to, it comes to what is not cut off. -/
theorem pruned_of_holds (ht : t.Climbs) {parent : Option NodeId} :
    (m : Rose (NodeId × Extent)) → t.Holds parent m → t.inReach stops m.label.1 →
      (m.map (·.1)).pruned stops = (m.preorder.map (·.1)).filter (t.inReach stops)
  | .node (id, e) cs, hm, hreach => by
    have hfilter : ∀ ids, (id :: ids).filter (t.inReach stops) = id :: ids.filter (t.inReach stops) :=
      fun ids => List.filter_cons_of_pos hreach
    rw [Rose.map, Rose.pruned, Rose.preorder, List.map_cons, hfilter]
    cases hstop : stops id with
    | true =>
      -- Everything below has this node around it.
      have hclosed : ∀ q ∈ Rose.forestPreorder cs, ¬ t.inReach stops q.1 := by
        intro q hq hq'
        have hmem := (ht.suffix_forest cs hm.2.2 q hq).subset List.mem_cons_self
        simpa [hstop] using List.all_eq_true.mp hq' id hmem
      rw [if_pos rfl, List.filter_eq_nil_iff.mpr (by simpa using hclosed)]
    | false =>
      rw [if_neg Bool.false_ne_true, pruned_of_forestHolds ht cs hm.2.2 hstop hreach]

theorem pruned_of_forestHolds (ht : t.Climbs) {parent : NodeId} :
    (ms : List (Rose (NodeId × Extent))) → t.ForestHolds parent ms → stops parent = false →
      t.inReach stops parent →
      Rose.forestPruned stops (Rose.forestMap (·.1) ms) =
        ((Rose.forestPreorder ms).map (·.1)).filter (t.inReach stops)
  | [], _, _, _ => rfl
  | m :: ms, ⟨hm, hms⟩, hstop, hreach => by
    have hhere : t.inReach stops m.label.1 := by
      rw [inReach, ht m.label.1 parent hm.parent?_eq, List.all_cons, hstop]
      exact hreach
    rw [Rose.forestMap, Rose.forestPruned, Rose.forestPreorder, List.map_append,
      List.filter_append, pruned_of_holds ht m hm hhere,
      pruned_of_forestHolds ht ms hms hstop hreach]
end

/-- What is left of a tree that is cut where a visitor stops is what the visitor comes to. -/
theorem pruned_shape_ofRose (text : String) (r : Rose Extent) (stops : NodeId → Bool) :
    (ofRose text r).shape.pruned stops =
      ((ofRose text r).preorder (ofRose text r).root).filter ((ofRose text r).inReach stops) := by
  have hroot : (ofRose text r).inReach stops (number 0 r).1.label.1 := by
    rw [inReach, ancestors_eq_nil (holds_ofRose text r).parent?_eq]
    rfl
  rw [shape_ofRose, preorder_ofRose]
  exact pruned_of_holds (climbs_ofRose text r) _ (holds_ofRose text r) hroot

theorem walk_ofRose (text : String) (r : Rose Extent) (h : v.Acts (ofRose text r) act stops)
    (s : σ) : (ofRose text r).walk v s =
      (((ofRose text r).preorder (ofRose text r).root).filter
        ((ofRose text r).inReach stops)).foldl (fun s id => act id s) s := by
  rw [walk, h.visit_eq_foldl, pruned_shape_ofRose]

/-! ### Visitors that note nodes -/

/-- Only the method of tokens does not go on. -/
theorem descend_ofKind (kind : NodeKind) (id : NodeId) (children : σ → σ) (s : σ) :
    (Element.ofKind kind).descend id children s = if kind.isToken then s else children s := by
  rw [Element.ofKind]
  by_cases htoken : kind.isToken
  · rw [dif_pos htoken, if_pos htoken]
    rfl
  · rw [dif_neg htoken, if_neg htoken]
    split <;> rfl

theorem descend_element (t : SyntaxTree) (id : NodeId) (children : σ → σ) (s : σ) :
    (t.element id).descend id children s = if t.isToken id then s else children s := by
  rw [element, descend_ofKind, isToken, tokenKind?]
  cases t.kind? id with
  | none => rfl
  | some kind => rfl

theorem acts_noting (t : SyntaxTree) (stops : NodeId → Bool) :
    (Visitor.noting stops).Acts t (fun id seen => seen.push id)
      (fun id => t.isToken id || stops id) := by
  intro node children seen
  show (if stops node then id else (t.element node).descend node children) (seen.push node) =
    if t.isToken node || stops node then seen.push node else children (seen.push node)
  cases hstop : stops node with
  | true => rw [Bool.or_true]; rfl
  | false =>
    rw [Bool.or_false]
    exact descend_element t node children (seen.push node)

theorem visited_ofRose (text : String) (r : Rose Extent) (stops : NodeId → Bool) :
    (ofRose text r).visited stops =
      ((ofRose text r).preorder (ofRose text r).root).filter
        ((ofRose text r).inReach fun id => (ofRose text r).isToken id || stops id) := by
  rw [visited, walk_ofRose text r (acts_noting _ stops)]
  simp

/-- A visitor that stops at tokens only comes to every node when no node of a token's kind has
children. -/
theorem filter_inReach_eq_preorder_iff (text : String) (r : Rose Extent) :
    ((ofRose text r).preorder (ofRose text r).root).filter
        ((ofRose text r).inReach (ofRose text r).isToken) =
      (ofRose text r).preorder (ofRose text r).root ↔
    ∀ id, (ofRose text r).isToken id → (ofRose text r).children id = [] := by
  rw [List.filter_eq_self]
  constructor
  · intro hall id hid
    by_contra hne
    obtain ⟨c, hc⟩ := List.exists_mem_of_ne_nil _ hne
    have hparent := mem_children_iff.mp hc
    have hlt := Nat.lt_trans (lt_of_parent? hparent).1 (lt_of_parent? hparent).2
    have hreach := hall c (mem_preorder_iff.mpr hlt)
    rw [inReach, climbs_ofRose text r c id hparent, List.all_cons, hid] at hreach
    cases hreach
  · intro hleaves id _
    refine List.all_eq_true.mpr fun a ha => ?_
    cases hid : (ofRose text r).isToken a with
    | false => rfl
    | true =>
      obtain ⟨c, hc⟩ := exists_parent?_of_mem_ancestors ha
      have hmem := mem_children_iff.mpr hc
      rw [hleaves a hid] at hmem
      cases hmem

end SyntaxTree

open SyntaxTree in
/-- In a tree that is built, whatever the events are, every node is met once in document order, and a
visitor comes, in this order, to the nodes with no node around them at which it stops.  One whose
methods are not replaced stops where a node is of a token's kind, whether it is a leaf or a start
event opened it, so that it comes to every node when no node of a token's kind has children. -/
theorem walk_of_build {text : String} {tokens : List Token} {events : List Event}
    {t : SyntaxTree} (h : SyntaxTree.build text tokens events = .ok t) :
    (t.preorder t.root).Perm (List.range t.size) ∧
    (∀ (σ : Type) (v : Visitor σ) (act : NodeId → σ → σ) (stops : NodeId → Bool),
      v.Acts t act stops → ∀ s, t.walk v s =
        ((t.preorder t.root).filter (t.inReach stops)).foldl (fun s id => act id s) s) ∧
    (∀ stops, t.visited stops =
      (t.preorder t.root).filter (t.inReach fun id => t.isToken id || stops id)) ∧
    (t.visited (fun _ => false) = t.preorder t.root ↔
      ∀ id, t.isToken id → t.children id = []) := by
  obtain ⟨r, rfl⟩ := exists_ofRose_of_build h
  refine ⟨preorder_perm_range text r, fun σ v act stops hv => walk_ofRose text r hv,
    visited_ofRose text r, ?_⟩
  rw [visited_ofRose, ← filter_inReach_eq_preorder_iff]
  simp only [Bool.or_false]

open SyntaxTree in
theorem walk_of_build_chained : ∃ t,
    SyntaxTree.build "a b " (lex "a b ") chainedEvents = .ok t ∧
    (t.preorder t.root).Perm (List.range t.size) ∧
    (∀ (σ : Type) (v : Visitor σ) (act : NodeId → σ → σ) (stops : NodeId → Bool),
      v.Acts t act stops → ∀ s, t.walk v s =
        ((t.preorder t.root).filter (t.inReach stops)).foldl (fun s id => act id s) s) ∧
    (∀ stops, t.visited stops =
      (t.preorder t.root).filter (t.inReach fun id => t.isToken id || stops id)) ∧
    (t.visited (fun _ => false) = t.preorder t.root ↔
      ∀ id, t.isToken id → t.children id = []) := by
  have hbuilt : (SyntaxTree.build "a b " (lex "a b ") chainedEvents).toOption.any
      (fun _ => true) = true := by
    decide +kernel
  obtain ⟨t, hbuild, -⟩ := exists_of_any_toOption hbuilt
  exact ⟨t, hbuild, walk_of_build hbuild⟩

/-- A start event opens a node of a token's kind around a leaf, and the leaf is not visited. -/
theorem visited_misses_leaf : ∃ t, SyntaxTree.build "a" (lex "a")
      [.start .file none, .start (.token .identifier) none, .token 0, .finish, .finish] = .ok t ∧
    t.preorder t.root = [2, 1, 0] ∧ t.visited (fun _ => false) = [2, 1] := by
  have hbuilt : (SyntaxTree.build "a" (lex "a")
      [.start .file none, .start (.token .identifier) none, .token 0, .finish,
        .finish]).toOption.any (fun t =>
      t.preorder t.root == [2, 1, 0] && t.visited (fun _ => false) == [2, 1]) = true := by
    decide +kernel
  obtain ⟨t, hbuild, hsome⟩ := exists_of_any_toOption hbuilt
  rw [Bool.and_eq_true, beq_iff_eq, beq_iff_eq] at hsome
  exact ⟨t, hbuild, hsome⟩

end RSource
