import RSource.Proofs.Tree.Moved

/-! Nodes as subtrees.  Every number of a numbered tree is the label of one subtree, and the array of
nodes holds each subtree as it holds the tree. -/

namespace RSource

namespace Rose

variable {α β : Type} {a : α} {s t : Rose α} {ts : List (Rose α)}

mutual
/-- The labels, each after those of its children. -/
def postorder : Rose α → List α
  | .node a cs => forestPostorder cs ++ [a]

/-- The labels of a list of trees, tree by tree. -/
def forestPostorder : List (Rose α) → List α
  | [] => []
  | t :: ts => t.postorder ++ forestPostorder ts
end

mutual
theorem postorder_map (f : α → β) : (t : Rose α) → (t.map f).postorder = t.postorder.map f
  | .node _ cs => by simp [map, postorder, forestPostorder_map f cs]

theorem forestPostorder_map (f : α → β) :
    (ts : List (Rose α)) → forestPostorder (forestMap f ts) = (forestPostorder ts).map f
  | [] => rfl
  | t :: ts => by simp [forestMap, forestPostorder, postorder_map f t, forestPostorder_map f ts]
end

/-- The first tree is the second or stands in it. -/
inductive Within : Rose α → Rose α → Prop
  | refl (t : Rose α) : Within t t
  | child {s c : Rose α} {a : α} {cs : List (Rose α)} (hc : c ∈ cs) (h : Within s c) :
      Within s (.node a cs)

theorem Within.eq_or_child (h : Within s t) : s = t ∨ ∃ p, Within p t ∧ s ∈ p.children := by
  induction h with
  | refl => exact .inl rfl
  | child hc h ih =>
    rcases ih with rfl | ⟨p, hp, hs⟩
    · exact .inr ⟨_, .refl _, hc⟩
    · exact .inr ⟨p, .child hc hp, hs⟩

theorem postorder_sublist_of_mem (h : t ∈ ts) : t.postorder.Sublist (forestPostorder ts) := by
  induction ts with
  | nil => cases h
  | cons u ts ih =>
    rcases List.mem_cons.mp h with rfl | h
    · exact List.sublist_append_left _ _
    · exact (ih h).trans (List.sublist_append_right _ _)

theorem Within.postorder_sublist (h : Within s t) : s.postorder.Sublist t.postorder := by
  induction h with
  | refl => exact .refl _
  | child hc h ih =>
    exact (ih.trans (postorder_sublist_of_mem hc)).trans (List.sublist_append_left _ _)

mutual
theorem exists_within_of_mem : (t : Rose α) → a ∈ t.postorder → ∃ s, Within s t ∧ s.label = a
  | .node b cs, h => by
    rcases List.mem_append.mp h with h | h
    · obtain ⟨c, hc, s, hs, hlabel⟩ := exists_within_of_mem_forest cs h
      exact ⟨s, .child hc hs, hlabel⟩
    · exact ⟨_, .refl _, (List.mem_singleton.mp h).symm⟩

theorem exists_within_of_mem_forest : (ts : List (Rose α)) → a ∈ forestPostorder ts →
    ∃ t ∈ ts, ∃ s, Within s t ∧ s.label = a
  | [], h => by cases h
  | t :: ts, h => by
    rcases List.mem_append.mp h with h | h
    · exact ⟨t, List.mem_cons_self, exists_within_of_mem t h⟩
    · obtain ⟨u, hu, hs⟩ := exists_within_of_mem_forest ts h
      exact ⟨u, List.mem_cons_of_mem _ hu, hs⟩
end

theorem labels_sublist (ts : List (Rose α)) :
    (ts.map Rose.label).Sublist (forestPostorder ts) := by
  induction ts with
  | nil => exact .slnil
  | cons t ts ih =>
    cases t with
    | node a cs =>
      have hlast : [a].Sublist (forestPostorder cs ++ [a]) := List.sublist_append_right _ _
      exact hlast.append ih

end Rose

namespace SyntaxTree

open Rose (Within forestPostorder)

mutual
/-- The numbers stand in postorder. -/
theorem postorder_number (first : NodeId) : (r : Rose Extent) →
    (number first r).1.postorder.map (·.1) = List.range' first r.size
  | .node e cs => by
    rw [number_node, Rose.postorder, List.map_append, forestPostorder_numberAll first cs,
      numberAll_next, Rose.size, List.range'_concat]
    simp

theorem forestPostorder_numberAll (first : NodeId) : (rs : List (Rose Extent)) →
    (forestPostorder (numberAll first rs).1).map (·.1) = List.range' first (Rose.forestSize rs)
  | [] => rfl
  | r :: rs => by
    rw [numberAll_cons, forestPostorder, List.map_append, postorder_number first r,
      forestPostorder_numberAll _ rs, number_next, Rose.forestSize, List.range'_append_1]
end

variable {t : SyntaxTree} {parent : Option NodeId} {m n : Rose (NodeId × Extent)}

theorem ForestHolds.of_mem {parent : NodeId} {ns : List (Rose (NodeId × Extent))}
    (h : t.ForestHolds parent ns) (hn : n ∈ ns) : t.Holds (some parent) n := by
  induction ns with
  | nil => cases hn
  | cons k ns ih =>
    rcases List.mem_cons.mp hn with rfl | hn
    · exact h.1
    · exact ih h.2 hn

theorem Holds.within (h : t.Holds parent n) (hm : Within m n) : ∃ parent', t.Holds parent' m := by
  induction hm generalizing parent with
  | refl => exact ⟨parent, h⟩
  | @child c p cs hc hs ih => exact ih (h.2.2.of_mem hc)

theorem Holds.node_eq (h : t.Holds parent m) :
    t.nodes[m.label.1]? = some ⟨m.label.2.kind, m.label.2.span, parent,
      m.children.map (·.label.1)⟩ := by
  cases m with
  | node p cs => exact h.1

theorem Holds.child (h : t.Holds parent m) (hn : n ∈ m.children) :
    t.Holds (some m.label.1) n := by
  cases m with
  | node p cs => exact h.2.2.of_mem hn

theorem Holds.children_eq (h : t.Holds parent m) :
    t.children m.label.1 = m.children.map (·.label.1) := by
  rw [children, h.node_eq]
  rfl

theorem Holds.span_eq (h : t.Holds parent m) : t.span m.label.1 = m.label.2.span := by
  rw [span, h.node_eq]
  rfl

theorem Holds.parent?_eq (h : t.Holds parent m) : t.parent? m.label.1 = parent := by
  rw [parent?, h.node_eq]
  rfl

theorem Holds.kind?_eq (h : t.Holds parent m) : t.kind? m.label.1 = some m.label.2.kind := by
  rw [kind?, h.node_eq]
  rfl

theorem Holds.map_span_children (h : t.Holds parent m) :
    (t.children m.label.1).map t.span = m.children.map (·.label.2.span) := by
  rw [h.children_eq, List.map_map]
  exact List.map_congr_left fun n hn => (h.child hn).span_eq

/-- Every node of a built tree is a subtree of the numbered tree. -/
theorem exists_within {text : String} {r : Rose Extent} {id : NodeId}
    (hid : id < (ofRose text r).size) :
    ∃ m parent, Within m (number 0 r).1 ∧ m.label.1 = id ∧ (ofRose text r).Holds parent m := by
  have hmem : id ∈ (number 0 r).1.postorder.map (·.1) := by
    rw [postorder_number, ← List.range_eq_range', List.mem_range, ← size_ofRose text]
    exact hid
  obtain ⟨p, hp, rfl⟩ := List.mem_map.mp hmem
  obtain ⟨m, hm, rfl⟩ := Rose.exists_within_of_mem _ hp
  obtain ⟨parent, hparent⟩ := (holds_ofRose text r).within hm
  exact ⟨m, parent, hm, rfl, hparent⟩

theorem lt_size_of_isToken {id : NodeId} (h : t.isToken id = true) : id < t.size := by
  by_contra hid
  rw [isToken, tokenKind?, kind?, Array.getElem?_eq_none (Nat.le_of_not_lt hid)] at h
  cases h

theorem children_eq_nil_of_le {id : NodeId} (h : t.size ≤ id) : t.children id = [] := by
  have hnone : t.nodes[id]? = none := by simpa [size] using h
  rw [children, hnone]
  rfl

/-- A child names its parent. -/
theorem parent?_of_mem_children {text : String} {r : Rose Extent} {id c : NodeId}
    (hc : c ∈ (ofRose text r).children id) : (ofRose text r).parent? c = some id := by
  have hid : id < (ofRose text r).size := by
    by_contra h
    rw [children_eq_nil_of_le (Nat.le_of_not_lt h)] at hc
    cases hc
  obtain ⟨m, parent, -, rfl, hholds⟩ := exists_within hid
  rw [hholds.children_eq] at hc
  obtain ⟨n, hn, rfl⟩ := List.mem_map.mp hc
  exact (hholds.child hn).parent?_eq

theorem nodup_children {text : String} {r : Rose Extent} (id : NodeId) :
    ((ofRose text r).children id).Nodup := by
  by_cases hid : id < (ofRose text r).size
  · obtain ⟨m, parent, hm, rfl, hholds⟩ := exists_within hid
    have hsub : (m.children.map Rose.label).Sublist m.postorder := by
      cases m with
      | node p cs => exact (Rose.labels_sublist cs).trans (List.sublist_append_left _ _)
    have hall := (hsub.trans hm.postorder_sublist).map Prod.fst
    rw [List.map_map, postorder_number] at hall
    rw [hholds.children_eq]
    exact List.Nodup.sublist hall (List.nodup_range' ..)
  · rw [children_eq_nil_of_le (Nat.le_of_not_lt hid)]
    exact List.nodup_nil

theorem nodup_children_of_build {text : String} {tokens : List Token} {events : List Event}
    (h : build text tokens events = .ok t) (id : NodeId) : (t.children id).Nodup := by
  obtain ⟨r, rfl⟩ := exists_ofRose_of_build h
  exact nodup_children id

/-- Every node but the root is a child. -/
theorem exists_parent {text : String} {r : Rose Extent} {id : NodeId}
    (hid : id < (ofRose text r).size) (hroot : id ≠ (ofRose text r).root) :
    ∃ parent, (ofRose text r).parent? id = some parent ∧
      id ∈ (ofRose text r).children parent := by
  obtain ⟨m, -, hm, rfl, -⟩ := exists_within hid
  rcases hm.eq_or_child with rfl | ⟨p, hp, hmem⟩
  · exact absurd (root_ofRose text r).symm hroot
  · obtain ⟨_, hholds⟩ := (holds_ofRose text r).within hp
    refine ⟨p.label.1, (hholds.child hmem).parent?_eq, ?_⟩
    rw [hholds.children_eq]
    exact List.mem_map_of_mem hmem

end SyntaxTree

end RSource
