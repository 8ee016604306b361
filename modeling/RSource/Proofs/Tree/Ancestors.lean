import RSource.Proofs.Tree.Within

/-! The nodes around a node.  A parent has a later place than its children, so that the way from
parent to parent does not end before the root (`climbs_ofRose`); and what stands below a node has
the nodes around it around itself. -/

namespace RSource

namespace Rose

variable {α : Type}

mutual
/-- Both walks meet the same nodes. -/
theorem preorder_perm_postorder : (t : Rose α) → t.preorder.Perm t.postorder
  | .node a cs => by
    rw [preorder, postorder]
    exact ((forestPreorder_perm_postorder cs).cons a).trans (List.perm_append_singleton a _).symm

theorem forestPreorder_perm_postorder :
    (ts : List (Rose α)) → (forestPreorder ts).Perm (forestPostorder ts)
  | [] => .refl []
  | t :: ts => (preorder_perm_postorder t).append (forestPreorder_perm_postorder ts)
end

end Rose

namespace SyntaxTree

variable {text : String} {r : Rose Extent} {id p : Nat}

theorem preorder_perm_range (text : String) (r : Rose Extent) :
    ((ofRose text r).preorder (ofRose text r).root).Perm (List.range (ofRose text r).size) := by
  have hperm := (Rose.preorder_perm_postorder (number 0 r).1).map Prod.fst
  rwa [postorder_number, ← preorder_ofRose text, ← List.range_eq_range', ← size_ofRose text]
    at hperm

/-- No node is met twice. -/
theorem nodup_preorder (text : String) (r : Rose Extent) :
    ((ofRose text r).preorder (ofRose text r).root).Nodup :=
  (preorder_perm_range text r).nodup_iff.mpr List.nodup_range

theorem mem_preorder_iff :
    id ∈ (ofRose text r).preorder (ofRose text r).root ↔ id < (ofRose text r).size := by
  rw [(preorder_perm_range text r).mem_iff, List.mem_range]

/-- A parent comes later in the array. -/
theorem lt_of_parent? (h : (ofRose text r).parent? id = some p) :
    id < p ∧ p < (ofRose text r).size := by
  obtain ⟨node, hnode, -⟩ := Option.bind_eq_some_iff.mp h
  obtain ⟨m, parent, hm, rfl, hholds⟩ := exists_within (Array.getElem?_eq_some_iff.mp hnode).1
  rcases hm.eq_or_child with rfl | ⟨q, hq, hmem⟩
  · have hroot := (holds_ofRose text r).parent?_eq
    rw [h] at hroot
    cases hroot
  · obtain ⟨_, hparent⟩ := (holds_ofRose text r).within hq
    rw [(hparent.child hmem).parent?_eq] at h
    obtain rfl := Option.some.inj h
    refine ⟨?_, (Array.getElem?_eq_some_iff.mp hparent.node_eq).1⟩
    obtain ⟨l, cs⟩ := q
    exact hparent.2.1 m hmem

/-- The way up is not cut off when there is a step for every later place. -/
theorem ancestorsUpTo_succ (bound : Nat) : ∀ id, (ofRose text r).size ≤ id + bound + 1 →
    (ofRose text r).ancestorsUpTo (bound + 1) id = (ofRose text r).ancestorsUpTo bound id := by
  induction bound with
  | zero =>
    intro id hsize
    cases hparent : (ofRose text r).parent? id with
    | none => simp [ancestorsUpTo, hparent]
    | some p =>
      obtain ⟨hlt, hp⟩ := lt_of_parent? hparent
      omega
  | succ bound ih =>
    intro id hsize
    rw [ancestorsUpTo, ancestorsUpTo]
    cases hparent : (ofRose text r).parent? id with
    | none => rfl
    | some p =>
      obtain ⟨hlt, -⟩ := lt_of_parent? hparent
      simp only
      rw [ih p (by omega)]

/-- The nodes around a node are its parent and those around its parent. -/
def Climbs (t : SyntaxTree) : Prop :=
  ∀ id p, t.parent? id = some p → t.ancestors id = p :: t.ancestors p

theorem climbs_ofRose (text : String) (r : Rose Extent) : (ofRose text r).Climbs := by
  intro id p h
  obtain ⟨hlt, hp⟩ := lt_of_parent? h
  obtain ⟨bound, hbound⟩ := Nat.exists_eq_add_of_lt (Nat.zero_lt_of_lt hp)
  rw [Nat.zero_add] at hbound
  rw [ancestors, ancestors, hbound, ancestorsUpTo, h, ancestorsUpTo_succ bound p (by omega)]

theorem ancestors_eq_nil {t : SyntaxTree} (h : t.parent? id = none) : t.ancestors id = [] := by
  rw [ancestors]
  cases t.size with
  | zero => rfl
  | succ bound => rw [ancestorsUpTo, h]

/-- The nodes around a node are parents. -/
theorem exists_parent?_of_mem_ancestors {t : SyntaxTree} {a : NodeId} (h : a ∈ t.ancestors id) :
    ∃ c, t.parent? c = some a := by
  obtain ⟨bound, hbound⟩ : ∃ bound, a ∈ t.ancestorsUpTo bound id := ⟨_, h⟩
  clear h
  induction bound generalizing id with
  | zero => cases hbound
  | succ bound ih =>
    rw [ancestorsUpTo] at hbound
    cases hparent : t.parent? id with
    | none =>
      rw [hparent] at hbound
      cases hbound
    | some p =>
      rw [hparent] at hbound
      rcases List.mem_cons.mp hbound with rfl | hbound
      · exact ⟨id, hparent⟩
      · exact ih hbound

/-- Every node around a node is one of the tree. -/
theorem mem_preorder_of_mem_ancestors {a : NodeId} (h : a ∈ (ofRose text r).ancestors id) :
    a ∈ (ofRose text r).preorder (ofRose text r).root := by
  obtain ⟨c, hc⟩ := exists_parent?_of_mem_ancestors h
  exact mem_preorder_iff.mpr (lt_of_parent? hc).2

/-- The children of a node are those that name it as their parent. -/
theorem mem_children_iff :
    id ∈ (ofRose text r).children p ↔ (ofRose text r).parent? id = some p := by
  refine ⟨parent?_of_mem_children, fun h => ?_⟩
  obtain ⟨hlt, hp⟩ := lt_of_parent? h
  have hroot : id ≠ (ofRose text r).root := by
    rintro rfl
    rw [root_ofRose, (holds_ofRose text r).parent?_eq] at h
    cases h
  obtain ⟨p', hparent, hmem⟩ := exists_parent (Nat.lt_trans hlt hp) hroot
  exact Option.some.inj (hparent.symm.trans h) ▸ hmem

variable {t : SyntaxTree}

mutual
/-- What is around a node is around every node below it. -/
theorem Climbs.suffix (ht : t.Climbs) {parent : Option NodeId} :
    (m : Rose (NodeId × Extent)) → t.Holds parent m → ∀ q ∈ m.preorder,
      t.ancestors m.label.1 <:+ t.ancestors q.1
  | .node (id, e) cs, h, q, hq => by
    rcases List.mem_cons.mp hq with rfl | hq
    · exact List.suffix_rfl
    · exact (List.suffix_cons _ _).trans (Climbs.suffix_forest ht cs h.2.2 q hq)

theorem Climbs.suffix_forest (ht : t.Climbs) {parent : NodeId} :
    (ms : List (Rose (NodeId × Extent))) → t.ForestHolds parent ms →
      ∀ q ∈ Rose.forestPreorder ms, parent :: t.ancestors parent <:+ t.ancestors q.1
  | [], _, q, hq => by cases hq
  | m :: ms, h, q, hq => by
    rcases List.mem_append.mp hq with hq | hq
    · rw [← ht m.label.1 parent h.1.parent?_eq]
      exact Climbs.suffix ht m h.1 q hq
    · exact Climbs.suffix_forest ht ms h.2 q hq
end

end SyntaxTree

end RSource
