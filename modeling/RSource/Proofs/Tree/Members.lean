import Mathlib.Data.List.Forall2
import RSource.Proofs.Tree.Rows

/-! The members of a row as nodes of a tree.  Layout stands before each of them, but what asks for
no leaf finds only the members. -/

namespace RSource

variable {tokens : List Token} {os : List Outline} {o : Outline} {t : SyntaxTree}
variable {parent : Option NodeId} {m : Rose (NodeId × Extent)} {ms : List (Rose (NodeId × Extent))}
variable {kind : NodeKind}

theorem SyntaxTree.isKind_of_leaf {id : NodeId} {k : TokenKind} (h : t.kind? id = some (.token k))
    (hkind : kind.tokenKind? = none) : t.isKind kind id = false := by
  rw [isKind, h, decide_eq_false_iff_not, Option.some.injEq]
  rintro rfl
  cases hkind

namespace Builder

/-- A leaf has the kind of its token and nothing below. -/
theorem exists_leaf_of_map {x : Token} (hm : t.Holds parent m) (h : m.map (·.2) = leaf x) :
    t.kind? m.label.1 = some (.token x.kind) ∧ m = .node m.label [] := by
  obtain ⟨⟨id, e⟩, cs⟩ := m
  obtain ⟨rfl, hcs⟩ := Rose.node.inj h
  rw [Rose.forestMap_eq_map, List.map_eq_nil_iff] at hcs
  subst hcs
  exact ⟨hm.kind?_eq, rfl⟩

theorem Dressed.kind?_eq (h : Dressed tokens (.node kind os) (m.map (·.2)))
    (hm : t.Holds parent m) : t.kind? m.label.1 = some kind := by
  generalize htree : m.map (·.2) = tree at h
  cases h with
  | node =>
    have hlabel := congrArg Rose.label htree
    rw [Rose.label_map] at hlabel
    rw [hm.kind?_eq, hlabel]
    rfl

theorem Dressed.isKind_eq (h : Dressed tokens o (m.map (·.2))) (hm : t.Holds parent m)
    (hkind : kind.tokenKind? = none) :
    t.isKind kind m.label.1 = decide (o.kind? = some kind) := by
  cases o with
  | token i =>
    generalize htree : m.map (·.2) = tree at h
    cases h with
    | token hget => exact SyntaxTree.isKind_of_leaf (exists_leaf_of_map hm htree).1 hkind
  | node k os =>
    rw [SyntaxTree.isKind, h.kind?_eq hm]
    rfl

theorem Dressed.forest (h : Dressed tokens (.node kind os) (m.map (·.2))) :
    ForestDressed tokens os (Rose.forestMap (·.2) m.children) := by
  obtain ⟨p, cs⟩ := m
  generalize htree : (Rose.node p cs).map (·.2) = tree at h
  cases h with
  | node hrow => rwa [← (Rose.node.inj htree).2] at hrow

theorem ForestDressed.eq_nil (h : ForestDressed tokens [] (Rose.forestMap (·.2) ms)) : ms = [] := by
  rw [Rose.forestMap_eq_map] at h
  generalize htrees : ms.map (Rose.map (·.2)) = trees at h
  cases h
  exact List.map_eq_nil_iff.mp htrees

/-- The first member of a row stands behind leaves of layout. -/
theorem ForestDressed.exists_split
    (h : ForestDressed tokens (o :: os) (Rose.forestMap (·.2) ms)) :
    ∃ layout m rest, ms = layout ++ m :: rest ∧
      (∀ l ∈ layout, ∃ x : Token, x.kind.isLayout = true ∧ l.map (·.2) = leaf x) ∧
      Dressed tokens o (m.map (·.2)) ∧ ForestDressed tokens os (Rose.forestMap (·.2) rest) := by
  rw [Rose.forestMap_eq_map] at h
  generalize htrees : ms.map (Rose.map (·.2)) = trees at h
  cases h with
  | @cons layout _ _ tree trees hlayout ho hos =>
    obtain ⟨front, back, rfl, hfront, hback⟩ := List.map_eq_append_iff.mp htrees
    obtain ⟨m, rest, rfl, rfl, rfl⟩ := List.map_eq_cons_iff.mp hback
    refine ⟨front, m, rest, rfl, fun l hl => ?_, ho, by rwa [Rose.forestMap_eq_map]⟩
    have hmem := List.mem_map_of_mem (f := Rose.map (·.2)) hl
    rw [hfront] at hmem
    obtain ⟨x, hx, hleaf⟩ := List.mem_map.mp hmem
    exact ⟨x, hlayout x hx, hleaf.symm⟩

/-- The children that satisfy a property of no leaf are those of the members that do. -/
theorem ForestDressed.exists_members (h : ForestDressed tokens os (Rose.forestMap (·.2) ms))
    (hms : ∀ m ∈ ms, t.Holds parent m) :
    ∃ ns, List.Forall₂ (fun o n => Dressed tokens o (n.map (·.2)) ∧ t.Holds parent n) os ns ∧
      ∀ q : NodeId → Bool, (∀ id k, t.kind? id = some (.token k) → q id = false) →
        (ms.map (·.label.1)).filter q = (ns.map (·.label.1)).filter q := by
  induction os generalizing ms with
  | nil =>
    rw [h.eq_nil]
    exact ⟨[], .nil, fun _ _ => rfl⟩
  | cons o os ih =>
    obtain ⟨layout, m, rest, rfl, hlayout, hm, hrest⟩ := h.exists_split
    obtain ⟨ns, hns, hfilter⟩ := ih hrest fun n hn => hms n (by simp [hn])
    refine ⟨m :: ns, .cons ⟨hm, hms m (by simp)⟩ hns, fun q hq => ?_⟩
    -- Layout is made of leaves, and these the property leaves out.
    have hleaves : (layout.map (·.label.1)).filter q = [] := by
      refine List.filter_eq_nil_iff.mpr fun id hid => ?_
      obtain ⟨l, hl, rfl⟩ := List.mem_map.mp hid
      obtain ⟨x, -, hx⟩ := hlayout l hl
      have hleaf := (exists_leaf_of_map (hms l (List.mem_append_left _ hl)) hx).1
      rw [hq _ _ hleaf]
      exact Bool.false_ne_true
    rw [List.map_append, List.filter_append, hleaves, List.nil_append, List.map_cons,
      List.map_cons, List.filter_cons, List.filter_cons, hfilter q hq]

theorem ForestDressed.exists_mem {trees : List (Rose Extent)} (h : ForestDressed tokens os trees)
    (ho : o ∈ os) : ∃ tree ∈ trees, Dressed tokens o tree := by
  induction os generalizing trees with
  | nil => cases ho
  | cons p os ih =>
    cases h with
    | cons hlayout hp hos =>
      rcases List.mem_cons.mp ho with rfl | ho
      · exact ⟨_, List.mem_append_right _ List.mem_cons_self, hp⟩
      · obtain ⟨tree, htree, hdressed⟩ := ih hos ho
        exact ⟨tree, List.mem_append_right _ (List.mem_cons_of_mem _ htree), hdressed⟩

theorem Dressed.exists_child (h : Dressed tokens (.node kind os) (m.map (·.2)))
    (hm : t.Holds parent m) (ho : o ∈ os) :
    ∃ n, t.Holds (some m.label.1) n ∧ Dressed tokens o (n.map (·.2)) := by
  obtain ⟨tree, htree, ho⟩ := h.forest.exists_mem ho
  rw [Rose.forestMap_eq_map] at htree
  obtain ⟨n, hn, rfl⟩ := List.mem_map.mp htree
  exact ⟨n, hm.child hn, ho⟩

/-- The first member of a kind is found among the children. -/
theorem Dressed.childOfKind?_eq (other : NodeKind) (os : List Outline) {os' : List Outline}
    (h : Dressed tokens (.node kind (os ++ o :: os')) (m.map (·.2))) (hm : t.Holds parent m)
    (hkind : other.tokenKind? = none) (hos : ∀ p ∈ os, p.kind? ≠ some other)
    (ho : o.kind? = some other) :
    ∃ n, t.childOfKind? m.label.1 other = some n.label.1 ∧ t.Holds (some m.label.1) n ∧
      Dressed tokens o (n.map (·.2)) := by
  obtain ⟨ns, hns, hfilter⟩ := h.forest.exists_members fun n => hm.child
  rw [SyntaxTree.childOfKind?, ← List.head?_filter, hm.children_eq,
    hfilter _ fun id k hid => SyntaxTree.isKind_of_leaf hid hkind]
  clear h hfilter
  induction os generalizing ns with
  | nil =>
    cases hns with
    | @cons _ n _ _ hn _ =>
      have hhere : t.isKind other n.label.1 = true := by
        rw [hn.1.isKind_eq hn.2 hkind, ho, decide_eq_true rfl]
      exact ⟨n, by rw [List.map_cons, List.filter_cons_of_pos hhere, List.head?_cons], hn.2, hn.1⟩
  | cons p os ih =>
    cases hns with
    | @cons _ n _ ns hn hns =>
      have hnot : ¬ t.isKind other n.label.1 = true := by
        rw [hn.1.isKind_eq hn.2 hkind, decide_eq_true_eq]
        exact hos p List.mem_cons_self
      rw [List.map_cons, List.filter_cons_of_neg hnot]
      exact ih (fun q hq => hos q (List.mem_cons_of_mem _ hq)) ns hns

end Builder

/-- The root of a built tree has the row of the outline below it, and behind this only leaves. -/
theorem SyntaxTree.exists_root {text : String} {more : List Nat} (hos : Outline.ForestPlain os)
    (h : significant 0 tokens = Outline.forestTokens os ++ more)
    (hbuild : build text tokens (Outline.node kind os).events = .ok t) :
    ∃ id e ms leaves, t.Holds none (.node (id, e) (ms ++ leaves)) ∧ e.kind = kind ∧
      t.shape = (Rose.node (id, e) (ms ++ leaves)).map (·.1) ∧
      Builder.ForestDressed tokens os (Rose.forestMap (·.2) ms) ∧
      ∀ m ∈ leaves, ∃ x, m.map (·.2) = Builder.leaf x := by
  obtain ⟨span, trees, rest, hbuild', -, -, -, hdressed⟩ := build_events text kind hos h
  obtain rfl := Except.ok.inj (hbuild.symm.trans hbuild')
  generalize hlayout : (rest.takeWhile (·.kind ≠ .endOfFile)).map Builder.leaf = layout
  have hextents := forestMap_numberAll 0 (trees ++ layout)
  rw [Rose.forestMap_eq_map] at hextents
  obtain ⟨ms, leaves, hms, hrow, hleaves⟩ := List.map_eq_append_iff.mp hextents
  rw [← Rose.forestMap_eq_map] at hrow
  have hholds := holds_ofRose text (.node ⟨kind, span⟩ (trees ++ layout))
  have hshape := shape_ofRose text (.node ⟨kind, span⟩ (trees ++ layout))
  rw [number_node, hms] at hholds hshape
  refine ⟨_, _, ms, leaves, hholds, rfl, hshape, hrow ▸ hdressed, fun m hm => ?_⟩
  have hmem := List.mem_map_of_mem (f := Rose.map (·.2)) hm
  rw [hleaves, ← hlayout] at hmem
  obtain ⟨x, -, hx⟩ := List.mem_map.mp hmem
  exact ⟨x, hx.symm⟩

/-- What stands in the outline of a tree stands in the tree. -/
theorem SyntaxTree.exists_dressed {text : String} {more : List Nat} (hos : Outline.ForestPlain os)
    (h : significant 0 tokens = Outline.forestTokens os ++ more)
    (hbuild : build text tokens (Outline.node kind os).events = .ok t) (ho : o ∈ os) :
    ∃ m parent, t.Holds parent m ∧ Builder.Dressed tokens o (m.map (·.2)) := by
  obtain ⟨id, e, ms, leaves, hholds, -, -, hdressed, -⟩ := exists_root hos h hbuild
  obtain ⟨tree, htree, ho⟩ := hdressed.exists_mem ho
  rw [Rose.forestMap_eq_map] at htree
  obtain ⟨m, hm, rfl⟩ := List.mem_map.mp htree
  exact ⟨m, _, hholds.child (List.mem_append_left _ hm), ho⟩

end RSource
