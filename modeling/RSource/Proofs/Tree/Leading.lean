import RSource.Proofs.Tree.Significant

/-! The layout at the start of a source.  It stands in leaves before the first statement, one for
every token, since a statement does not begin with layout. -/

namespace RSource

open Builder (Dressed ForestDressed leaf leavesOf leavesOf_append leavesOf_leaves leavesOf_node)

variable {tokens : List Token} {os : List Outline} {trees : List (Rose Extent)}

namespace Builder

mutual
/-- A tree has leaves where its outline has tokens. -/
theorem Dressed.leavesOf_ne_nil : (o : Outline) → {tree : Rose Extent} → Dressed tokens o tree →
    o.Plain → o.tokens ≠ [] → leavesOf [tree] ≠ []
  | .token _, _, .token _, _, _ => by
    rw [← List.map_singleton, leavesOf_leaves]
    exact List.cons_ne_nil _ _
  | .node _ os, _, .node hrow _, hplain, htokens => by
    rw [leavesOf_node hplain.1]
    exact ForestDressed.leavesOf_ne_nil os hrow hplain.2 htokens

theorem ForestDressed.leavesOf_ne_nil : (os : List Outline) → {trees : List (Rose Extent)} →
    ForestDressed tokens os trees → Outline.ForestPlain os → Outline.forestTokens os ≠ [] →
      leavesOf trees ≠ []
  | [], _, _, _, htokens => absurd rfl htokens
  | o :: os, _, @ForestDressed.cons _ _ _ _ tree trees _ ho hos, hplain, htokens => by
    rw [leavesOf_append, ← List.singleton_append, leavesOf_append]
    intro hnil
    obtain ⟨-, hnil⟩ := List.append_eq_nil_iff.mp hnil
    obtain ⟨htree, htrees⟩ := List.append_eq_nil_iff.mp hnil
    rw [Outline.forestTokens] at htokens
    by_cases hempty : o.tokens = []
    · rw [hempty, List.nil_append] at htokens
      exact ForestDressed.leavesOf_ne_nil os hos hplain.2 htokens htrees
    · exact Dressed.leavesOf_ne_nil o ho hplain.1 hempty htree
end

/-- A tree whose outline has tokens begins with one that is no layout. -/
theorem Dressed.exists_leaf {kind : NodeKind} {tree : Rose Extent}
    (h : Dressed tokens (.node kind os) tree) (hplain : (Outline.node kind os).Plain)
    (htokens : Outline.forestTokens os ≠ []) :
    ∃ x xs, leavesOf [tree] = x :: xs ∧ x.kind.isLayout = false := by
  obtain ⟨x, xs, hleaves⟩ := List.exists_cons_of_ne_nil (h.leavesOf_ne_nil _ hplain htokens)
  refine ⟨x, xs, hleaves, ?_⟩
  cases h with
  | node hrow hfirst =>
    rw [leavesOf_node hplain.1] at hleaves
    exact hfirst x (by rw [hleaves]; rfl)

/-- Where a tree begins with no layout, the layout before it is the leaves before it. -/
theorem takeWhile_leavesOf {layout xs : List Token} {tree : Rose Extent} {x : Token}
    (hlayout : ∀ t ∈ layout, t.kind.isLayout = true) (hleaves : leavesOf [tree] = x :: xs)
    (hx : x.kind.isLayout = false) (trees : List (Rose Extent)) (rest : List Token) :
    (leavesOf (layout.map leaf ++ tree :: trees) ++ rest).takeWhile (·.kind.isLayout) =
      layout := by
  rw [leavesOf_append, leavesOf_leaves, ← List.singleton_append, leavesOf_append, hleaves,
    List.append_assoc, List.takeWhile_append_of_pos hlayout]
  simp [hx]

end Builder

namespace SyntaxTree

variable {t : SyntaxTree}

/-- The nodes are leaves with these tokens. -/
def Leaves (t : SyntaxTree) (ids : List NodeId) (toks : List Token) : Prop :=
  List.Forall₂ (fun id x => t.kind? id = some (.token x.kind) ∧ t.span id = x.span) ids toks

theorem Leaves.isLayout {ids : List NodeId} {toks : List Token} (h : t.Leaves ids toks)
    (hlayout : ∀ x ∈ toks, x.kind.isLayout = true) : ∀ id ∈ ids, t.isLayout id = true := by
  induction h with
  | nil => exact List.forall_mem_nil _
  | cons hid _ ih =>
    obtain ⟨hx, hxs⟩ := List.forall_mem_cons.mp hlayout
    refine List.forall_mem_cons.mpr ⟨?_, ih hxs⟩
    rw [SyntaxTree.isLayout, hid.1]
    exact hx

theorem Leaves.map_tokenKind? {ids : List NodeId} {toks : List Token} (h : t.Leaves ids toks) :
    ids.map t.tokenKind? = toks.map fun x => some x.kind := by
  induction h with
  | nil => rfl
  | cons hid _ ih =>
    rw [List.map_cons, List.map_cons, ih, tokenKind?, hid.1]
    rfl

theorem Leaves.map_textOf {ids : List NodeId} {toks : List Token} (h : t.Leaves ids toks) :
    ids.map t.textOf = toks.map fun x => x.text t.text := by
  induction h with
  | nil => rfl
  | cons hid _ ih =>
    rw [List.map_cons, List.map_cons, ih, textOf, hid.2]
    rfl

theorem leaves_of_map {parent : Option NodeId} {ms : List (Rose (NodeId × Extent))}
    {toks : List Token} (hms : ∀ m ∈ ms, t.Holds parent m)
    (h : ms.map (Rose.map (·.2)) = toks.map leaf) : t.Leaves (ms.map (·.label.1)) toks := by
  induction ms generalizing toks with
  | nil =>
    obtain rfl := List.map_eq_nil_iff.mp h.symm
    exact .nil
  | cons m ms ih =>
    obtain ⟨x, xs, rfl, hx, hxs⟩ := List.map_eq_cons_iff.mp h.symm
    obtain ⟨hm, hms⟩ := List.forall_mem_cons.mp hms
    have hlabel := congrArg Rose.label hx.symm
    rw [Rose.label_map] at hlabel
    refine .cons ⟨?_, ?_⟩ (ih hms hxs.symm)
    · rw [hm.kind?_eq, hlabel]
      rfl
    · rw [hm.span_eq, hlabel]
      rfl

/-- Nodes that begin with layout are leaves up to the first tree behind it. -/
theorem exists_front {parent : Option NodeId} {ms : List (Rose (NodeId × Extent))}
    {layout : List Token} {tree : Rose Extent} (hms : ∀ m ∈ ms, t.Holds parent m)
    (h : ms.map (Rose.map (·.2)) = layout.map leaf ++ tree :: trees) :
    ∃ ids m others, ms.map (·.label.1) = ids ++ m.label.1 :: others ∧ t.Leaves ids layout ∧
      t.Holds parent m ∧ m.map (·.2) = tree := by
  obtain ⟨front, back, rfl, hfront, hback⟩ := List.map_eq_append_iff.mp h
  obtain ⟨m, others, rfl, hm, -⟩ := List.map_eq_cons_iff.mp hback
  refine ⟨front.map (·.label.1), m, others.map (·.label.1), ?_, ?_, hms m (by simp), hm⟩
  · rw [List.map_append, List.map_cons]
  · exact leaves_of_map (fun n hn => hms n (List.mem_append_left _ hn)) hfront

/-- What is shown of a row that begins with layout begins behind it. -/
theorem Leaves.head?_filter {ids : List NodeId} {layout : List Token} {n : NodeId}
    (h : t.Leaves ids layout) (hlayout : ∀ x ∈ layout, x.kind.isLayout = true)
    (hn : t.isLayout n = false) (others : List NodeId) :
    ((ids ++ n :: others).filter fun c => !t.isLayout c).head? = some n := by
  have hskipped : ids.filter (fun c => !t.isLayout c) = [] :=
    List.filter_eq_nil_iff.mpr fun id hid => by
      rw [h.isLayout hlayout id hid]
      exact Bool.false_ne_true
  rw [List.filter_append, hskipped, List.nil_append,
    List.filter_cons_of_pos (p := fun c => !t.isLayout c) (by rw [hn]; rfl), List.head?_cons]

/-- Before the first node of a row that is no layout stand leaves, one for every token of layout, if
the node begins with a token that is none. -/
theorem exists_leading {parent : Option NodeId} {ms : List (Rose (NodeId × Extent))}
    {last rest : List Token} {statement : NodeId} {kind : NodeKind}
    (hms : ∀ m ∈ ms, t.Holds parent m)
    (hextents : ms.map (Rose.map (·.2)) = trees ++ last.map leaf)
    (htokens : tokens = leavesOf trees ++ rest) (hdressed : ForestDressed tokens os trees)
    (hos : ∀ o ∈ os, o.Seen tokens ∧ o.Derived tokens .lenient)
    (hfirst : ((ms.map (·.label.1)).filter fun c => !t.isLayout c).head? = some statement)
    (hkind : t.kind? statement = some kind) (hexpression : kind.isExpression = true)
    (hempty : kind ≠ .emptyExpression) :
    ∃ ids others, ms.map (·.label.1) = ids ++ statement :: others ∧
      t.Leaves ids (tokens.takeWhile (·.kind.isLayout)) := by
  cases hdressed with
  | nil =>
    -- Without an outline there are only leaves, and a leaf is no expression.
    have hmem := List.mem_filter.mp (List.mem_of_mem_head? hfirst)
    obtain ⟨m, hm, rfl⟩ := List.mem_map.mp hmem.1
    obtain ⟨x, -, hx⟩ := List.mem_map.mp (hextents ▸ List.mem_map_of_mem hm)
    rw [(Builder.exists_leaf_of_map (hms m hm) hx.symm).1] at hkind
    obtain rfl := Option.some.inj hkind
    cases hexpression
  | @cons layout o os tree trees hlayout ho _ =>
    rw [List.append_assoc, List.cons_append] at hextents
    obtain ⟨ids, m, others, hrow, hids, hm, rfl⟩ := exists_front hms hextents
    obtain ⟨hseen, hderived⟩ := hos o List.mem_cons_self
    rw [hrow, hids.head?_filter hlayout (ho.not_layout hm hseen)] at hfirst
    obtain rfl := Option.some.inj hfirst
    have hstatement := (ho.kindAmong_eq hm).trans hkind
    refine ⟨ids, others, hrow, ?_⟩
    cases o with
    | token i =>
      rw [Outline.kindAmong, Option.map_eq_some_iff] at hstatement
      obtain ⟨x, -, rfl⟩ := hstatement
      cases hexpression
    | node k ps =>
      obtain rfl := Option.some.inj hstatement
      obtain ⟨x, xs, hleaves, hx⟩ := ho.exists_leaf hseen.1
        (Production.hasToken_children hexpression hempty ps hderived.1)
      rwa [htokens, Builder.takeWhile_leavesOf hlayout hleaves hx]

/-- The siblings before a node, where the row of its parent's children is known. -/
theorem siblingsBefore_eq {parent n : NodeId} {ids others : List NodeId}
    (hparent : t.parent? n = some parent) (hchildren : t.children parent = ids ++ n :: others)
    (hn : n ∉ ids) : t.siblingsBefore n = ids.reverse := by
  have hnone : ids.findIdx? (· == n) = none := by
    rw [List.findIdx?_eq_none_iff]
    intro id hid
    exact beq_false_of_ne fun heq => hn (heq ▸ hid)
  have hindex : t.indexInParent? n = some ids.length := by
    simp [indexInParent?, hparent, hchildren, List.idxOf?, List.findIdx?_append,
      List.findIdx?_cons, hnone]
  simp only [siblingsBefore, hparent, hindex, hchildren, List.take_left]

end SyntaxTree

/-- Before the first statement of a source stand leaves, one for every token of layout. -/
theorem Grammar.Found.exists_leading {text : String} {more : List Nat} {t : SyntaxTree}
    {statement : NodeId} {kind : NodeKind} (h : Grammar.Found tokens os more)
    (hbuild : SyntaxTree.build text tokens (Outline.node .file os).events = .ok t)
    (hfirst : (t.significantChildren t.root).head? = some statement)
    (hkind : t.kind? statement = some kind) (hexpression : kind.isExpression = true)
    (hempty : kind ≠ .emptyExpression) :
    ∃ ids, t.siblingsBefore statement = ids.reverse ∧
      t.Leaves ids (tokens.takeWhile (·.kind.isLayout)) := by
  obtain ⟨span, trees, rest, hbuild', htokens, -, -, hdressed⟩ :=
    SyntaxTree.build_events text .file h.plain h.significant
  obtain rfl := Except.ok.inj (hbuild.symm.trans hbuild')
  have hholds := SyntaxTree.holds_ofRose text
    (.node ⟨.file, span⟩ (trees ++ (rest.takeWhile (·.kind ≠ .endOfFile)).map leaf))
  have hextents := SyntaxTree.forestMap_numberAll 0
    (trees ++ (rest.takeWhile (·.kind ≠ .endOfFile)).map leaf)
  rw [Rose.forestMap_eq_map] at hextents
  have hshown := List.mem_filter.mp (List.mem_of_mem_head? hfirst)
  have hparent := SyntaxTree.parent?_of_mem_children hshown.1
  rw [SyntaxTree.significantChildren, SyntaxTree.root_ofRose, hholds.children_eq] at hfirst
  obtain ⟨ids, others, hrow, hleaves⟩ :=
    SyntaxTree.exists_leading (fun m => hholds.child) hextents htokens hdressed (fun o ho =>
      ⟨Outline.seen_of_mem h.plain h.significant ho, h.lenient.2.of_mem ho⟩) hfirst hkind
      hexpression hempty
  have hchildren := hholds.children_eq.trans hrow
  rw [← SyntaxTree.root_ofRose] at hchildren
  refine ⟨ids, SyntaxTree.siblingsBefore_eq hparent hchildren fun hmem => ?_, hleaves⟩
  have hlayout := hleaves.isLayout (List.all_eq_true.mp List.all_takeWhile) statement hmem
  rw [hlayout] at hshown
  exact absurd hshown.2 (by decide)

end RSource
