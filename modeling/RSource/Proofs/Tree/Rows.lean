import RSource.Proofs.Lossless
import RSource.Proofs.Tree.Within

/-! The rows of a parsed tree.  Below every node but the root stands a row of the grammar, with
layout before its members; so a node that holds one token has no child but the leaf. -/

namespace RSource

open Rose (Within)

theorem Rose.Within.map {α β : Type} {s t : Rose α} (f : α → β) (h : Within s t) :
    Within (s.map f) (t.map f) := by
  induction h with
  | refl => exact .refl _
  | child hc h ih =>
    refine .child ?_ ih
    rw [Rose.forestMap_eq_map]
    exact List.mem_map_of_mem hc

variable {tokens : List Token} {rigor : Rigor} {o : Outline} {os : List Outline}
variable {s tree : Rose Extent} {trees : List (Rose Extent)}

theorem Outline.ForestDerived.of_mem (h : Outline.ForestDerived tokens rigor os) (ho : o ∈ os) :
    o.Derived tokens rigor := by
  induction os with
  | nil => cases ho
  | cons p os ih =>
    rcases List.mem_cons.mp ho with rfl | ho
    · exact h.1
    · exact ih h.2 ho

namespace Builder

theorem ForestDressed.of_mem (h : ForestDressed tokens os trees) (hs : s ∈ trees) :
    (∃ t, s = leaf t) ∨ ∃ o ∈ os, Dressed tokens o s := by
  induction os generalizing trees with
  | nil => cases h; cases hs
  | cons o os ih =>
    cases h with
    | cons hlayout ho hos =>
      rcases List.mem_append.mp hs with hs | hs
      · obtain ⟨t, -, rfl⟩ := List.mem_map.mp hs
        exact .inl ⟨t, rfl⟩
      · rcases List.mem_cons.mp hs with rfl | hs
        · exact .inr ⟨o, List.mem_cons_self, ho⟩
        · exact (ih hos hs).imp_right fun ⟨p, hp, hdressed⟩ =>
            ⟨p, List.mem_cons_of_mem _ hp, hdressed⟩

theorem eq_of_within_leaf {t : Token} (h : Within s (leaf t)) : s = leaf t := by
  cases h with
  | refl => rfl
  | child hc => cases hc

/-- A node of a dressed outline is one of the nodes of the outline, dressed; what an outline hands
down to its members holds of it. -/
theorem Dressed.of_within {Q : Outline → Prop}
    (hQ : ∀ kind os, Q (.node kind os) → ∀ o ∈ os, Q o) (h : Dressed tokens o tree) (ho : Q o)
    (hs : Within s tree) (hkind : s.label.kind.tokenKind? = none) :
    ∃ ps, Dressed tokens (.node s.label.kind ps) s ∧ Q (.node s.label.kind ps) := by
  induction hs generalizing o with
  | refl =>
    cases h with
    | token => cases hkind
    | node hrow hfirst => exact ⟨_, .node hrow hfirst, ho⟩
  | child hc hs ih =>
    cases h with
    | token => cases hc
    | node hrow hfirst =>
      rcases hrow.of_mem hc with ⟨t, rfl⟩ | ⟨p, hp, hdressed⟩
      · rw [eq_of_within_leaf hs] at hkind
        cases hkind
      · exact ih hdressed (hQ _ _ ho p hp)

/-- A node around one token is a node around its leaf. -/
theorem Dressed.of_singleton {kind : NodeKind} {i : Nat}
    (h : Dressed tokens (.node kind [.token i]) tree) :
    ∃ t, tokens[i]? = some t ∧ tree = .node ⟨kind, t.span⟩ [leaf t] := by
  cases h with
  | node hrow hfirst =>
    cases hrow with
    | @cons layout _ _ _ _ hlayout ho hos =>
      cases hos
      cases ho with
      | @token _ t hget =>
        cases layout with
        | nil => exact ⟨t, hget, rfl⟩
        | cons x layout =>
          have hx := hfirst x rfl
          rw [hlayout x List.mem_cons_self] at hx
          cases hx

end Builder

open Builder

/-- Whatever the tokens are, what is found keeps to the lenient grammar. -/
theorem Grammar.Found.lenient {more : List Nat} (h : Grammar.Found tokens os more) :
    (Outline.node .file os).Derived tokens .lenient := by
  have hfits : Parser.Fits tokens .lenient (fun _ => True) (Parser.one Grammar.source) _ :=
    Grammar.fits_source
  have hfit := hfits.of_true .statements (Cursor.over_ofTokens tokens)
  rw [← h.outline]
  exact (hfit.derived fun hstrict => by cases hstrict).2.1

/-- Every node of a built tree but the root and the leaves is a node of the outline.  What the
outline hands down to its members holds of it. -/
theorem SyntaxTree.root_or_outline {text : String} {more : List Nat} {t : SyntaxTree} {id : NodeId}
    {root kind : NodeKind} {Q : Outline → Prop} (hos : Outline.ForestPlain os)
    (h : significant 0 tokens = Outline.forestTokens os ++ more)
    (hbuild : build text tokens (Outline.node root os).events = .ok t)
    (hQ : ∀ kind os, Q (.node kind os) → ∀ o ∈ os, Q o) (hmembers : ∀ o ∈ os, Q o)
    (hid : t.kind? id = some kind) (hkind : kind.tokenKind? = none) :
    id = t.root ∧ kind = root ∨ ∃ m parent ps, m.label.1 = id ∧ t.Holds parent m ∧
      Dressed tokens (.node kind ps) (m.map (·.2)) ∧ Q (.node kind ps) := by
  obtain ⟨span, trees, rest, hbuild', -, -, -, hdressed⟩ := build_events text root hos h
  obtain rfl := Except.ok.inj (hbuild.symm.trans hbuild')
  obtain ⟨node, hnode, -⟩ := Option.map_eq_some_iff.mp hid
  obtain ⟨m, parent, hm, rfl, hholds⟩ := exists_within (Array.getElem?_eq_some_iff.mp hnode).1
  rw [hholds.kind?_eq] at hid
  obtain rfl := Option.some.inj hid
  have hlabel : (m.map (·.2)).label = m.label.2 := Rose.label_map _ m
  rw [root_ofRose]
  rw [number_node] at hm ⊢
  cases hm with
  | refl => exact .inl ⟨rfl, rfl⟩
  | @child c _ _ hc hm =>
    have hwithin := hm.map (·.2)
    have hmem : c.map (·.2) ∈ trees ++ (rest.takeWhile (·.kind ≠ .endOfFile)).map leaf := by
      rw [← forestMap_numberAll 0 (trees ++ _), Rose.forestMap_eq_map]
      exact List.mem_map_of_mem hc
    rw [← hlabel] at hkind ⊢
    -- Below the root stand the outlines with their layout, then the layout at the end of the text.
    rcases List.mem_append.mp hmem with hmem | hmem
    · rcases hdressed.of_mem hmem with ⟨t, ht⟩ | ⟨p, hp, hc'⟩
      · rw [ht] at hwithin
        rw [eq_of_within_leaf hwithin] at hkind
        cases hkind
      · obtain ⟨ps, hrow⟩ := hc'.of_within hQ (hmembers p hp) hwithin hkind
        exact .inr ⟨m, parent, ps, rfl, hholds, hrow⟩
    · obtain ⟨t, -, ht⟩ := List.mem_map.mp hmem
      rw [← ht] at hwithin
      rw [eq_of_within_leaf hwithin] at hkind
      cases hkind

theorem SyntaxTree.exists_outline {text : String} {more : List Nat} {t : SyntaxTree} {id : NodeId}
    {root kind : NodeKind} {Q : Outline → Prop} (hos : Outline.ForestPlain os)
    (h : significant 0 tokens = Outline.forestTokens os ++ more)
    (hbuild : build text tokens (Outline.node root os).events = .ok t)
    (hQ : ∀ kind os, Q (.node kind os) → ∀ o ∈ os, Q o) (hmembers : ∀ o ∈ os, Q o)
    (hid : t.kind? id = some kind) (hkind : kind.tokenKind? = none) (hroot : kind ≠ root) :
    ∃ m parent ps, m.label.1 = id ∧ t.Holds parent m ∧
      Dressed tokens (.node kind ps) (m.map (·.2)) ∧ Q (.node kind ps) :=
  (root_or_outline hos h hbuild hQ hmembers hid hkind).resolve_left fun h => hroot h.2

/-- Every node of a parsed tree but the file and the leaves has a row of its kind. -/
theorem Grammar.Found.exists_row {text : String} {more : List Nat} {t : SyntaxTree} {id : NodeId}
    {kind : NodeKind} (h : Grammar.Found tokens os more)
    (hbuild : SyntaxTree.build text tokens (Outline.node .file os).events = .ok t)
    (hid : t.kind? id = some kind) (hkind : kind.tokenKind? = none) (hfile : kind ≠ .file) :
    ∃ m parent ps, m.label.1 = id ∧ t.Holds parent m ∧
      Dressed tokens (.node kind ps) (m.map (·.2)) ∧
      ps ∈ Production.children tokens .lenient kind := by
  obtain ⟨m, parent, ps, hm, hholds, hdressed, hrow, -⟩ :=
    SyntaxTree.exists_outline (Q := Outline.Derived tokens .lenient) h.plain h.significant hbuild
      (fun _ _ hnode _ => hnode.2.of_mem) (fun _ => h.lenient.2.of_mem) hid hkind hfile
  exact ⟨m, parent, ps, hm, hholds, hdressed, hrow⟩

/-- A node of a kind that holds one token has its leaf as the only child. -/
theorem Grammar.Found.exists_tokenLeaf {text : String} {more : List Nat} {t : SyntaxTree}
    {id : NodeId} {kind : NodeKind} {kinds : List TokenKind} (h : Grammar.Found tokens os more)
    (hbuild : SyntaxTree.build text tokens (Outline.node .file os).events = .ok t)
    (hid : t.kind? id = some kind) (hkind : kind.tokenKind? = none) (hfile : kind ≠ .file)
    (hrows : Production.children tokens .lenient kind = Production.token tokens kinds) :
    ∃ leaf, t.children id = [leaf] ∧ t.span leaf = t.span id ∧
      ∃ k ∈ kinds, t.kind? leaf = some (.token k) := by
  obtain ⟨m, parent, ps, rfl, hholds, hdressed, hrow⟩ :=
    h.exists_row hbuild hid hkind hfile
  rw [hrows] at hrow
  obtain ⟨i, x, rfl, hx, hmem⟩ := hrow
  obtain ⟨token, htoken, hm⟩ := hdressed.of_singleton
  obtain rfl := Option.some.inj (htoken.symm.trans hx)
  obtain ⟨⟨place, extent⟩, cs⟩ := m
  obtain ⟨hextent, hcs⟩ := Rose.node.inj hm
  rw [Rose.forestMap_eq_map, List.map_eq_singleton_iff] at hcs
  obtain ⟨c, rfl, hc⟩ := hcs
  have hlabel := congrArg Rose.label hc
  rw [Rose.label_map] at hlabel
  have hleaf := hholds.child List.mem_cons_self
  refine ⟨c.label.1, hholds.children_eq, ?_, token.kind, hmem, ?_⟩
  · rw [hleaf.span_eq, hholds.span_eq, hlabel]
    exact (congrArg Extent.span hextent).symm
  · rw [hleaf.kind?_eq, hlabel]
    rfl

theorem Grammar.Found.exists_leaf {text : String} {more : List Nat} {t : SyntaxTree} {id : NodeId}
    {kind : NodeKind} {kinds : List TokenKind} (h : Grammar.Found tokens os more)
    (hbuild : SyntaxTree.build text tokens (Outline.node .file os).events = .ok t)
    (hid : t.kind? id = some kind) (hkind : kind.tokenKind? = none) (hfile : kind ≠ .file)
    (hrows : Production.children tokens .lenient kind = Production.token tokens kinds) :
    ∃ leaf, t.children id = [leaf] ∧ t.span leaf = t.span id := by
  obtain ⟨leaf, hchildren, hspan, -⟩ := h.exists_tokenLeaf hbuild hid hkind hfile hrows
  exact ⟨leaf, hchildren, hspan⟩

end RSource
