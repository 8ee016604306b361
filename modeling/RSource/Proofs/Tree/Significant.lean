import RSource.Proofs.Tree.Members

/-! The children of a node that are not layout.  They are the members of a row of the grammar, so
that they are read as a word of the language of rows: from the left, part by part (`Reads`). -/

namespace RSource

open scoped Computability
open Builder (Dressed ForestDressed leaf)

variable {tokens : List Token} {t : SyntaxTree} {kind : NodeKind} {o : Outline}
variable {os : List Outline}

namespace Outline

/-- The kind that the outline has as a node of a tree over the tokens. -/
def kindAmong (tokens : List Token) : Outline → Option NodeKind
  | .token i => (tokens[i]?).map fun t => .token t.kind
  | .node kind _ => some kind

/-- No leaf of the outline is layout, and no node is of a token's kind. -/
def Seen (tokens : List Token) (o : Outline) : Prop :=
  o.Plain ∧ ∀ i ∈ o.tokens, ∀ t, tokens[i]? = some t → t.kind.isLayout = false

theorem ForestPlain.of_mem (h : ForestPlain os) (ho : o ∈ os) : o.Plain := by
  induction os with
  | nil => cases ho
  | cons p os ih =>
    rcases List.mem_cons.mp ho with rfl | ho
    · exact h.1
    · exact ih h.2 ho

theorem mem_forestTokens {i : Nat} (ho : o ∈ os) (hi : i ∈ o.tokens) : i ∈ forestTokens os := by
  induction os with
  | nil => cases ho
  | cons p os ih =>
    rcases List.mem_cons.mp ho with rfl | ho
    · exact List.mem_append_left _ hi
    · exact List.mem_append_right _ (ih ho)

theorem Seen.of_mem (h : (Outline.node kind os).Seen tokens) (ho : o ∈ os) : o.Seen tokens :=
  ⟨h.1.2.of_mem ho, fun i hi => h.2 i (mem_forestTokens ho hi)⟩

/-- The outlines of significant tokens are seen. -/
theorem seen_of_mem {more : List Nat} (hos : ForestPlain os)
    (h : significant 0 tokens = forestTokens os ++ more) (ho : o ∈ os) : o.Seen tokens := by
  refine ⟨hos.of_mem ho, fun i hi t ht => ?_⟩
  have hmem : i ∈ significant 0 tokens := by
    rw [h]
    exact List.mem_append_left _ (mem_forestTokens ho hi)
  obtain ⟨j, x, rfl, hx, hlayout⟩ := mem_significant.mp hmem
  rw [Nat.zero_add] at ht
  obtain rfl := Option.some.inj (hx.symm.trans ht)
  exact hlayout

end Outline

namespace Builder

variable {parent : Option NodeId} {m : Rose (NodeId × Extent)} {ms : List (Rose (NodeId × Extent))}

/-- A node of a tree is of the kind that its outline tells. -/
theorem Dressed.kindAmong_eq (h : Dressed tokens o (m.map (·.2))) (hm : t.Holds parent m) :
    o.kindAmong tokens = t.kind? m.label.1 := by
  cases o with
  | token i =>
    generalize htree : m.map (·.2) = tree at h
    cases h with
    | token hget =>
      rw [(exists_leaf_of_map hm htree).1, Outline.kindAmong, hget]
      rfl
  | node kind os => exact (h.kind?_eq hm).symm

theorem Dressed.not_layout (h : Dressed tokens o (m.map (·.2))) (hm : t.Holds parent m)
    (hseen : o.Seen tokens) : t.isLayout m.label.1 = false := by
  rw [SyntaxTree.isLayout, ← h.kindAmong_eq hm]
  cases o with
  | token i =>
    cases hget : tokens[i]? with
    | none => rw [Outline.kindAmong, hget]; rfl
    | some x =>
      rw [Outline.kindAmong, hget]
      exact hseen.2 i List.mem_cons_self x hget
  | node kind os =>
    have hkind : kind.tokenKind? = none := hseen.1.1
    simp [Outline.kindAmong, NodeKind.isLayout, hkind]

/-- The children that are not layout are the members of the row. -/
theorem ForestDressed.filter_not_layout (h : ForestDressed tokens os (Rose.forestMap (·.2) ms))
    (hms : ∀ m ∈ ms, t.Holds parent m) (hseen : ∀ o ∈ os, o.Seen tokens) :
    os.map (Outline.kindAmong tokens) =
      ((ms.map (·.label.1)).filter fun c => !t.isLayout c).map t.kind? := by
  induction os generalizing ms with
  | nil =>
    rw [h.eq_nil]
    rfl
  | cons o os ih =>
    obtain ⟨layout, m, rest, rfl, hlayout, hm, hrest⟩ := h.exists_split
    have hleaves : (layout.map (·.label.1)).filter (fun c => !t.isLayout c) = [] := by
      refine List.filter_eq_nil_iff.mpr fun id hid => ?_
      obtain ⟨l, hl, rfl⟩ := List.mem_map.mp hid
      obtain ⟨x, hx, hleaf⟩ := hlayout l hl
      have hkind := (exists_leaf_of_map (hms l (List.mem_append_left _ hl)) hleaf).1
      rw [SyntaxTree.isLayout, hkind]
      simpa [NodeKind.isLayout, NodeKind.tokenKind?] using hx
    have hhere : (!t.isLayout m.label.1) = true := by
      rw [hm.not_layout (hms m (by simp)) (hseen o List.mem_cons_self)]
      rfl
    rw [List.map_append, List.filter_append, hleaves, List.nil_append, List.map_cons,
      List.map_cons, List.filter_cons, if_pos hhere, List.map_cons,
      hm.kindAmong_eq (hms m (by simp)),
      ih hrest (fun n hn => hms n (by simp [hn])) fun p hp => hseen p (List.mem_cons_of_mem _ hp)]

end Builder

namespace SyntaxTree

/-- The nodes are those of a row of the language, in order. -/
def Reads (t : SyntaxTree) (tokens : List Token) (L : Language Outline) (ns : List NodeId) : Prop :=
  ∃ ps ∈ L, ps.map (Outline.kindAmong tokens) = ns.map t.kind?

variable {L M : Language Outline} {ns : List NodeId} {kinds : List TokenKind}

theorem reads_add : t.Reads tokens (L + M) ns ↔ t.Reads tokens L ns ∨ t.Reads tokens M ns :=
  ⟨fun ⟨ps, hps, hns⟩ => hps.imp (fun h => ⟨ps, h, hns⟩) fun h => ⟨ps, h, hns⟩,
    fun h => h.elim (fun ⟨ps, hps, hns⟩ => ⟨ps, .inl hps, hns⟩) fun ⟨ps, hps, hns⟩ =>
      ⟨ps, .inr hps, hns⟩⟩

theorem reads_one : t.Reads tokens 1 ns ↔ ns = [] := by
  constructor
  · rintro ⟨_, rfl, hns⟩
    exact List.map_eq_nil_iff.mp hns.symm
  · rintro rfl
    exact ⟨[], Language.nil_mem_one, rfl⟩

/-- A word of two languages is read in two parts. -/
theorem reads_mul : t.Reads tokens (L * M) ns ↔
    ∃ ns₁ ns₂, ns = ns₁ ++ ns₂ ∧ t.Reads tokens L ns₁ ∧ t.Reads tokens M ns₂ := by
  constructor
  · rintro ⟨_, ⟨ps, hps, qs, hqs, rfl⟩, hns⟩
    rw [List.map_append] at hns
    obtain ⟨ns₁, ns₂, rfl, hns₁, hns₂⟩ := List.map_eq_append_iff.mp hns.symm
    exact ⟨ns₁, ns₂, rfl, ⟨ps, hps, hns₁.symm⟩, qs, hqs, hns₂.symm⟩
  · rintro ⟨ns₁, ns₂, rfl, ⟨ps, hps, hns₁⟩, qs, hqs, hns₂⟩
    exact ⟨ps ++ qs, Language.mem_mul.mpr ⟨ps, hps, qs, hqs, rfl⟩, by
      rw [List.map_append, List.map_append, hns₁, hns₂]⟩

theorem exists_of_map_singleton {k : Option NodeKind} (h : [k] = ns.map t.kind?) :
    ∃ n, ns = [n] ∧ t.kind? n = k := by
  obtain ⟨n, rfl, hn⟩ := List.map_eq_singleton_iff.mp h.symm
  exact ⟨n, rfl, hn⟩

theorem Reads.token (h : t.Reads tokens (Production.token tokens kinds) ns) :
    ∃ n, ns = [n] ∧ ∃ k ∈ kinds, t.kind? n = some (.token k) := by
  obtain ⟨_, ⟨i, x, rfl, hx, hk⟩, hns⟩ := h
  obtain ⟨n, rfl, hn⟩ := exists_of_map_singleton hns
  refine ⟨n, rfl, x.kind, hk, ?_⟩
  rw [hn, Outline.kindAmong, hx]
  rfl

theorem Reads.node {kinds : List NodeKind} (h : t.Reads tokens (Production.node kinds) ns) :
    ∃ n, ns = [n] ∧ ∃ k ∈ kinds, t.kind? n = some k := by
  obtain ⟨_, ⟨k, cs, rfl, hk⟩, hns⟩ := h
  obtain ⟨n, rfl, hn⟩ := exists_of_map_singleton hns
  exact ⟨n, rfl, k, hk, hn⟩

/-- The node is an expression, or an error that stands in the place of one. -/
def isOperand (t : SyntaxTree) (n : NodeId) : Prop :=
  t.isExpression n = true ∨ t.isKind .error n = true

theorem Reads.operand (h : t.Reads tokens (Production.operand .lenient) ns) :
    ∃ n, ns = [n] ∧ t.isOperand n := by
  rcases reads_add.mp h with ⟨_, ⟨kind, cs, rfl, hstands, -⟩, hns⟩ | herror
  · obtain ⟨n, rfl, hn⟩ := exists_of_map_singleton hns
    refine ⟨n, rfl, ?_⟩
    rw [Rigor.stands, Bool.or_eq_true, Bool.and_eq_true, Bool.and_eq_true, beq_iff_eq,
      beq_iff_eq] at hstands
    rw [isOperand, isExpression, isKind, hn]
    exact hstands.imp And.left fun h => decide_eq_true (congrArg some h.2)
  · obtain ⟨n, rfl, k, hk, hn⟩ := Reads.node herror
    obtain rfl := List.mem_singleton.mp hk
    exact ⟨n, rfl, .inr (decide_eq_true hn)⟩

theorem Reads.expression (h : t.Reads tokens (Production.expression .lenient) ns) :
    ∃ n, ns = [n] ∧ t.isOperand n :=
  Reads.operand (reads_add.mpr (.inl h))

theorem Reads.optional (h : t.Reads tokens (Production.optional .lenient) ns) :
    ∃ n, ns = [n] ∧ t.isOperand n := by
  rcases reads_add.mp h with h | h
  · obtain ⟨n, rfl, k, hk, hn⟩ := h.node
    obtain rfl := List.mem_singleton.mp hk
    exact ⟨n, rfl, .inl (by rw [isExpression, hn]; rfl)⟩
  · exact h.operand

theorem Reads.operator (h : t.Reads tokens (Production.operator tokens kind kinds) ns) :
    ∃ n, ns = [n] ∧ t.kind? n = some kind := by
  obtain ⟨_, ⟨cs, rfl, -⟩, hns⟩ := h
  exact exists_of_map_singleton hns

theorem Reads.wanted {k : TokenKind} (h : t.Reads tokens (Production.wanted tokens .lenient k) ns) :
    ns = [] ∨ ∃ n, ns = [n] ∧ t.kind? n = some (.token k) := by
  rcases reads_add.mp h with h | h
  · obtain ⟨n, hn, k', hk, hkind⟩ := h.token
    obtain rfl := List.mem_singleton.mp hk
    exact .inr ⟨n, hn, hkind⟩
  · exact .inl (reads_one.mp h)

end SyntaxTree

/-- Whatever the source, the children of a node that are not layout are read as a row of its kind.
-/
theorem Grammar.Found.reads {text : String} {more : List Nat} {id : NodeId}
    (h : Grammar.Found tokens os more)
    (hbuild : SyntaxTree.build text tokens (Outline.node .file os).events = .ok t)
    (hid : t.kind? id = some kind) (hkind : kind.tokenKind? = none) (hfile : kind ≠ .file) :
    t.Reads tokens (Production.children tokens .lenient kind) (t.significantChildren id) := by
  obtain ⟨m, parent, ps, rfl, hholds, hdressed, hderived, hseen⟩ :=
    SyntaxTree.exists_outline (Q := fun o => o.Derived tokens .lenient ∧ o.Seen tokens) h.plain
      h.significant hbuild
      (fun _ _ hnode o ho => ⟨hnode.1.2.of_mem ho, hnode.2.of_mem ho⟩)
      (fun o ho => ⟨h.lenient.2.of_mem ho, Outline.seen_of_mem h.plain h.significant ho⟩) hid hkind
      hfile
  refine ⟨ps, hderived.1, ?_⟩
  rw [SyntaxTree.significantChildren, hholds.children_eq]
  exact hdressed.forest.filter_not_layout (fun n => hholds.child) fun o => hseen.of_mem

end RSource
