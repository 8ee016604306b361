import Mathlib.Data.List.Nodup
import RSource.Proofs.Lexeme.Cover
import RSource.Proofs.Tree.Laid
import RSource.Proofs.Tree.Within

/-! What holds of every tree that is built over tokens that stand end to end, whatever the events.
The log of the builder is the list of the nodes by number, so that it tells which of them hold
tokens. -/

namespace RSource

open Rose (Within)

variable {K : NodeKind → Prop} {inside : Bool} {a b first : Nat} {held : NodeId → Option Token}
variable {log log' : List (Option Token)} {cs : List (Rose Extent)} {r : Rose Extent}

/-- From a number on, what nodes hold is entered in the log. -/
def HeldFrom (held : NodeId → Option Token) (first : NodeId) (log : List (Option Token)) : Prop :=
  ∀ i x, log[i]? = some x → held (first + i) = x

theorem HeldFrom.left (h : HeldFrom held first (log ++ log')) : HeldFrom held first log := by
  intro i x hx
  refine h i x ?_
  rw [List.getElem?_append_left (List.getElem?_eq_some_iff.mp hx).1, hx]

theorem HeldFrom.right (h : HeldFrom held first (log ++ log')) :
    HeldFrom held (first + log.length) log' := by
  intro i x hx
  rw [Nat.add_assoc]
  refine h (log.length + i) x ?_
  rw [List.getElem?_append_right (Nat.le_add_right _ _), Nat.add_sub_cancel_left, hx]

mutual
theorem Laid.length {inside : Bool} {a b : Nat} {log : List (Option Token)} :
    {r : Rose Extent} → Laid K inside a b log r → log.length = r.size
  | .node _ _, .leaf _ _ => rfl
  | .node _ _, .node _ hcs _ => by
    rw [List.length_append, hcs.length, Rose.size]
    rfl

theorem ForestLaid.length {inside : Bool} {a b : Nat} {log : List (Option Token)} :
    {cs : List (Rose Extent)} → ForestLaid K inside a b log cs → log.length = Rose.forestSize cs
  | [], .nil _ => rfl
  | _ :: _, .cons hr hcs => by
    rw [List.length_append, hr.length, hcs.length, Rose.forestSize]
end

/-- The last entry is that of the root. -/
theorem Laid.held_label (h : Laid K inside a b log r) (hheld : HeldFrom held first log) :
    (∃ t, log = [some t] ∧ r = Builder.leaf t ∧
        held (SyntaxTree.number first r).1.label.1 = some t) ∨
      held (SyntaxTree.number first r).1.label.1 = none := by
  cases h with
  | leaf t => exact .inl ⟨t, rfl, rfl, hheld 0 _ rfl⟩
  | @node _ _ _ log kind cs hkind hcs hfirst =>
    refine .inr ?_
    rw [SyntaxTree.number_node, SyntaxTree.numberAll_next, ← hcs.length]
    exact hheld.right 0 none rfl

mutual
/-- The tokens in preorder are those of the log. -/
theorem Laid.filterMap_held {inside : Bool} {a b first : Nat} {log : List (Option Token)} :
    {r : Rose Extent} → Laid K inside a b log r → HeldFrom held first log →
      ((SyntaxTree.number first r).1.preorder.map (·.1)).filterMap held = log.reduceOption
  | .node _ _, .leaf t _, hheld => by
    have hfirst : held first = some t := hheld 0 _ rfl
    simp [Rose.preorder, Rose.forestPreorder, hfirst]
  | .node _ _, .node hkind hcs hfirst, hheld => by
    rw [SyntaxTree.number_node, Rose.preorder, List.map_cons, SyntaxTree.numberAll_next,
      ← hcs.length]
    refine (List.filterMap_cons_none (hheld.right 0 none rfl)).trans ?_
    rw [hcs.filterMap_held hheld.left, List.reduceOption_append, List.reduceOption_singleton]
    exact (List.append_nil _).symm

theorem ForestLaid.filterMap_held {inside : Bool} {a b first : Nat} {log : List (Option Token)} :
    {cs : List (Rose Extent)} → ForestLaid K inside a b log cs → HeldFrom held first log →
      ((Rose.forestPreorder (SyntaxTree.numberAll first cs).1).map (·.1)).filterMap held =
        log.reduceOption
  | [], .nil _, _ => rfl
  | _ :: _, .cons hr hcs, hheld => by
    have hrest := hheld.right
    rw [hr.length, ← SyntaxTree.number_next] at hrest
    rw [SyntaxTree.numberAll_cons, Rose.forestPreorder, List.map_append, List.filterMap_append,
      hr.filterMap_held hheld.left, hcs.filterMap_held hrest, List.reduceOption_append]
end

namespace SyntaxTree

variable {m : Rose (NodeId × Extent)}

/-- The subtree is laid out, and what its nodes hold is known. -/
structure Standing (K : NodeKind → Prop) (held : NodeId → Option Token) (inside : Bool)
    (m : Rose (NodeId × Extent)) (first : NodeId) (a b : Nat) (log : List (Option Token))
    (r : Rose Extent) : Prop where
  number : m = (SyntaxTree.number first r).1
  laid : Laid K inside a b log r
  held : HeldFrom held first log

mutual
/-- A subtree of a laid out tree is laid out, and all but the whole stand inside a node. -/
theorem exists_standing {inside : Bool} {a b : Nat} {first : NodeId} {log : List (Option Token)} :
    (r : Rose Extent) → Laid K inside a b log r → HeldFrom held first log →
    Within m (number first r).1 →
    ∃ inside' first' a' b' log' r', Standing K held inside' m first' a' b' log' r' ∧
      (m = (number first r).1 ∨ inside' = true)
  | .node e cs, hlaid, hheld, hm => by
    rw [number_node] at hm
    cases hm with
    | refl => exact ⟨inside, first, a, b, log, .node e cs, ⟨rfl, hlaid, hheld⟩, .inl rfl⟩
    | child hc hm =>
      cases hlaid with
      | leaf => simp at hc
      | node hkind hcs hfirst =>
        obtain ⟨first', a', b', log', r', h⟩ := exists_standing_forest cs hcs hheld.left hc hm
        exact ⟨true, first', a', b', log', r', h, .inr rfl⟩

theorem exists_standing_forest {a b : Nat} {first : NodeId} {log : List (Option Token)}
    {n : Rose (NodeId × Extent)} :
    (cs : List (Rose Extent)) → ForestLaid K true a b log cs → HeldFrom held first log →
    n ∈ (numberAll first cs).1 → Within m n →
    ∃ first' a' b' log' r', Standing K held true m first' a' b' log' r'
  | [], _, _, hn, _ => by cases hn
  | r :: cs, .cons hr hcs, hheld, hn, hm => by
    rw [numberAll_cons] at hn
    rcases List.mem_cons.mp hn with rfl | hn
    · obtain ⟨inside', first', a', b', log', r', h, hwhole⟩ := exists_standing r hr hheld.left hm
      rcases hwhole with rfl | rfl
      · exact ⟨first, _, _, _, r, rfl, hr, hheld.left⟩
      · exact ⟨first', a', b', log', r', h⟩
    · rw [number_next, ← hr.length] at hn
      exact exists_standing_forest cs hcs hheld.right hn hm
end

/-- A node is a leaf that holds a token, or it holds none and its children are laid out. -/
theorem Standing.cases {log : List (Option Token)} (h : Standing K held inside m first a b log r) :
    m.label.2.span = ⟨a, b⟩ ∧
    ((∃ t, held m.label.1 = some t ∧ m.children = [] ∧ m.label.2 = ⟨.token t.kind, t.span⟩) ∨
      held m.label.1 = none ∧ K m.label.2.kind ∧ ∃ log' cs, m.children = (numberAll first cs).1 ∧
        ForestLaid K true a b log' cs ∧ HeldFrom held first log' ∧
        (inside = true → BeginsPlain log')) := by
  obtain ⟨rfl, hlaid, hheld⟩ := h
  refine ⟨?_, ?_⟩
  · have hlabel := congrArg Rose.label (map_number first r)
    rw [Rose.label_map] at hlabel
    rw [hlabel, hlaid.span]
  rcases hlaid.held_label hheld with ⟨t, -, rfl, ht⟩ | hnone
  · exact .inl ⟨t, ht, rfl, rfl⟩
  -- The log has no token for the node, so that it is none of the leaves.
  · cases hlaid with
    | leaf t => exact absurd (hnone.symm.trans (hheld 0 _ rfl)) (by simp)
    | node hkind hcs hfirst => exact .inr ⟨hnone, hkind, _, _, rfl, hcs, hheld.left, hfirst⟩

variable {t : SyntaxTree} {parent : Option NodeId}

theorem map_span_numberAll (first : NodeId) (cs : List (Rose Extent)) :
    (numberAll first cs).1.map (·.label.2.span) = cs.map (·.label.span) := by
  have hlabels := congrArg (List.map (·.label.span)) (forestMap_numberAll first cs)
  rw [Rose.forestMap_eq_map, List.map_map] at hlabels
  rw [← hlabels]
  exact List.map_congr_left fun n _ => by rw [Function.comp_apply, Rose.label_map]

/-- The children of a node stand in order from its start to its end. -/
theorem Standing.spans (h : Standing K held inside m first a b log r) (hm : t.Holds parent m) :
    t.span m.label.1 = ⟨a, b⟩ ∧ InOrder ((t.children m.label.1).map t.span) ∧
      (∀ s ∈ ((t.children m.label.1).map t.span).head?, s.start = a) ∧
      ∀ s ∈ ((t.children m.label.1).map t.span).getLast?, s.stop = b := by
  obtain ⟨hspan, hcases⟩ := h.cases
  rw [hm.span_eq, hm.map_span_children]
  refine ⟨hspan, ?_⟩
  rcases hcases with ⟨token, -, hnil, -⟩ | ⟨-, -, log', cs, hchildren, hcs, -, -⟩
  · rw [hnil]
    exact ⟨inOrder_nil, fun _ hs => (by cases hs), fun _ hs => (by cases hs)⟩
  · rw [hchildren, map_span_numberAll]
    refine ⟨hcs.inOrder, fun s hs => ?_, fun s hs => ?_⟩
    · rw [List.head?_map] at hs
      obtain ⟨c, hc, rfl⟩ := Option.map_eq_some_iff.mp hs
      exact hcs.span_start c hc
    · rw [List.getLast?_map] at hs
      obtain ⟨c, hc, rfl⟩ := Option.map_eq_some_iff.mp hs
      exact hcs.span_stop c hc

/-- What a leaf holds is what it is. -/
theorem Standing.leaf (h : Standing K held inside m first a b log r) (hm : t.Holds parent m)
    {token : Token} (htoken : held m.label.1 = some token) :
    t.token? m.label.1 = some token ∧ t.children m.label.1 = [] := by
  rcases h.cases.2 with ⟨token', htoken', hnil, hlabel⟩ | ⟨hnone, -⟩
  · obtain rfl := Option.some.inj (htoken.symm.trans htoken')
    rw [token?, hm.node_eq, hm.children_eq, hnil, hlabel]
    exact ⟨rfl, rfl⟩
  · rw [hnone] at htoken
    cases htoken

theorem Standing.empty (h : Standing K held inside m first a b log r) (hm : t.Holds parent m)
    (hnone : held m.label.1 = none) (hnil : t.children m.label.1 = []) : a = b := by
  rcases h.cases.2 with ⟨token, htoken, -⟩ | ⟨-, -, log', cs, hchildren, hcs, -⟩
  · rw [hnone] at htoken
    cases htoken
  · rw [hm.children_eq, hchildren, List.map_eq_nil_iff] at hnil
    cases hcs with
    | nil => rfl
    | cons hr hcs => cases hnil

/-- Inside another node a node does not begin with layout. -/
theorem Standing.layout (h : Standing K held true m first a b log r) (hm : t.Holds parent m)
    {c : NodeId} (hc : c ∈ (t.children m.label.1).head?) {token : Token}
    (htoken : held c = some token) : token.kind.isLayout = false := by
  rcases h.cases.2 with ⟨token', -, hnil, -⟩ | ⟨-, -, log', cs, hchildren, hcs, hheld, hfirst⟩
  · rw [hm.children_eq, hnil] at hc
    cases hc
  · rw [hm.children_eq, hchildren, List.head?_map] at hc
    cases hcs with
    | nil => cases hc
    | cons hr hcs =>
      obtain rfl := Option.some.inj hc
      rcases hr.held_label hheld.left with ⟨token', rfl, -, htoken'⟩ | hnone
      · obtain rfl := Option.some.inj (htoken.symm.trans htoken')
        exact hfirst rfl token rfl
      · exact absurd (htoken.symm.trans hnone) (by simp)

/-- A node that holds no token is of a kind that was started. -/
theorem Standing.kind (h : Standing K held inside m first a b log r)
    (hnone : held m.label.1 = none) : K m.label.2.kind := by
  rcases h.cases.2 with ⟨token, htoken, -⟩ | ⟨-, hkind, -⟩
  · rw [hnone] at htoken
    cases htoken
  · exact hkind

/-- What the log says of a number. -/
def heldIn (log : List (Option Token)) (id : NodeId) : Option Token := (log[id]?).join

theorem heldFrom_heldIn (log : List (Option Token)) : HeldFrom (heldIn log) 0 log := by
  intro i x hx
  rw [Nat.zero_add, heldIn, hx]
  rfl

/-- Every node of a tree that is laid out stands in it, and all but the root inside another. -/
theorem exists_standing_node {text : String} {stop : Nat} (h : Laid K false 0 stop log r)
    {id : NodeId} (hid : id < (ofRose text r).size) :
    ∃ m parent inside first a b log' r', m.label.1 = id ∧ (ofRose text r).Holds parent m ∧
      Standing K (heldIn log) inside m first a b log' r' ∧
      (id ≠ (ofRose text r).root → inside = true) := by
  obtain ⟨m, parent, hm, rfl, hholds⟩ := exists_within hid
  obtain ⟨inside, first, a, b, log', r', hstanding, hwhole⟩ :=
    exists_standing r h (heldFrom_heldIn log) hm
  refine ⟨m, parent, inside, first, a, b, log', r', rfl, hholds, hstanding, fun hne => ?_⟩
  rcases hwhole with rfl | hinside
  · exact absurd (root_ofRose text r).symm hne
  · exact hinside

/-- When no node but the leaves is of the kind of a token, the kinds tell what the nodes hold. -/
theorem heldIn_eq_token? {text : String} {stop : Nat} (h : Laid K false 0 stop log r)
    (hK : ∀ kind, K kind → kind.tokenKind? = none) (id : NodeId) :
    heldIn log id = (ofRose text r).token? id := by
  by_cases hid : id < (ofRose text r).size
  · obtain ⟨m, parent, inside, first, a, b, log', r', rfl, hm, hs, -⟩ := exists_standing_node h hid
    cases hheld : heldIn log m.label.1 with
    | some token => exact (hs.leaf hm hheld).1.symm
    | none =>
      rw [token?, hm.node_eq]
      simp [hK _ (hs.kind hheld)]
  · have hnone : (ofRose text r).nodes[id]? = none := by simpa [size] using hid
    have hle : log.length ≤ id := by
      rw [h.length, ← size_ofRose text]
      exact Nat.le_of_not_lt hid
    rw [heldIn, List.getElem?_eq_none hle, token?, hnone]
    rfl

/-- A start whose node another start opens around, a tombstone, a node without tokens before
layout, and a token that no event names. -/
def chainedEvents : List Event :=
  [.start .file none, .start .identifierExpression (some 4), .token 0, .finish, .tombstone,
    .start .operatorExpression none, .start .emptyExpression none, .finish,
    .start .identifierExpression none, .token 2, .finish, .finish, .finish]

end SyntaxTree

end RSource
