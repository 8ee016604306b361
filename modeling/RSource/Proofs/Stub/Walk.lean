import RSource.Proofs.Tree.Members
import RSource.Proofs.Tree.Significant
import RSource.Stub.Extract

/-! The walk that builds stubs as a recursion.  A visit takes one node from those that wait and puts
its children in front of the others, so that the walk comes to everything below the node before it
comes to these (`exists_run_eq_collect`).  What it has added by then is what a recursion over the
tree of places adds (`collect`). -/

namespace RSource

open Rose (Within)

variable {tokens : List Token} {os : List Outline} {o : Outline}

/-! ### Leaves -/

namespace Builder

/-- Where no node of an outline is of a token's kind, a tree of this kind is a leaf. -/
theorem Dressed.eq_leaf_of_within {s tree : Rose Extent} (h : Dressed tokens o tree) (ho : o.Plain)
    (hs : Within s tree) (hkind : s.label.kind.tokenKind? ≠ none) : ∃ x, s = leaf x := by
  induction hs generalizing o with
  | refl =>
    cases h with
    | token => exact ⟨_, rfl⟩
    | node => exact absurd ho.1 hkind
  | child hc hs ih =>
    cases h with
    | token => cases hc
    | node hrow =>
      rcases hrow.of_mem hc with ⟨x, rfl⟩ | ⟨p, hp, hdressed⟩
      · exact ⟨x, eq_of_within_leaf hs⟩
      · exact ih hdressed (ho.2.of_mem hp)

end Builder

namespace SyntaxTree

/-- No node of a token's kind has children. -/
def Leafy (t : SyntaxTree) : Prop := ∀ id, t.isToken id = true → t.children id = []

theorem leafy_of_build {text : String} {more : List Nat} {t : SyntaxTree} {root : NodeKind}
    (hroot : root.tokenKind? = none) (hos : Outline.ForestPlain os)
    (h : significant 0 tokens = Outline.forestTokens os ++ more)
    (hbuild : build text tokens (Outline.node root os).events = .ok t) : t.Leafy := by
  intro id hid
  obtain ⟨span, trees, rest, hbuild', -, -, -, hdressed⟩ := build_events text root hos h
  obtain rfl := Except.ok.inj (hbuild.symm.trans hbuild')
  obtain ⟨m, parent, hm, rfl, hholds⟩ := exists_within (lt_size_of_isToken hid)
  have hkind : m.label.2.kind.tokenKind? ≠ none := by
    rw [isToken, tokenKind?, hholds.kind?_eq] at hid
    exact Option.isSome_iff_ne_none.mp hid
  obtain ⟨x, hx⟩ : ∃ x, m.map (·.2) = Builder.leaf x := by
    have hlabel : (m.map (·.2)).label = m.label.2 := Rose.label_map _ m
    rw [number_node] at hm
    cases hm with
    | refl => exact absurd hroot hkind
    | @child c _ _ hc hm =>
      have hwithin := hm.map (·.2)
      have hmem : c.map (·.2) ∈
          trees ++ (rest.takeWhile (·.kind ≠ .endOfFile)).map Builder.leaf := by
        rw [← forestMap_numberAll 0 (trees ++ _), Rose.forestMap_eq_map]
        exact List.mem_map_of_mem hc
      rcases List.mem_append.mp hmem with hmem | hmem
      · rcases hdressed.of_mem hmem with ⟨x, hx⟩ | ⟨p, hp, hc'⟩
        · exact ⟨x, Builder.eq_of_within_leaf (hx ▸ hwithin)⟩
        · exact hc'.eq_leaf_of_within (hos.of_mem hp) hwithin (hlabel ▸ hkind)
      · obtain ⟨x, -, hx⟩ := List.mem_map.mp hmem
        exact ⟨x, Builder.eq_of_within_leaf (hx ▸ hwithin)⟩
  rw [hholds.children_eq, (Builder.exists_leaf_of_map hholds hx).2]
  rfl

end SyntaxTree

namespace StubTree

open Builder

variable {t : SyntaxTree} {scope : Option StubId} {stubs : Array Stub} {parent : Option NodeId}

mutual
/-- Adds the stubs of a node and of what is below it. -/
def collect (t : SyntaxTree) (scope : Option StubId) (stubs : Array Stub) :
    Rose NodeId → Array Stub
  | .node id children =>
    if t.isKind .functionExpression id then stubs
    else
      match assigned? t id with
      | some name =>
        collectAll t (some stubs.size) (stubs ++ declared t scope stubs.size id name) children
      | none => collectAll t scope stubs children

/-- Adds the stubs of some nodes and of what is below them. -/
def collectAll (t : SyntaxTree) (scope : Option StubId) (stubs : Array Stub) :
    List (Rose NodeId) → Array Stub
  | [] => stubs
  | node :: nodes => collectAll t scope (collect t scope stubs node) nodes
end

theorem collectAll_append (scope : Option StubId) (stubs : Array Stub)
    (ns ns' : List (Rose NodeId)) : collectAll t scope stubs (ns ++ ns') =
      collectAll t scope (collectAll t scope stubs ns) ns' := by
  induction ns generalizing stubs with
  | nil => rfl
  | cons n ns ih => exact ih _

theorem collect_map (t : SyntaxTree) (scope : Option StubId) (stubs : Array Stub)
    (m : Rose (NodeId × Extent)) : collect t scope stubs (m.map (·.1)) =
      if t.isKind .functionExpression m.label.1 then stubs
      else match assigned? t m.label.1 with
        | some name => collectAll t (some stubs.size)
          (stubs ++ declared t scope stubs.size m.label.1 name) (Rose.forestMap (·.1) m.children)
        | none => collectAll t scope stubs (Rose.forestMap (·.1) m.children) := by
  obtain ⟨p, cs⟩ := m
  rw [Rose.map, collect]
  rfl

/-- Nothing is declared at a token. -/
theorem collect_token {id : NodeId} (h : t.isToken id = true) (scope : Option StubId)
    (stubs : Array Stub) : collect t scope stubs (.node id []) = stubs := by
  have hkind {kind : NodeKind} (hkind : kind.tokenKind? = none) : t.isKind kind id = false := by
    rw [SyntaxTree.isKind, decide_eq_false_iff_not]
    intro hid
    rw [SyntaxTree.isToken, SyntaxTree.tokenKind?, hid, Option.bind_some, hkind] at h
    cases h
  rw [collect, hkind rfl, assigned?, hkind rfl]
  rfl

theorem collect_leaf {m : Rose (NodeId × Extent)} {x : Token} (hm : t.Holds parent m)
    (h : m.map (·.2) = leaf x) (scope : Option StubId) (stubs : Array Stub) :
    collect t scope stubs (m.map (·.1)) = stubs := by
  obtain ⟨hkind, hm⟩ := exists_leaf_of_map hm h
  have htoken : t.isToken m.label.1 = true := by
    rw [SyntaxTree.isToken, SyntaxTree.tokenKind?, hkind]
    rfl
  rw [hm]
  exact collect_token htoken scope stubs

/-! ### Visits -/

namespace Walk

theorem run_nil (bound : Nat) (stubs : Array Stub) : run t bound ⟨[], stubs⟩ = stubs := by
  cases bound <;> rfl

section

variable {id : NodeId} {waiting : List (NodeId × Option StubId)}

/-- Nothing is entered at a function. -/
theorem visit_function (h : t.isKind .functionExpression id = true) :
    visit t id scope ⟨waiting, stubs⟩ = ⟨waiting, stubs⟩ := if_pos h

/-- The stubs of an assignment are added, and what is assigned in it belongs to its own stub. -/
theorem visit_assignment {name : NodeId} (h : t.isKind .functionExpression id = false)
    (hname : assigned? t id = some name) : visit t id scope ⟨waiting, stubs⟩ =
      ⟨entries t (some stubs.size) (t.children id) ++ waiting,
        stubs ++ declared t scope stubs.size id name⟩ := by
  rw [visit, h, hname]
  rfl

theorem visit_other (h : t.isKind .functionExpression id = false) (hname : assigned? t id = none) :
    visit t id scope ⟨waiting, stubs⟩ = ⟨entries t scope (t.children id) ++ waiting, stubs⟩ := by
  rw [visit, h, hname]
  rfl

end

mutual
/-- After some visits, no more than there are nodes, all that is below a node is visited. -/
theorem exists_run_eq_collect (hleafy : t.Leafy) {parent : Option NodeId} :
    (m : Rose (NodeId × Extent)) → t.Holds parent m →
      ∃ visits ≤ m.size, ∀ bound scope waiting stubs,
        run t (bound + visits) ⟨(m.label.1, scope) :: waiting, stubs⟩ =
          run t bound ⟨waiting, collect t scope stubs (m.map (·.1))⟩
  | .node (id, e) cs, hm => by
    obtain ⟨visits, hvisits, hrun⟩ := exists_run_eq_collectAll hleafy cs hm.2.2
    have hchildren : t.children id = cs.map (·.label.1) := hm.children_eq
    rw [Rose.map]
    cases hfunction : t.isKind .functionExpression id with
    | true =>
      refine ⟨1, Nat.le_add_left 1 _, fun bound scope waiting stubs => ?_⟩
      show run t bound (visit t id scope ⟨waiting, stubs⟩) = _
      rw [visit_function hfunction, collect, if_pos hfunction]
    | false =>
      refine ⟨visits + 1, Nat.succ_le_succ hvisits, fun bound scope waiting stubs => ?_⟩
      show run t (bound + visits) (visit t id scope ⟨waiting, stubs⟩) = _
      rw [collect, if_neg (Bool.eq_false_iff.mp hfunction)]
      cases hname : assigned? t id with
      | some name => rw [visit_assignment hfunction hname, hchildren, hrun]
      | none => rw [visit_other hfunction hname, hchildren, hrun]

theorem exists_run_eq_collectAll (hleafy : t.Leafy) {parent : NodeId} :
    (ms : List (Rose (NodeId × Extent))) → t.ForestHolds parent ms →
      ∃ visits ≤ Rose.forestSize ms, ∀ bound scope waiting stubs,
        run t (bound + visits) ⟨entries t scope (ms.map (·.label.1)) ++ waiting, stubs⟩ =
          run t bound ⟨waiting, collectAll t scope stubs (Rose.forestMap (·.1) ms)⟩
  | [], _ => ⟨0, Nat.le_refl 0, fun _ _ _ _ => rfl⟩
  | m :: ms, hms => by
    obtain ⟨visits, hvisits, hrun⟩ := exists_run_eq_collectAll hleafy ms hms.2
    by_cases htoken : t.isToken m.label.1 = true
    · -- A token does not wait, and nothing is declared at it.
      have hbare : m.map (·.1) = .node m.label.1 [] := by
        have hchildren := hms.1.children_eq
        rw [hleafy _ htoken] at hchildren
        obtain ⟨p, cs⟩ := m
        obtain rfl : cs = [] := List.map_eq_nil_iff.mp hchildren.symm
        rfl
      refine ⟨visits, Nat.le_trans hvisits (Nat.le_add_left _ _), ?_⟩
      intro bound scope waiting stubs
      rw [Rose.forestMap, collectAll, hbare, collect_token htoken, ← hrun, List.map_cons, entries,
        List.filter_cons_of_neg (by rw [htoken]; exact Bool.false_ne_true)]
      rfl
    · obtain ⟨first, hfirst, hrun'⟩ := exists_run_eq_collect hleafy m hms.1
      refine ⟨visits + first, by rw [Rose.forestSize]; omega, fun bound scope waiting stubs => ?_⟩
      rw [Rose.forestMap, collectAll, ← hrun, ← hrun', ← Nat.add_assoc, List.map_cons, entries,
        List.filter_cons_of_pos (by rw [Bool.eq_false_iff.mpr htoken]; rfl)]
      rfl
end

end Walk

/-- The stubs of a built tree are what the recursion over its places finds. -/
theorem ofTree_ofRose {text : String} {r : Rose Extent}
    (hleafy : (SyntaxTree.ofRose text r).Leafy) : ofTree (.ofRose text r) =
      ⟨collect (.ofRose text r) none #[] (SyntaxTree.ofRose text r).shape⟩ := by
  obtain ⟨visits, hvisits, hrun⟩ :=
    Walk.exists_run_eq_collect hleafy _ (SyntaxTree.holds_ofRose text r)
  rw [SyntaxTree.size_number, ← SyntaxTree.size_ofRose text] at hvisits
  rw [ofTree, SyntaxTree.root_ofRose, SyntaxTree.shape_ofRose, ← Nat.sub_add_cancel hvisits, hrun,
    Walk.run_nil]

theorem ofTree_eq_collect {text : String} {more : List Nat} {root : NodeKind}
    (hroot : root.tokenKind? = none) (hos : Outline.ForestPlain os)
    (h : significant 0 tokens = Outline.forestTokens os ++ more)
    (hbuild : SyntaxTree.build text tokens (Outline.node root os).events = .ok t) :
    ofTree t = ⟨collect t none #[] t.shape⟩ := by
  have hleafy := SyntaxTree.leafy_of_build hroot hos h hbuild
  obtain ⟨r, rfl⟩ := SyntaxTree.exists_ofRose_of_build hbuild
  exact ofTree_ofRose hleafy

end StubTree

end RSource
