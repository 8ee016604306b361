import Mathlib.Algebra.GroupWithZero.Nat
import RSource.Proofs.Stub.Walk

/-! How many stubs a source has.  Every stub is paid for by a token: an assignment by its operator,
and the parameters of a function by the tokens of its head, which the walk for stubs does not
enter. -/

namespace RSource

open Outline (forestTokens)
open scoped Computability

variable {tokens : List Token} {os : List Outline} {o : Outline}

theorem Outline.length_tokens_le (h : o ∈ os) : o.tokens.length ≤ (forestTokens os).length := by
  obtain ⟨before, after, rfl⟩ := List.append_of_mem h
  rw [Outline.forestTokens_append, List.length_append, forestTokens, List.length_append]
  omega

theorem length_significant_le (place : Nat) (tokens : List Token) :
    (significant place tokens).length ≤ tokens.length := by
  induction tokens generalizing place with
  | nil => exact Nat.le_refl _
  | cons t ts ih =>
    rw [significant]
    split
    · exact Nat.le_succ_of_le (ih _)
    · exact Nat.succ_le_succ (ih _)

/-! ### Rows -/

namespace Production

/-- The number of outlines of a kind in a row. -/
def countOf (kind : NodeKind) (os : List Outline) : Nat := os.countP (·.kind? = some kind)

/-- Every row has so many more tokens than parameters. -/
def Exceeds (d : Int) (L : Language Outline) : Prop :=
  ∀ os ∈ L, (countOf .parameter os : Int) + d ≤ (forestTokens os).length

variable {d e : Int} {L M : Language Outline}

theorem Exceeds.mono (h : Exceeds d L) (hle : e ≤ d) : Exceeds e L := by
  intro os hos
  have := h os hos
  omega

theorem Exceeds.add (h : Exceeds d L) (h' : Exceeds d M) : Exceeds d (L + M) :=
  fun os hos => hos.elim (h os) (h' os)

theorem Exceeds.mul (h : Exceeds d L) (h' : Exceeds e M) : Exceeds (d + e) (L * M) := by
  rintro _ ⟨os, hos, ps, hps, rfl⟩
  have := h os hos
  have := h' ps hps
  simp only [countOf, List.countP_append, Outline.forestTokens_append, List.length_append] at *
  omega

theorem exceeds_one : Exceeds 0 1 := by
  rintro _ rfl
  decide

theorem Exceeds.kstar (h : Exceeds 0 L) : Exceeds 0 L∗ := by
  rintro _ ⟨rows, rfl, hrows⟩
  induction rows with
  | nil => exact exceeds_one _ rfl
  | cons row rows ih =>
    obtain ⟨hrow, hrows⟩ := List.forall_mem_cons.mp hrows
    have := h row hrow
    have := ih hrows
    simp only [countOf, List.flatten_cons, List.countP_append, Outline.forestTokens_append,
      List.length_append] at *
    omega

theorem exceeds_token (kinds : List TokenKind) : Exceeds 1 (token tokens kinds) := by
  rintro _ ⟨i, t, rfl, -, -⟩
  exact Int.le_refl 1

theorem exceeds_node (kind : NodeKind) : Exceeds (-1) (node [kind]) := by
  rintro _ ⟨kind, cs, rfl, -⟩
  have := List.countP_le_length (p := fun o : Outline => o.kind? = some .parameter)
    (l := [.node kind cs])
  simp only [countOf, List.length_singleton] at *
  omega

/-- A parameter list has at least as many tokens as parameters. -/
theorem countOf_parameter_le (h : os ∈ children tokens .lenient .parameterList) :
    countOf .parameter os ≤ (forestTokens os).length := by
  have hmore : Exceeds 0 (token tokens [.comma] * node [.parameter])∗ :=
    ((exceeds_token _).mul (exceeds_node _)).kstar
  have hseparated : Exceeds (-1) (separated tokens (node [.parameter])) :=
    (exceeds_one.mono (by decide)).add ((exceeds_node _).mul hmore)
  have hwanted : Exceeds 0 (wanted tokens .lenient .rightParen) :=
    ((exceeds_token _).mono (by decide)).add exceeds_one
  have hrows : Exceeds 0 (children tokens .lenient .parameterList) :=
    ((exceeds_token _).mul (hseparated.mul hwanted)).add exceeds_one
  simpa using hrows os h

end Production

/-- The stubs that an outline may pay for.  A leaf of the row pays for none, and the operator of an
assignment has paid for the assignment. -/
def Outline.credit : Outline → Nat
  | .token _ => 0
  | .node kind os => if kind = .assignOperator then 0 else (forestTokens os).length

theorem Outline.credit_le (o : Outline) : o.credit ≤ o.tokens.length := by
  cases o with
  | token i => exact Nat.zero_le _
  | node kind os =>
    rw [credit]
    split
    · exact Nat.zero_le _
    · exact Nat.le_refl _

theorem Outline.sum_credit_le (os : List Outline) :
    (os.map credit).sum ≤ (forestTokens os).length := by
  induction os with
  | nil => exact Nat.le_refl _
  | cons o os ih =>
    have := o.credit_le
    simp only [List.map_cons, List.sum_cons, forestTokens, List.length_append]
    omega

theorem Production.sum_credit_lt (h : os ∈ children tokens .lenient .assignmentStatement) :
    (os.map Outline.credit).sum < (forestTokens os).length := by
  -- Both rows have an operator in the middle, whose token is not part of the sum.
  obtain ⟨left, op, right, ⟨kinds, _, rfl, i, t, rfl, -, -⟩, rfl⟩ : ∃ left op right,
      (∃ kinds, op ∈ operator tokens .assignOperator kinds) ∧ os = left ++ (op ++ right) := by
    rcases h with ⟨left, -, _, ⟨op, hop, right, -, rfl⟩, rfl⟩ |
      ⟨left, -, _, ⟨op, hop, right, -, rfl⟩, rfl⟩
    · exact ⟨left, op, right, ⟨_, hop⟩, rfl⟩
    · exact ⟨left, op, right, ⟨_, hop⟩, rfl⟩
  have hleft := Outline.sum_credit_le left
  have hright := Outline.sum_credit_le right
  have hcredit : (Outline.node .assignOperator [.token i]).credit = 0 := rfl
  have htokens : (forestTokens [.node .assignOperator [.token i]]).length = 1 := rfl
  simp only [List.map_append, List.sum_append, List.map_singleton, List.sum_singleton, hcredit,
    Outline.forestTokens_append, List.length_append, htokens]
  omega

theorem Production.sum_credit_le {kind : NodeKind} (h : os ∈ children tokens .lenient kind) :
    (os.map Outline.credit).sum ≤ (Outline.node kind os).credit := by
  rw [Outline.credit]
  split
  · next hkind =>
    subst hkind
    obtain ⟨i, t, rfl, -, -⟩ := h
    exact Nat.le_refl _
  · exact Outline.sum_credit_le os

/-- A kind stands as often below a node as in its row. -/
theorem Builder.ForestDressed.length_filter_isKind {t : SyntaxTree} {parent : Option NodeId}
    {ms : List (Rose (NodeId × Extent))} {kind : NodeKind} (hkind : kind.tokenKind? = none)
    (h : ForestDressed tokens os (Rose.forestMap (·.2) ms)) (hms : ∀ m ∈ ms, t.Holds parent m) :
    ((ms.map (·.label.1)).filter (t.isKind kind)).length = Production.countOf kind os := by
  obtain ⟨ns, hns, hfilter⟩ := h.exists_members hms
  rw [hfilter _ fun _ _ hleaf => SyntaxTree.isKind_of_leaf hleaf hkind,
    ← List.countP_eq_length_filter]
  clear h hms hfilter
  induction hns with
  | nil => rfl
  | cons hn _ ih =>
    rw [List.map_cons, List.countP_cons, hn.1.isKind_eq hn.2 hkind, ih, Production.countOf,
      Production.countOf, List.countP_cons]

namespace StubTree

open Builder

variable {ms : List (Rose (NodeId × Extent))} {t : SyntaxTree} {parent : Option NodeId}

/-- The parameters of a function count at the function. -/
def weight (t : SyntaxTree) (id : NodeId) : Nat :=
  if t.isKind .functionExpression id then (Function.parameters t id).length else 0

theorem mem_of_expressionBeforeError? {ids : List NodeId} {id : NodeId}
    (h : t.expressionBeforeError? ids = some id) : id ∈ ids :=
  (List.takeWhile_sublist _).mem (List.mem_of_find?_eq_some h)

/-- An assignment declares the parameters that count below it. -/
theorem length_parameters_le (id : NodeId) :
    (((Assignment.function? t id).map (Function.parameters t)).getD []).length ≤
      ((t.children id).map (weight t)).sum := by
  cases hfunction : Assignment.function? t id with
  | none => exact Nat.zero_le _
  | some f =>
    obtain ⟨hvalue, hkind⟩ := Option.filter_eq_some_iff.mp hfunction
    have hmem : f ∈ t.children id := by
      rw [Assignment.value?] at hvalue
      split at hvalue
      · exact mem_of_expressionBeforeError? hvalue
      · exact List.mem_reverse.mp (mem_of_expressionBeforeError? hvalue)
    have hweight : weight t f = (Function.parameters t f).length := if_pos hkind
    obtain ⟨before, after, hchildren⟩ := List.append_of_mem hmem
    rw [hchildren, List.map_append, List.sum_append, List.map_cons, List.sum_cons, hweight,
      Option.map_some, Option.getD_some]
    omega

/-- A function has no more parameters than tokens. -/
theorem length_parameters_le_tokens {m : Rose (NodeId × Extent)} (hm : t.Holds parent m)
    (hos : Outline.ForestDerived tokens .lenient os)
    (hdressed : ForestDressed tokens os (Rose.forestMap (·.2) m.children)) :
    (Function.parameters t m.label.1).length ≤ (forestTokens os).length := by
  rw [Function.parameters]
  cases hlist : Function.parameterList? t m.label.1 with
  | none => exact Nat.zero_le _
  | some list =>
    have hkind := List.find?_some hlist
    have hmem := List.mem_of_find?_eq_some hlist
    rw [hm.children_eq] at hmem
    obtain ⟨c, hc, rfl⟩ := List.mem_map.mp hmem
    have hchild := hm.child hc
    have hc' : c.map (·.2) ∈ Rose.forestMap (·.2) m.children := by
      rw [Rose.forestMap_eq_map]
      exact List.mem_map_of_mem hc
    rcases hdressed.of_mem hc' with ⟨x, hx⟩ | ⟨o, ho, hdressed⟩
    · have hleaf := (exists_leaf_of_map hchild hx).1
      rw [SyntaxTree.isKind, hleaf] at hkind
      exact absurd hkind (by simp)
    · rw [hdressed.isKind_eq hchild rfl, decide_eq_true_eq] at hkind
      obtain ⟨qs, rfl⟩ : ∃ qs, o = .node .parameterList qs := by
        cases o with
        | token i => cases hkind
        | node kind qs => exact ⟨qs, by rw [Option.some.inj hkind]⟩
      obtain ⟨hrow, -⟩ := hos.of_mem ho
      have hparameter : NodeKind.parameter.tokenKind? = none := rfl
      have hcount := hdressed.forest.length_filter_isKind hparameter fun n => hchild.child
      have hle := Outline.length_tokens_le ho
      have hrow := Production.countOf_parameter_le hrow
      rw [Option.map_some, Option.getD_some, ParameterList.parameters, hchild.children_eq]
      exact Nat.le_trans (Nat.le_of_eq hcount) (Nat.le_trans hrow hle)

/-! ### The walk -/

theorem weight_leaf {m : Rose (NodeId × Extent)} {x : Token} (hm : t.Holds parent m)
    (h : m.map (·.2) = leaf x) : weight t m.label.1 = 0 := by
  rw [weight, SyntaxTree.isKind_of_leaf (exists_leaf_of_map hm h).1 rfl]
  rfl

theorem collectAll_leaves (hms : ∀ m ∈ ms, t.Holds parent m)
    (hleaves : ∀ m ∈ ms, ∃ x, m.map (·.2) = leaf x) (scope : Option StubId) (stubs : Array Stub) :
    collectAll t scope stubs (Rose.forestMap (·.1) ms) = stubs := by
  induction ms with
  | nil => rfl
  | cons m ms ih =>
    obtain ⟨x, hx⟩ := hleaves m List.mem_cons_self
    rw [Rose.forestMap, collectAll, collect_leaf (hms m List.mem_cons_self) hx]
    exact ih (fun n hn => hms n (List.mem_cons_of_mem _ hn))
      fun n hn => hleaves n (List.mem_cons_of_mem _ hn)

/-- The walk over a row goes to its first member and then to the others. -/
theorem collectAll_dressed (hms : ∀ m ∈ ms, t.Holds parent m)
    (h : ForestDressed tokens (o :: os) (Rose.forestMap (·.2) ms)) :
    ∃ m rest, t.Holds parent m ∧ Dressed tokens o (m.map (·.2)) ∧
      (∀ n ∈ rest, t.Holds parent n) ∧ ForestDressed tokens os (Rose.forestMap (·.2) rest) ∧
      ∀ scope stubs, collectAll t scope stubs (Rose.forestMap (·.1) ms) =
        collectAll t scope (collect t scope stubs (m.map (·.1))) (Rose.forestMap (·.1) rest) := by
  obtain ⟨layout, m, rest, rfl, hlayout, hm, hrest⟩ := h.exists_split
  refine ⟨m, rest, hms m (by simp), hm, fun n hn => hms n (by simp [hn]), hrest,
    fun scope stubs => ?_⟩
  rw [Rose.forestMap_append, collectAll_append,
    collectAll_leaves (fun n hn => hms n (by simp [hn])) fun l hl =>
      (hlayout l hl).imp fun _ => And.right]
  rfl

/-- The stubs below a node and the parameters that count at it are paid for by its outline. -/
def Paid (t : SyntaxTree) (o : Outline) (m : Rose (NodeId × Extent)) : Prop :=
  ∀ scope stubs,
    (collect t scope stubs (m.map (·.1))).size + weight t m.label.1 ≤ stubs.size + o.credit

def ForestPaid (t : SyntaxTree) (os : List Outline) (ms : List (Rose (NodeId × Extent))) : Prop :=
  ∀ scope stubs,
    (collectAll t scope stubs (Rose.forestMap (·.1) ms)).size +
      (ms.map fun m => weight t m.label.1).sum ≤ stubs.size + (os.map Outline.credit).sum

theorem size_appendList (stubs : Array Stub) (more : List Stub) :
    (stubs ++ more).size = stubs.size + more.length := by
  rw [← Array.length_toList, Array.toList_appendList, List.length_append, Array.length_toList]

theorem length_declared (scope : Option StubId) (place : StubId) (id name : NodeId) :
    (declared t scope place id name).length =
      (((Assignment.function? t id).map (Function.parameters t)).getD []).length + 1 := by
  rw [declared, List.length_cons, List.length_map]

/-- The operator of an assignment pays for it, and the function for its parameters. -/
theorem size_declared_le {id : NodeId} {e : Extent} {cs : List (Rose (NodeId × Extent))}
    (hm : t.Holds parent (.node (id, e) cs))
    (hrow : os ∈ Production.children tokens .lenient .assignmentStatement)
    (hpaid : ForestPaid t os cs) (scope : Option StubId) (stubs : Array Stub) (name : NodeId) :
    (collectAll t (some stubs.size) (stubs ++ declared t scope stubs.size id name)
        (Rose.forestMap (·.1) cs)).size ≤
      stubs.size + (Outline.node .assignmentStatement os).credit := by
  have hchildren := hpaid (some stubs.size) (stubs ++ declared t scope stubs.size id name)
  have hcredits := Production.sum_credit_lt hrow
  have hparameters := length_parameters_le (t := t) id
  have hsize := size_appendList stubs (declared t scope stubs.size id name)
  have hsum :
      ((t.children id).map (weight t)).sum = (cs.map fun m => weight t m.label.1).sum := by
    rw [show t.children id = cs.map (·.label.1) from hm.children_eq, List.map_map]
    rfl
  have hcredit : (Outline.node .assignmentStatement os).credit = (forestTokens os).length := rfl
  rw [length_declared] at hsize
  omega

theorem paid_node {kind : NodeKind} {id : NodeId} {e : Extent} {cs : List (Rose (NodeId × Extent))}
    (hm : t.Holds parent (.node (id, e) cs))
    (hdressed : Dressed tokens (.node kind os) (.node e (Rose.forestMap (·.2) cs)))
    (hderived : (Outline.node kind os).Derived tokens .lenient) (hpaid : ForestPaid t os cs) :
    Paid t (.node kind os) (.node (id, e) cs) := by
  have hkind {k : NodeKind} (hk : k.tokenKind? = none) :
      t.isKind k id = decide (some kind = some k) :=
    Dressed.isKind_eq (m := .node (id, e) cs) hdressed hm hk
  have hrow := Production.sum_credit_le hderived.1
  intro scope stubs
  simp only [Rose.map, Rose.label, collect]
  -- The walk does not enter a function, so all its tokens are left to pay for its parameters.
  by_cases hfunction : t.isKind .functionExpression id = true
  · have hparameters := length_parameters_le_tokens hm hderived.2 hdressed.forest
    have hweight : weight t id = (Function.parameters t id).length := if_pos hfunction
    rw [if_pos hfunction, hweight]
    rw [hkind rfl, decide_eq_true_eq, Option.some.injEq] at hfunction
    subst hfunction
    exact Nat.add_le_add_left hparameters _
  · have hweight : weight t id = 0 := if_neg hfunction
    rw [if_neg hfunction, hweight, Nat.add_zero]
    cases hassigned : assigned? t id with
    | none =>
      have hchildren := hpaid scope stubs
      simp only
      omega
    | some name =>
      have hassignment : t.isKind .assignmentStatement id = true := by
        by_contra h
        rw [assigned?, if_neg h] at hassigned
        cases hassigned
      rw [hkind rfl, decide_eq_true_eq, Option.some.injEq] at hassignment
      subst hassignment
      exact size_declared_le hm hderived.1 hpaid scope stubs name

mutual
theorem paid : (o : Outline) → o.Derived tokens .lenient → ∀ {m parent}, t.Holds parent m →
    Dressed tokens o (m.map (·.2)) → Paid t o m
  | .token i, _, m, parent, hm, hdressed => by
    generalize htree : m.map (·.2) = tree at hdressed
    cases hdressed with
    | token hget =>
      intro scope stubs
      rw [weight_leaf hm htree, collect_leaf hm htree]
      exact Nat.le_refl _
  | .node kind os, hderived, .node (id, e) cs, parent, hm, hdressed =>
    paid_node hm hdressed hderived
      (forestPaid os hderived.2 (fun _ => hm.child) (Dressed.forest hdressed))

theorem forestPaid : (os : List Outline) → Outline.ForestDerived tokens .lenient os →
    ∀ {ms parent}, (∀ m ∈ ms, t.Holds parent m) →
    ForestDressed tokens os (Rose.forestMap (·.2) ms) → ForestPaid t os ms
  | [], _, ms, _, _, hdressed => by
    obtain rfl := hdressed.eq_nil
    exact fun _ _ => Nat.le_refl _
  | o :: os, hderived, ms, parent, hms, hdressed => by
    obtain ⟨layout, m, rest, rfl, hlayout, hm, hrest⟩ := hdressed.exists_split
    have hfirst := paid o hderived.1 (hms m (by simp)) hm
    have hmore := forestPaid os hderived.2 (fun n hn => hms n (by simp [hn])) hrest
    intro scope stubs
    have hleaves := collectAll_leaves (fun n hn => hms n (by simp [hn]))
      (fun l hl => (hlayout l hl).imp fun _ => And.right) scope stubs
    have hweights : (layout.map fun n => weight t n.label.1).sum = 0 := by
      refine List.sum_eq_zero_iff_forall_eq_nat.mpr fun n hn => ?_
      obtain ⟨l, hl, rfl⟩ := List.mem_map.mp hn
      obtain ⟨x, -, hx⟩ := hlayout l hl
      exact weight_leaf (hms l (by simp [hl])) hx
    have hfirst := hfirst scope stubs
    have hmore := hmore scope (collect t scope stubs (m.map (·.1)))
    simp only [Rose.forestMap_append, Rose.forestMap, collectAll_append, hleaves, collectAll,
      List.map_append, List.map_cons, List.sum_append, List.sum_cons, hweights]
    omega
end

/-- Below the file stands a row, and behind it only leaves. -/
theorem collect_of_row {id : NodeId} {e : Extent} {leaves : List (Rose (NodeId × Extent))}
    (hm : t.Holds none (.node (id, e) (ms ++ leaves))) (hfile : t.kind? id = some .file)
    (hshape : t.shape = (Rose.node (id, e) (ms ++ leaves)).map (·.1))
    (hleaves : ∀ m ∈ leaves, ∃ x, m.map (·.2) = leaf x) :
    collect t none #[] t.shape = collectAll t none #[] (Rose.forestMap (·.1) ms) := by
  have hnone {k : NodeKind} (hk : k ≠ .file) : t.isKind k id = false := by
    rw [SyntaxTree.isKind, hfile]
    exact decide_eq_false fun h => hk (Option.some.inj h).symm
  rw [hshape, Rose.map, collect, hnone (by decide), assigned?, hnone (by decide)]
  simp only [Bool.false_eq_true, if_false, Rose.forestMap_append, collectAll_append,
    collectAll_leaves (fun n hn => hm.child (List.mem_append_right ms hn)) hleaves]

/-- A tree has at most one stub for each token. -/
theorem size_ofTree_le {text : String} {more : List Nat} (h : Grammar.Found tokens os more)
    (hbuild : SyntaxTree.build text tokens (Outline.node .file os).events = .ok t) :
    (ofTree t).size ≤ tokens.length := by
  obtain ⟨id, e, ms, leaves, hholds, hfile, hshape, hdressed, hleaves⟩ :=
    SyntaxTree.exists_root h.plain h.significant hbuild
  have hrow := forestPaid os h.lenient.2 (fun n hn => hholds.child (List.mem_append_left _ hn))
    hdressed none #[]
  have hcredit := Outline.sum_credit_le os
  have hsignificant := congrArg List.length h.significant
  have hlength := length_significant_le 0 tokens
  rw [List.length_append] at hsignificant
  have hroot : NodeKind.file.tokenKind? = none := rfl
  rw [ofTree_eq_collect hroot h.plain h.significant hbuild,
    collect_of_row hholds (hfile ▸ hholds.kind?_eq) hshape hleaves]
  simp only [size, List.size_toArray, List.length_nil] at hrow ⊢
  omega

end StubTree

end RSource
