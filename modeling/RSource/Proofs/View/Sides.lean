import RSource.Proofs.Tree.Order
import RSource.View.Assignment
import RSource.View.Operation

/-! The sides of an operator.  A node with an operator has one operand on each side, which may be an
error.  A search for an expression from either end comes to the operand of this side or stops at
the error in its place, so that it never crosses the operator. -/

namespace RSource

open scoped Computability

variable {t : SyntaxTree} {id left operator right e x : NodeId} {tokens : List Token}

namespace SyntaxTree

/-- The children that are not layout are two operands with an operator between them. -/
structure Sided (t : SyntaxTree) (id left operator right : NodeId) : Prop where
  row : t.significantChildren id = [left, operator, right]
  left : t.isOperand left
  operator : t.isOperator operator = true
  right : t.isOperand right

/-- The node is a child behind the operator, or before it. -/
def Beside (t : SyntaxTree) (id operator e : NodeId) (behind : Bool) : Prop :=
  if behind then [operator, e].Sublist (t.children id) else [e, operator].Sublist (t.children id)

instance (t : SyntaxTree) (id operator e : NodeId) (behind : Bool) :
    Decidable (t.Beside id operator e behind) :=
  inferInstanceAs (Decidable (if behind then _ else _))

theorem isOperator_of_isLayout (h : t.isLayout x = true) : t.isOperator x = false := by
  rw [isLayout] at h
  rw [isOperator]
  cases hkind : t.kind? x with
  | none => rfl
  | some kind =>
    rw [hkind] at h
    cases kind <;> first | rfl | cases h

theorem isOperand.isOperator_eq (h : t.isOperand x) : t.isOperator x = false := by
  by_contra hoperator
  have hkinds := kind_of_isOperator (by simpa using hoperator)
  rcases h with h | h
  · exact absurd h (by simp [hkinds])
  · exact absurd h (by simp [hkinds])

namespace Sided

variable (h : t.Sided id left operator right)
include h

theorem filter_eq : ((t.children id).filter fun c => t.isExpression c || t.isKind .error c) =
    [left, right] := by
  have hleft : (t.isExpression left || t.isKind .error left) = true := by
    rw [Bool.or_eq_true]
    exact h.left
  have hright : (t.isExpression right || t.isKind .error right) = true := by
    rw [Bool.or_eq_true]
    exact h.right
  rw [filter_operands, h.row]
  simp [hleft, hright, kind_of_isOperator h.operator]

theorem firstExpression?_eq : t.firstExpression? id = (some left).filter t.isExpression := by
  rw [firstExpression?, expressionBeforeError?_eq, h.filter_eq]
  rfl

theorem lastExpression?_eq : t.lastExpression? id = (some right).filter t.isExpression := by
  rw [lastExpression?, expressionBeforeError?_eq, List.filter_reverse, h.filter_eq]
  rfl

theorem expressions_eq : t.expressions id = [left, right].filter t.isExpression := by
  rw [expressions, filter_children fun _ => isExpression_of_isLayout, h.row]
  simp [List.filter_cons, (kind_of_isOperator h.operator).1]

theorem operator?_eq : t.operator? id = some operator := by
  rw [operator?, ← List.head?_filter, filter_children fun _ => isOperator_of_isLayout, h.row]
  simp [h.operator, h.left.isOperator_eq]

theorem childOfKind?_eq {kind : NodeKind} (hkind : kind.tokenKind? = none)
    (hoperator : t.kind? operator = some kind) : t.childOfKind? id kind = some operator := by
  have hhere : t.isKind kind operator = true := decide_eq_true hoperator
  have hleft : t.isKind kind left = false := by
    rw [isKind, decide_eq_false_iff_not]
    intro hkind
    have hnot := h.left.isOperator_eq
    rw [isOperator, hkind, ← hoperator, ← isOperator, h.operator] at hnot
    cases hnot
  rw [childOfKind?, ← List.head?_filter, filter_children fun _ => isKind_of_isLayout hkind, h.row]
  simp [hleft, hhere]

theorem beside (behind : Bool) :
    t.Beside id operator (if behind then right else left) behind := by
  cases behind <;> exact sublist_children (h.row ▸ by simp)

theorem eq_or_eq (hx : t.isOperand x) (hmem : x ∈ t.children id) : x = left ∨ x = right := by
  have hfilter : x ∈ (t.children id).filter fun c => t.isExpression c || t.isKind .error c :=
    List.mem_filter.mpr ⟨hmem, by rw [Bool.or_eq_true]; exact hx⟩
  rwa [h.filter_eq, List.mem_pair] at hfilter

/-- On each side of the operator stands only one operand. -/
theorem eq_of_beside (hnodup : (t.children id).Nodup) (hx : t.isOperand x) {behind : Bool}
    (hside : t.Beside id operator x behind) : x = if behind then right else left := by
  have hother := h.beside !behind
  cases behind with
  | false =>
    refine (h.eq_or_eq hx (hside.subset (by simp))).resolve_right ?_
    rintro rfl
    exact not_sublist_swap hnodup hother hside
  | true =>
    refine (h.eq_or_eq hx (hside.subset (by simp))).resolve_left ?_
    rintro rfl
    exact not_sublist_swap hnodup hother hside

/-- The operand on a side is handed out if it is an expression. -/
theorem beside_of_filter {behind : Bool}
    (he : (some (if behind then right else left)).filter t.isExpression = some e) :
    t.Beside id operator e behind := by
  rw [Option.filter_eq_some_iff, Option.some.injEq] at he
  exact he.1 ▸ h.beside behind

/-- An error on a side hides it. -/
theorem filter_eq_none (hnodup : (t.children id).Nodup) (hx : t.isKind .error x = true)
    {behind : Bool} (hside : t.Beside id operator x behind) :
    (some (if behind then right else left)).filter t.isExpression = none := by
  rw [← h.eq_of_beside hnodup (.inr hx) hside, Option.filter_some, if_neg]
  intro hexpression
  rw [isKind_error_of_isExpression hexpression] at hx
  cases hx

theorem left_ne_right (hnodup : (t.children id).Nodup) : left ≠ right := by
  have hrow := hnodup.sublist (List.filter_sublist (p := fun c => !t.isLayout c))
  rw [← significantChildren, h.row] at hrow
  rintro rfl
  simp at hrow

end Sided

/-- A row of three members, each with what is known of it. -/
theorem exists_members {K L M : Language Outline} {P Q R : NodeId → Prop}
    (h : t.Reads tokens (K * (L * M)) (t.significantChildren id))
    (hK : ∀ ns, t.Reads tokens K ns → ∃ n, ns = [n] ∧ P n)
    (hL : ∀ ns, t.Reads tokens L ns → ∃ n, ns = [n] ∧ Q n)
    (hM : ∀ ns, t.Reads tokens M ns → ∃ n, ns = [n] ∧ R n) :
    ∃ left operator right, t.significantChildren id = [left, operator, right] ∧
      P left ∧ Q operator ∧ R right := by
  obtain ⟨_, _, hrow, hleft, h⟩ := reads_mul.mp h
  obtain ⟨_, _, rfl, hoperator, hright⟩ := reads_mul.mp h
  obtain ⟨left, rfl, hp⟩ := hK _ hleft
  obtain ⟨operator, rfl, hq⟩ := hL _ hoperator
  obtain ⟨right, rfl, hr⟩ := hM _ hright
  exact ⟨left, operator, right, hrow, hp, hq, hr⟩

theorem isOperator_of_kind {kind : NodeKind} (h : t.kind? x = some kind)
    (hkind : kind.isOperator = true) : t.isOperator x = true := by
  rw [isOperator, h]
  exact hkind

end SyntaxTree

/-- The token of an operator is of one of the kinds that its row has. -/
theorem Grammar.Found.exists_operatorKind {text : String} {os : List Outline} {more : List Nat}
    {kind : NodeKind} {kinds : List TokenKind} (h : Grammar.Found tokens os more)
    (hbuild : SyntaxTree.build text tokens (Outline.node .file os).events = .ok t)
    (hid : t.kind? id = some kind) (hkind : kind.tokenKind? = none) (hfile : kind ≠ .file)
    (hrows : Production.children tokens .lenient kind = Production.token tokens kinds) :
    ∃ k ∈ kinds, t.operatorKind? id = some k := by
  obtain ⟨leaf, hleaf, -, k, hk, hnode⟩ := h.exists_tokenLeaf hbuild hid hkind hfile hrows
  refine ⟨k, hk, ?_⟩
  rw [SyntaxTree.operatorKind?, hleaf]
  simp [SyntaxTree.tokenKind?, hnode, NodeKind.tokenKind?]

namespace Assignment

/-- What an assignment hands out, with respect to its operator: the operator tells one direction,
what stands on its two sides is handed out as assignee and value, and an error on a side hides this
side. -/
structure Sides (t : SyntaxTree) (id operator : NodeId) : Prop where
  found : operator? t id = some operator
  direction : [isLeft t id, isRight t id, isEqual t id].count true = 1
  assignee : ∀ e, assignee? t id = some e → t.Beside id operator e (isRight t id)
  value : ∀ e, value? t id = some e → t.Beside id operator e (!isRight t id)
  differ : ∀ e, assignee? t id = some e → value? t id ≠ some e
  error : ∀ x, t.isKind .error x = true →
    (t.Beside id operator x (isRight t id) → assignee? t id = none) ∧
      (t.Beside id operator x (!isRight t id) → value? t id = none)

/-- Every token of an assignment operator tells one direction. -/
theorem count_directions {k : TokenKind}
    (hk : k ∈ [TokenKind.leftAssign, .leftSuperAssign, .colonAssign, .equal, .rightAssign,
      .rightSuperAssign]) :
    [k.isLeftAssign, k.isRightAssign, decide (k = .equal)].count true = 1 := by
  revert k
  decide

theorem sides_of_sided (h : t.Sided id left operator right) (hnodup : (t.children id).Nodup)
    (hoperator : t.kind? operator = some .assignOperator) {k : TokenKind}
    (hkind : t.operatorKind? operator = some k)
    (hk : k ∈ [TokenKind.leftAssign, .leftSuperAssign, .colonAssign, .equal, .rightAssign,
      .rightSuperAssign]) : Sides t id operator := by
  have hfound : operator? t id = some operator := h.childOfKind?_eq rfl hoperator
  have hkind : operatorKind? t id = some k := by rw [operatorKind?, hfound]; exact hkind
  have hassignee : assignee? t id =
      (some (if isRight t id then right else left)).filter t.isExpression := by
    rw [assignee?, h.firstExpression?_eq, h.lastExpression?_eq]
    cases isRight t id <;> rfl
  have hvalue : value? t id =
      (some (if !isRight t id then right else left)).filter t.isExpression := by
    rw [value?, h.firstExpression?_eq, h.lastExpression?_eq]
    cases isRight t id <;> rfl
  refine ⟨hfound, ?_, fun e he => h.beside_of_filter (hassignee ▸ he),
    fun e he => h.beside_of_filter (hvalue ▸ he), fun e he he' => ?_, fun x hx =>
    ⟨fun hside => hassignee ▸ h.filter_eq_none hnodup hx hside,
      fun hside => hvalue ▸ h.filter_eq_none hnodup hx hside⟩⟩
  · rw [isLeft, isRight, isEqual, hkind]
    simpa using count_directions hk
  · rw [hassignee, Option.filter_eq_some_iff, Option.some.injEq] at he
    rw [hvalue, Option.filter_eq_some_iff, Option.some.injEq] at he'
    have hne := h.left_ne_right hnodup
    have hsame := he.1.trans he'.1.symm
    cases hright : isRight t id <;> simp [hright] at hsame
    · exact hne hsame
    · exact hne hsame.symm

theorem exists_sided
    (h : t.Reads tokens (Production.children tokens .lenient .assignmentStatement)
      (t.significantChildren id)) :
    ∃ left operator right, t.Sided id left operator right ∧
      t.kind? operator = some .assignOperator := by
  obtain ⟨left, operator, right, hrow, hleft, hoperator, hright⟩ : ∃ left operator right,
      t.significantChildren id = [left, operator, right] ∧ t.isOperand left ∧
        t.kind? operator = some .assignOperator ∧ t.isOperand right := by
    rcases SyntaxTree.reads_add.mp h with h | h
    · exact SyntaxTree.exists_members h (fun _ hns => hns.expression) (fun _ hns => hns.operator)
        fun _ hns => hns.operand
    · exact SyntaxTree.exists_members h (fun _ hns => hns.expression) (fun _ hns => hns.operator)
        fun _ hns => hns.optional
  exact ⟨left, operator, right,
    ⟨hrow, hleft, SyntaxTree.isOperator_of_kind hoperator rfl, hright⟩, hoperator⟩

end Assignment

namespace Operation

theorem exists_sided {kind : NodeKind} (hkind : kind ∈ [.operatorExpression, .tildeExpression])
    (h : t.Reads tokens (Production.children tokens .lenient kind) (t.significantChildren id)) :
    ∃ left operator right, t.Sided id left operator right := by
  obtain ⟨kinds, hkinds, hrow⟩ : ∃ kinds : List NodeKind,
      (∀ kind ∈ kinds, kind.isOperator = true) ∧ Production.children tokens .lenient kind =
        Production.expression .lenient *
          (Production.node kinds * Production.operand .lenient) := by
    rcases List.mem_pair.mp hkind with rfl | rfl
    · exact ⟨Production.binaryOperators, by decide, rfl⟩
    · exact ⟨[.tildeOperator], by decide, rfl⟩
  rw [hrow] at h
  obtain ⟨left, operator, right, hrow, hleft, ⟨kind, hmem, hoperator⟩, hright⟩ :=
    SyntaxTree.exists_members h (fun _ hns => hns.expression) (fun _ hns => hns.node)
      fun _ hns => hns.operand
  exact ⟨left, operator, right, hrow, hleft,
    SyntaxTree.isOperator_of_kind hoperator (hkinds kind hmem), hright⟩

/-- Where two expressions are left, none of the operands is an error. -/
theorem eq_of_expressions (h : t.Sided id left operator right) {l r : NodeId}
    (hexpressions : t.expressions id = [l, r]) : l = left ∧ r = right := by
  have hsub : [l, r].Sublist [left, right] := by
    rw [← hexpressions, h.expressions_eq]
    exact List.filter_sublist
  have heq := hsub.eq_of_length rfl
  simp only [List.cons.injEq, and_true] at heq
  exact heq

theorem beside_of_left? (h : t.Sided id left operator right) (he : left? t id = some e) :
    t.Beside id operator e false := by
  rw [left?] at he
  split at he
  · rename_i hexpressions
    obtain rfl := Option.some.inj he
    exact (eq_of_expressions h hexpressions).1 ▸ h.beside false
  · cases he

theorem beside_of_right? (h : t.Sided id left operator right) (he : right? t id = some e) :
    t.Beside id operator e true := by
  rw [right?] at he
  split at he
  · rename_i hexpressions
    obtain rfl := Option.some.inj he
    exact (eq_of_expressions h hexpressions).2 ▸ h.beside true
  · cases he

end Operation

/-- Every assignment of a parsed tree has the assignee and the value on different sides of its
operator, which tells the sides apart, and every operation has its operands on their sides. -/
theorem sides_of_parse {text : String} {limit : Nat} {p : Parse}
    (hp : parse text limit = .ok p) (id : NodeId) :
    (p.tree.kind? id = some .assignmentStatement →
      ∃ operator, Assignment.Sides p.tree id operator) ∧
    ∀ kind ∈ [NodeKind.operatorExpression, .tildeExpression], p.tree.kind? id = some kind →
      ∃ operator, p.tree.operator? id = some operator ∧
        (∀ e, Operation.left? p.tree id = some e → p.tree.Beside id operator e false) ∧
        ∀ e, Operation.right? p.tree id = some e → p.tree.Beside id operator e true := by
  obtain ⟨os, more, hfound⟩ := Grammar.found (lex text)
  have hbuild := (parseTokens_eq_ok hfound hp).1
  have hnodup := SyntaxTree.nodup_children_of_build hbuild id
  constructor
  · intro hid
    obtain ⟨left, operator, right, hsided, hoperator⟩ :=
      Assignment.exists_sided (hfound.reads hbuild hid rfl (by decide))
    obtain ⟨k, hk, hkind⟩ :=
      hfound.exists_operatorKind hbuild hoperator rfl (by decide) rfl
    exact ⟨operator, Assignment.sides_of_sided hsided hnodup hoperator hkind hk⟩
  · intro kind hkind hid
    have hnode : kind.tokenKind? = none ∧ kind ≠ .file := by
      rcases List.mem_pair.mp hkind with rfl | rfl <;> decide
    obtain ⟨left, operator, right, hsided⟩ :=
      Operation.exists_sided hkind (hfound.reads hbuild hid hnode.1 hnode.2)
    exact ⟨operator, hsided.operator?_eq, fun e => Operation.beside_of_left? hsided,
      fun e => Operation.beside_of_right? hsided⟩

/-- An assignment whose value is an error, and one to the right whose value is a sum. -/
theorem sides_of_parse_directions : ∃ p first second sum,
    parse "a <- ,\n1 + b -> c" 1 = .ok p ∧
    (p.tree.kind? first = some .assignmentStatement ∧
      Assignment.value? p.tree first = none ∧
      ∃ operator, Assignment.Sides p.tree first operator) ∧
    (p.tree.kind? second = some .assignmentStatement ∧
      Assignment.value? p.tree second = some sum ∧ Assignment.isRight p.tree second = true ∧
      ∃ operator, Assignment.Sides p.tree second operator) ∧
    p.tree.kind? sum = some .operatorExpression ∧
    (Operation.left? p.tree sum).isSome ∧ (Operation.right? p.tree sum).isSome ∧
    ∃ operator, p.tree.operator? sum = some operator ∧
      (∀ e, Operation.left? p.tree sum = some e → p.tree.Beside sum operator e false) ∧
      ∀ e, Operation.right? p.tree sum = some e → p.tree.Beside sum operator e true := by
  have hparse : (parse "a <- ,\n1 + b -> c" 1).toOption.any (fun p =>
      ((List.range p.tree.size).any fun first =>
        p.tree.kind? first == some .assignmentStatement &&
          Assignment.value? p.tree first == none) &&
      (List.range p.tree.size).any fun second =>
        p.tree.kind? second == some .assignmentStatement && Assignment.isRight p.tree second &&
          (Assignment.value? p.tree second).any fun sum =>
            p.tree.kind? sum == some .operatorExpression &&
              (Operation.left? p.tree sum).isSome && (Operation.right? p.tree sum).isSome) =
      true := by
    decide +kernel
  obtain ⟨p, hp, hsome⟩ := exists_of_any_toOption hparse
  obtain ⟨hfirst, hsecond⟩ := Bool.and_eq_true_iff.mp hsome
  obtain ⟨first, -, hfirst⟩ := List.any_eq_true.mp hfirst
  obtain ⟨second, -, hsecond⟩ := List.any_eq_true.mp hsecond
  simp only [Bool.and_eq_true, beq_iff_eq, Option.any_eq_true] at hfirst hsecond
  obtain ⟨⟨hsecond, hright⟩, sum, hvalue, ⟨hsum, hleft⟩, hoperand⟩ := hsecond
  exact ⟨p, first, second, sum, hp,
    ⟨hfirst.1, hfirst.2, (sides_of_parse hp first).1 hfirst.1⟩,
    ⟨hsecond, hvalue, hright, (sides_of_parse hp second).1 hsecond⟩, hsum, hleft, hoperand,
    (sides_of_parse hp sum).2 _ (by simp) hsum⟩

end RSource
