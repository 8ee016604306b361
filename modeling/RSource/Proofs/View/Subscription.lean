import RSource.Proofs.Tree.Order
import RSource.View.Operation

/-! Subscripts.  The object stands before the opening bracket and the indices behind it.  The first
argument among the children is left out of the indices as the object; where an error stands in the
place of the object, this is the first index. -/

namespace RSource

open scoped Computability

variable {t : SyntaxTree} {id object opening : NodeId} {before after : List NodeId}
variable {tokens : List Token}

namespace SyntaxTree

/-- Where the members of a row that are kept begin with two, the list is cut at the second. -/
theorem exists_cut {q : NodeId → Bool} {ns rest : List NodeId} {a b : NodeId}
    (h : ns.filter q = a :: b :: rest) : ∃ before after, ns = before ++ b :: after ∧
      before.filter q = [a] ∧ after.filter q = rest := by
  obtain ⟨front, back, rfl, hfront, ha, hback⟩ := List.filter_eq_cons_iff.mp h
  obtain ⟨middle, after, rfl, hmiddle, -, hafter⟩ := List.filter_eq_cons_iff.mp hback
  refine ⟨front ++ a :: middle, after, by simp, ?_, hafter⟩
  rw [List.filter_append, List.filter_cons_of_pos ha, List.filter_eq_nil_iff.mpr hfront,
    List.filter_eq_nil_iff.mpr hmiddle, List.nil_append]

end SyntaxTree

namespace Subscription

/-- The node is the token of a bracket that opens a subscript. -/
def IsOpening (t : SyntaxTree) (n : NodeId) : Prop :=
  ∃ k ∈ [TokenKind.leftBracket, .leftDoubleBracket], t.kind? n = some (.token k)

/-- The children of a subscript, cut at the opening bracket: before it stands only the object,
besides layout. -/
structure Row (t : SyntaxTree) (id object : NodeId) (before : List NodeId) (opening : NodeId)
    (after : List NodeId) : Prop where
  children : t.children id = before ++ opening :: after
  opening : IsOpening t opening
  before : (before.filter fun c => !t.isLayout c) = [object]
  object : t.isOperand object

theorem isOpening_iff {n : NodeId} : IsOpening t n ↔
    t.isTokenOf .leftBracket n = true ∨ t.isTokenOf .leftDoubleBracket n = true := by
  simp [IsOpening, ← SyntaxTree.isKind_token, SyntaxTree.isKind]

theorem not_isOpening_of_isLayout {n : NodeId} (h : t.isLayout n = true) : ¬ IsOpening t n := by
  rw [isOpening_iff, SyntaxTree.isTokenOf_of_isLayout rfl h, SyntaxTree.isTokenOf_of_isLayout rfl h]
  decide

theorem not_isOpening_of_isOperand {n : NodeId} (h : t.isOperand n) : ¬ IsOpening t n := by
  rw [isOpening_iff, h.isTokenOf_eq, h.isTokenOf_eq]
  decide

theorem isArgument_of_isLayout {n : NodeId} (h : t.isLayout n = true) :
    ArgumentList.isArgument t n = false := by
  rw [ArgumentList.isArgument, SyntaxTree.isExpression_of_isLayout h,
    SyntaxTree.isKind_of_isLayout rfl h]
  rfl

/-- An operand is an argument if it is an expression. -/
theorem isArgument_of_isOperand {n : NodeId} (h : t.isOperand n) :
    ArgumentList.isArgument t n = t.isExpression n := by
  cases hexpression : t.isExpression n with
  | true => rw [ArgumentList.isArgument, hexpression, Bool.true_or]
  | false =>
    have herror : t.kind? n = some .error := by
      simpa [SyntaxTree.isOperand, hexpression, SyntaxTree.isKind] using h
    rw [ArgumentList.isArgument, hexpression, SyntaxTree.isKind, herror]
    rfl

theorem exists_row (h : t.Reads tokens
    (Production.children tokens .lenient .subscriptionExpression) (t.significantChildren id)) :
    ∃ object before opening after, Row t id object before opening after := by
  obtain ⟨ns, rest, hrow, hobject, hbehind⟩ := SyntaxTree.reads_mul.mp h
  obtain ⟨object, rfl, hoperand⟩ := hobject.expression
  obtain ⟨opening, back, rfl, hopening⟩ :
      ∃ opening back, rest = opening :: back ∧ IsOpening t opening := by
    rcases SyntaxTree.reads_add.mp hbehind with h | h
    all_goals
      obtain ⟨_, back, rfl, hbracket, -⟩ := SyntaxTree.reads_mul.mp h
      obtain ⟨opening, rfl, k, hk, hkind⟩ := hbracket.token
      obtain rfl := List.mem_singleton.mp hk
      exact ⟨opening, back, rfl, _, by decide, hkind⟩
  obtain ⟨before, after, hchildren, hbefore, -⟩ := SyntaxTree.exists_cut hrow
  exact ⟨object, before, opening, after, hchildren, hopening, hbefore, hoperand⟩

namespace Row

variable (h : Row t id object before opening after)
include h

theorem mem_before : object ∈ before :=
  List.filter_sublist.subset (h.before ▸ List.mem_singleton_self object)

theorem eq_or_isLayout {c : NodeId} (hc : c ∈ before) : c = object ∨ t.isLayout c = true := by
  cases hlayout : t.isLayout c with
  | true => exact .inr rfl
  | false =>
    have hmem : c ∈ before.filter fun c => !t.isLayout c :=
      List.mem_filter.mpr ⟨hc, by rw [hlayout]; rfl⟩
    rw [h.before, List.mem_singleton] at hmem
    exact .inl hmem

theorem not_isOpening {c : NodeId} (hc : c ∈ before) : ¬ IsOpening t c := by
  rcases h.eq_or_isLayout hc with rfl | hlayout
  · exact not_isOpening_of_isOperand h.object
  · exact not_isOpening_of_isLayout hlayout

/-- Before the bracket a filter that keeps no layout can keep only the object. -/
theorem filter_before {q : NodeId → Bool} (hq : ∀ n, t.isLayout n = true → q n = false) :
    before.filter q = [object].filter q := by
  rw [← h.before, List.filter_filter]
  refine List.filter_congr fun c _ => ?_
  cases hc : t.isLayout c with
  | true => simp [hq c hc]
  | false => simp

/-- The object is handed out if it is an expression. -/
theorem object?_eq : object? t id = (some object).filter t.isExpression := by
  have hobject : (t.isExpression object || t.isKind .error object) = true := by
    rw [Bool.or_eq_true]
    exact h.object
  rw [object?, SyntaxTree.firstExpression?, SyntaxTree.expressionBeforeError?_eq, h.children,
    List.filter_append, h.filter_before fun c hc => by
      rw [SyntaxTree.isExpression_of_isLayout hc, SyntaxTree.isKind_of_isLayout rfl hc,
        Bool.or_self],
    List.filter_singleton, hobject]
  rfl

theorem object?_isSome : (object? t id).isSome = t.isExpression object := by
  rw [h.object?_eq, Option.filter_some]
  cases t.isExpression object with
  | true => rfl
  | false => rfl

/-- An error stands before the bracket where there is no object to hand out. -/
theorem object?_eq_none_iff : object? t id = none ↔ ∃ c ∈ before, t.isKind .error c = true := by
  rw [← Option.not_isSome_iff_eq_none, h.object?_isSome]
  refine ⟨fun hnot => ⟨object, h.mem_before, h.object.resolve_left hnot⟩, ?_⟩
  rintro ⟨c, hc, herror⟩ hexpression
  rcases h.eq_or_isLayout hc with rfl | hlayout
  · rw [SyntaxTree.isKind_error_of_isExpression hexpression] at herror
    cases herror
  · rw [SyntaxTree.isKind_of_isLayout rfl hlayout] at herror
    cases herror

/-- The arguments among the children are the object, if it is an expression, and those behind the
bracket. -/
theorem arguments_eq : ArgumentList.arguments t id =
    [object].filter t.isExpression ++ after.filter (ArgumentList.isArgument t) := by
  have hopening : ArgumentList.isArgument t opening = false := by
    obtain ⟨k, -, hkind⟩ := h.opening
    rw [ArgumentList.isArgument, SyntaxTree.isExpression, SyntaxTree.isKind, hkind]
    rfl
  rw [ArgumentList.arguments, h.children, List.filter_append,
    h.filter_before fun c => isArgument_of_isLayout,
    List.filter_cons_of_neg (a := opening) (by simp [hopening]), List.filter_singleton,
    List.filter_singleton, isArgument_of_isOperand h.object]

/-- What is left out as the object is the first index where the object is an error. -/
theorem indices_eq : indices t id = if (object? t id).isSome
    then after.filter (ArgumentList.isArgument t)
    else (after.filter (ArgumentList.isArgument t)).drop 1 := by
  rw [indices, h.arguments_eq, h.object?_isSome, List.filter_singleton]
  cases t.isExpression object with
  | true => rfl
  | false => rfl

end Row

/-- For every subscript of a parsed tree the object that is handed out stands before the opening
bracket, and the indices are the arguments behind it, unless an error stands in the place of the
object: there is no object then, and the first of the arguments is left out. -/
theorem indices_of_parse {text : String} {limit : Nat} {p : Parse}
    (hp : parse text limit = .ok p) (hid : p.tree.kind? id = some .subscriptionExpression) :
    ∃ before opening after, p.tree.children id = before ++ opening :: after ∧
      IsOpening p.tree opening ∧ (∀ c ∈ before, ¬ IsOpening p.tree c) ∧
      (∀ e, object? p.tree id = some e → e ∈ before) ∧
      (object? p.tree id = none ↔ ∃ c ∈ before, p.tree.isKind .error c = true) ∧
      indices p.tree id = if (object? p.tree id).isSome
        then after.filter (ArgumentList.isArgument p.tree)
        else (after.filter (ArgumentList.isArgument p.tree)).drop 1 := by
  obtain ⟨os, more, hfound⟩ := Grammar.found (lex text)
  have hbuild := (parseTokens_eq_ok hfound hp).1
  obtain ⟨object, before, opening, after, hrow⟩ :=
    exists_row (hfound.reads hbuild hid rfl (by decide))
  refine ⟨before, opening, after, hrow.children, hrow.opening, fun c => hrow.not_isOpening,
    fun e he => ?_, hrow.object?_eq_none_iff, hrow.indices_eq⟩
  rw [hrow.object?_eq, Option.filter_eq_some_iff, Option.some.injEq] at he
  exact he.1 ▸ hrow.mem_before

/-- A subscript of a subscript, with a name, a slot that is left empty, and no closing bracket. -/
theorem indices_of_parse_empty : ∃ p, parse "x[1][[a = 2, " 1 = .ok p ∧
    p.tree.kind? 20 = some .subscriptionExpression ∧ (indices p.tree 20).length = 2 ∧
    ∃ before opening after, p.tree.children 20 = before ++ opening :: after ∧
      IsOpening p.tree opening ∧ (∀ c ∈ before, ¬ IsOpening p.tree c) ∧
      (∀ e, object? p.tree 20 = some e → e ∈ before) ∧
      (object? p.tree 20 = none ↔ ∃ c ∈ before, p.tree.isKind .error c = true) ∧
      indices p.tree 20 = if (object? p.tree 20).isSome
        then after.filter (ArgumentList.isArgument p.tree)
        else (after.filter (ArgumentList.isArgument p.tree)).drop 1 := by
  have hparse : (parse "x[1][[a = 2, " 1).toOption.any (fun p =>
      p.tree.kind? 20 == some .subscriptionExpression && (indices p.tree 20).length == 2) =
      true := by
    decide +kernel
  obtain ⟨p, hp, hsome⟩ := exists_of_any_toOption hparse
  rw [Bool.and_eq_true, beq_iff_eq, beq_iff_eq] at hsome
  exact ⟨p, hp, hsome.1, hsome.2, indices_of_parse hp hsome.1⟩

/-- The object of the subscript is an error, and its only index is not among the indices. -/
theorem indices_dropped : ∃ p, parse "€[1]" 1 = .ok p ∧
    p.tree.kind? 6 = some .subscriptionExpression ∧ p.tree.children 6 = [1] ++ 2 :: [4, 5] ∧
    p.tree.kind? 2 = some (.token .leftBracket) ∧ p.tree.isExpression 4 = true ∧
    indices p.tree 6 = [] := by
  have hparse : (parse "€[1]" 1).toOption.any (fun p =>
      p.tree.kind? 6 == some .subscriptionExpression && p.tree.children 6 == [1] ++ 2 :: [4, 5] &&
        p.tree.kind? 2 == some (.token .leftBracket) && p.tree.isExpression 4 &&
        indices p.tree 6 == []) = true := by
    decide +kernel
  obtain ⟨p, hp, hsome⟩ := exists_of_any_toOption hparse
  simp only [Bool.and_eq_true, beq_iff_eq] at hsome
  obtain ⟨⟨⟨⟨hkind, hchildren⟩, hopening⟩, hindex⟩, hindices⟩ := hsome
  exact ⟨p, hp, hkind, hchildren, hopening, hindex, hindices⟩

end Subscription

end RSource
