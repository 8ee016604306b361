import RSource.Proofs.Tree.Significant
import RSource.Proofs.View.Parentheses

/-! The order of a node's children.  A token among them and what stands before or behind it are
found in the row of the node, where there is no layout; a search for an expression behind the token
ends at the member right behind it, unless this member is an error. -/

namespace RSource

variable {t : SyntaxTree} {id a c e : NodeId} {k j : TokenKind} {front back : List NodeId}

namespace SyntaxTree

/-- The node is a child behind the first token of the kind. -/
def Behind (t : SyntaxTree) (id : NodeId) (k : TokenKind) (e : NodeId) : Prop :=
  ∃ a, t.childToken? id k = some a ∧ [a, e].Sublist (t.children id)

/-- The node is a child before the first token of the kind, if there is one. -/
def Ahead (t : SyntaxTree) (id : NodeId) (k : TokenKind) (e : NodeId) : Prop :=
  ∀ a, t.childToken? id k = some a → [e, a].Sublist (t.children id)

/-- Between the first token of the kind and the node stands an error. -/
def PastError (t : SyntaxTree) (id : NodeId) (k : TokenKind) (e : NodeId) : Prop :=
  ∃ a x, t.childToken? id k = some a ∧ t.isKind .error x = true ∧
    [a, x, e].Sublist (t.children id)

/-- No node of the list is a token of the kind. -/
def Lacks (t : SyntaxTree) (k : TokenKind) (ns : List NodeId) : Prop :=
  ∀ n ∈ ns, t.isTokenOf k n = false

@[simp] theorem lacks_nil : t.Lacks k [] := fun _ h => absurd h List.not_mem_nil

@[simp] theorem lacks_cons {ns : List NodeId} :
    t.Lacks k (a :: ns) ↔ t.isTokenOf k a = false ∧ t.Lacks k ns := List.forall_mem_cons

@[simp] theorem lacks_append {ns ms : List NodeId} :
    t.Lacks k (ns ++ ms) ↔ t.Lacks k ns ∧ t.Lacks k ms := List.forall_mem_append

theorem isTokenOf_eq (h : t.kind? a = some (.token j)) : t.isTokenOf k a = decide (j = k) := by
  rw [isTokenOf, tokenKind?, h]
  simp [NodeKind.tokenKind?]

theorem isKind_token : t.isKind (.token k) a = t.isTokenOf k a := by
  rw [isKind, isTokenOf, tokenKind?]
  cases t.kind? a with
  | none => rfl
  | some kind => cases kind <;> simp [NodeKind.tokenKind?]

theorem isOperand.isTokenOf_eq (h : t.isOperand c) : t.isTokenOf k c = false := by
  rw [← isKind_token, isKind, decide_eq_false_iff_not]
  intro hkind
  rw [isOperand, isExpression, isKind, hkind] at h
  rcases h with h | h <;> cases h

/-! Layout is no token of the grammar, no expression and no node. -/

theorem isTokenOf_of_isLayout (hk : k.isLayout = false) (h : t.isLayout a = true) :
    t.isTokenOf k a = false := by
  rw [← isKind_token, isKind, decide_eq_false_iff_not]
  intro hkind
  rw [isLayout, hkind] at h
  simp [NodeKind.isLayout, NodeKind.tokenKind?, hk] at h

theorem isKind_of_isLayout {kind : NodeKind} (hkind : kind.tokenKind? = none)
    (h : t.isLayout c = true) : t.isKind kind c = false := by
  rw [isKind, decide_eq_false_iff_not]
  intro hc
  rw [isLayout, hc] at h
  simp [NodeKind.isLayout, hkind] at h

theorem isExpression_of_isLayout (h : t.isLayout c = true) : t.isExpression c = false := by
  rw [isLayout] at h
  rw [isExpression]
  cases hkind : t.kind? c with
  | none => rfl
  | some kind =>
    rw [hkind] at h
    cases kind <;> first | rfl | cases h

/-- What a search drops before its start and does not find may be left out of the list. -/
theorem find?_dropWhile_filter {p q r : NodeId → Bool} (h : ∀ n, r n = false → p n = true)
    (h' : ∀ n, r n = false → q n = false) (ns : List NodeId) :
    ((ns.filter r).dropWhile p).find? q = (ns.dropWhile p).find? q := by
  induction ns with
  | nil => rfl
  | cons n ns ih =>
    rw [List.filter_cons, List.dropWhile_cons]
    cases hr : r n with
    | false =>
      rw [if_neg Bool.false_ne_true, h n hr, if_pos rfl]
      exact ih
    | true =>
      rw [if_pos rfl, List.dropWhile_cons]
      cases hp : p n with
      | true => exact ih
      | false =>
        rw [if_neg Bool.false_ne_true, if_neg Bool.false_ne_true, List.find?_cons, List.find?_cons,
          List.find?_filter]
        cases q n with
        | true => rfl
        | false =>
          refine List.find?_congr fun m _ => ?_
          cases hm : r m with
          | true => simp
          | false => simp [h' m hm]

/-- A search behind a token of the row needs only the members of the row. -/
theorem expressionAfter?_eq (hk : k.isLayout = false) : t.expressionAfter? id k =
    ((t.significantChildren id).dropWhile fun n => !t.isTokenOf k n).find? t.isExpression := by
  refine (find?_dropWhile_filter (fun n hn => ?_) (fun n hn => ?_) _).symm
  all_goals rw [Bool.not_eq_false'] at hn
  · rw [isTokenOf_of_isLayout hk hn]
    rfl
  · exact isExpression_of_isLayout hn

/-- What a search takes but does not find may be left out of the list. -/
theorem find?_takeWhile_filter {p q r : NodeId → Bool} (h : ∀ n, r n = false → p n = true)
    (h' : ∀ n, r n = false → q n = false) (ns : List NodeId) :
    ((ns.filter r).takeWhile p).find? q = (ns.takeWhile p).find? q := by
  induction ns with
  | nil => rfl
  | cons n ns ih =>
    rw [List.filter_cons, List.takeWhile_cons]
    cases hr : r n with
    | false =>
      rw [if_neg Bool.false_ne_true, h n hr, if_pos rfl, List.find?_cons, h' n hr]
      exact ih
    | true =>
      rw [if_pos rfl, List.takeWhile_cons]
      cases p n with
      | false => rfl
      | true => rw [if_pos rfl, if_pos rfl, List.find?_cons, List.find?_cons, ih]

theorem childToken?_eq (hk : k.isLayout = false) :
    t.childToken? id k = (t.significantChildren id).find? (t.isTokenOf k) := by
  rw [childToken?, childOfKind?, significantChildren, List.find?_filter]
  refine List.find?_congr fun n _ => ?_
  rw [isKind_token]
  cases hlayout : t.isLayout n with
  | false => simp
  | true => simp [isTokenOf_of_isLayout hk hlayout]

theorem dropWhile_of_lacks {ns : List NodeId} (h : t.Lacks k front) :
    (front ++ ns).dropWhile (fun n => !t.isTokenOf k n) =
      ns.dropWhile fun n => !t.isTokenOf k n :=
  List.dropWhile_append_of_pos fun n hn => by rw [h n hn]; rfl

theorem expressionAfter?_eq_none (hk : k.isLayout = false)
    (h : t.Lacks k (t.significantChildren id)) : t.expressionAfter? id k = none := by
  have hdrop : (t.significantChildren id ++ []).dropWhile (fun n => !t.isTokenOf k n) = [] :=
    dropWhile_of_lacks h
  rw [List.append_nil] at hdrop
  rw [expressionAfter?_eq hk, hdrop]
  rfl

theorem childToken?_eq_none (hk : k.isLayout = false)
    (h : t.Lacks k (t.significantChildren id)) : t.childToken? id k = none := by
  rw [childToken?_eq hk, List.find?_eq_none]
  exact fun n hn => by rw [h n hn]; exact Bool.false_ne_true

theorem childToken?_eq_some (hk : k.isLayout = false)
    (hrow : t.significantChildren id = front ++ a :: back) (hfront : t.Lacks k front)
    (ha : t.kind? a = some (.token k)) : t.childToken? id k = some a := by
  rw [childToken?_eq hk, hrow, List.find?_append, List.find?_eq_none.mpr fun n hn => by
    rw [hfront n hn]; exact Bool.false_ne_true, List.find?_cons_of_pos]
  · rfl
  · rw [isTokenOf_eq ha, decide_eq_true rfl]

theorem sublist_children {ns : List NodeId} (h : ns.Sublist (t.significantChildren id)) :
    ns.Sublist (t.children id) := h.trans List.filter_sublist

theorem behind_of_row (hk : k.isLayout = false)
    (hrow : t.significantChildren id = front ++ a :: back) (hfront : t.Lacks k front)
    (ha : t.kind? a = some (.token k)) (he : e ∈ back) : t.Behind id k e := by
  refine ⟨a, childToken?_eq_some hk hrow hfront ha, sublist_children ?_⟩
  rw [hrow]
  exact ((List.singleton_sublist.mpr he).cons_cons a).trans (List.sublist_append_right _ _)

theorem ahead_of_row (hk : k.isLayout = false)
    (hrow : t.significantChildren id = front ++ e :: back) (hfront : t.Lacks k (front ++ [e])) :
    t.Ahead id k e := by
  intro a ha
  rw [childToken?_eq hk] at ha
  have hmem := List.mem_of_find?_eq_some ha
  have htoken := List.find?_some ha
  have hback : a ∈ back := by
    rw [hrow, List.append_cons, List.mem_append] at hmem
    rcases hmem with hmem | hmem
    · rw [hfront a hmem] at htoken
      cases htoken
    · exact hmem
  refine sublist_children ?_
  rw [hrow]
  exact ((List.singleton_sublist.mpr hback).cons_cons e).trans (List.sublist_append_right _ _)

/-- A filter that keeps no layout needs only the members of the row. -/
theorem filter_children {q : NodeId → Bool} (h : ∀ n, t.isLayout n = true → q n = false) :
    (t.children id).filter q = (t.significantChildren id).filter q := by
  rw [significantChildren, List.filter_filter]
  refine List.filter_congr fun n _ => ?_
  cases hlayout : t.isLayout n with
  | false => simp
  | true => simp [h n hlayout]

theorem filter_operands : ((t.children id).filter fun c => t.isExpression c || t.isKind .error c) =
    (t.significantChildren id).filter fun c => t.isExpression c || t.isKind .error c := by
  refine filter_children fun n hn => ?_
  rw [isExpression_of_isLayout hn, isKind_of_isLayout rfl hn]
  rfl

theorem firstExpression?_eq : t.firstExpression? id =
    ((t.significantChildren id).filter fun c =>
      t.isExpression c || t.isKind .error c).head?.filter t.isExpression := by
  rw [firstExpression?, expressionBeforeError?_eq, filter_operands]

theorem pastError_of_row (hk : k.isLayout = false)
    (hrow : t.significantChildren id = front ++ a :: c :: back) (hfront : t.Lacks k front)
    (ha : t.kind? a = some (.token k)) (hc : t.isKind .error c = true) (he : e ∈ back) :
    t.PastError id k e := by
  refine ⟨a, c, childToken?_eq_some hk hrow hfront ha, hc, sublist_children ?_⟩
  rw [hrow]
  exact (((List.singleton_sublist.mpr he).cons_cons c).cons_cons a).trans
    (List.sublist_append_right _ _)

/-- The operand right behind the token is handed out, unless it is an error. -/
theorem expressionAfter?_cases (hk : k.isLayout = false)
    (hrow : t.significantChildren id = front ++ a :: c :: back) (hfront : t.Lacks k front)
    (ha : t.kind? a = some (.token k)) (hc : t.isOperand c)
    (he : t.expressionAfter? id k = some e) : e = c ∨ t.PastError id k e ∧ e ∈ back := by
  have hthere : t.isTokenOf k a = true := by rw [isTokenOf_eq ha, decide_eq_true rfl]
  have hnot : t.isExpression a = false := by rw [isExpression, ha]; rfl
  rw [expressionAfter?_eq hk, hrow, dropWhile_of_lacks hfront, List.dropWhile_cons, hthere,
    Bool.not_true, if_neg Bool.false_ne_true, List.find?_cons_of_neg (by simp [hnot])] at he
  cases hexpression : t.isExpression c with
  | true =>
    rw [List.find?_cons_of_pos hexpression] at he
    exact .inl (Option.some.inj he).symm
  | false =>
    rw [List.find?_cons_of_neg (by simp [hexpression])] at he
    have hback := List.mem_of_find?_eq_some he
    have herror : t.isKind .error c = true := hc.resolve_left (by simp [hexpression])
    exact .inr ⟨pastError_of_row hk hrow hfront ha herror hback, hback⟩

/-- In a list without repetition two members have one order only. -/
theorem not_sublist_swap {ns : List NodeId} (hnodup : ns.Nodup) (h : [a, e].Sublist ns) :
    ¬ [e, a].Sublist ns := by
  induction ns with
  | nil => cases h
  | cons n ns ih =>
    obtain ⟨hn, hnodup⟩ := List.nodup_cons.mp hnodup
    intro h'
    rw [List.cons_sublist_cons', List.singleton_sublist] at h h'
    rcases h with h | ⟨rfl, he⟩
    · rcases h' with h' | ⟨rfl, ha⟩
      · exact ih hnodup h h'
      · exact hn (h.subset (by simp))
    · rcases h' with h' | ⟨rfl, -⟩
      · exact hn (h'.subset (by simp))
      · exact hn he

theorem Behind.not_ahead (hnodup : (t.children id).Nodup) (h : t.Behind id k e) :
    ¬ t.Ahead id k e := by
  obtain ⟨a, ha, hsub⟩ := h
  exact fun h' => not_sublist_swap hnodup hsub (h' a ha)

end SyntaxTree

end RSource
