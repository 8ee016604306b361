import RSource.Proofs.Grammar.Regroup
import RSource.Proofs.Tree.OfTerm
import RSource.View.Parentheses

/-! The table of how tightly nodes bind, beside the grammar.  Where no operand of a term needs
parentheses, the term is parsed as it stands, unless an operator that groups to the right has its
own level on its left, or an assignment to the left stands beside `=`: there the table and the
grammar differ. -/

namespace RSource

open Builder (Dressed)

variable {t : SyntaxTree} {parent : Option NodeId} {id left operator right c : NodeId}
variable {tokens : List Token} {place : Nat} {m : Rose (NodeId × Extent)}

/-! ### The operands of a node -/

namespace SyntaxTree

theorem isKind_error_of_isExpression (h : t.isExpression c = true) : t.isKind .error c = false := by
  rw [isKind, decide_eq_false_iff_not]
  intro herror
  rw [isExpression, herror] at h
  cases h

/-- A search for an expression sees only expressions and errors. -/
theorem expressionBeforeError?_eq (ids : List NodeId) : t.expressionBeforeError? ids =
    (ids.filter fun c => t.isExpression c || t.isKind .error c).head?.filter t.isExpression := by
  induction ids with
  | nil => rfl
  | cons c ids ih =>
    rw [expressionBeforeError?, List.takeWhile_cons, List.filter_cons]
    cases hexpression : t.isExpression c with
    | true =>
      rw [isKind_error_of_isExpression hexpression]
      simp [hexpression, Option.filter_some]
    | false =>
      cases herror : t.isKind .error c with
      | true => simp [hexpression, Option.filter_some]
      | false =>
        rw [expressionBeforeError?] at ih
        simpa [hexpression] using ih

/-- Among the children of the node are two operands and an operator between them, and else only
leaves. -/
structure Joins (t : SyntaxTree) (id left operator right : NodeId) : Prop where
  members : ∀ q : NodeId → Bool, (∀ id k, t.kind? id = some (.token k) → q id = false) →
    (t.children id).filter q = [left, operator, right].filter q
  left : t.isExpression left = true
  right : t.isExpression right = true
  operator : t.isOperator operator = true

theorem kind_of_isOperator (h : t.isOperator c = true) :
    t.isExpression c = false ∧ t.isKind .error c = false := by
  rw [isOperator] at h
  rw [isExpression, isKind]
  cases hkind : t.kind? c with
  | none => exact ⟨rfl, rfl⟩
  | some kind =>
    rw [hkind] at h
    cases kind
    all_goals first
      | exact ⟨rfl, rfl⟩
      | cases h

theorem isOperator_of_isExpression (h : t.isExpression c = true) : t.isOperator c = false := by
  by_contra hoperator
  rw [(kind_of_isOperator (by simpa using hoperator)).1] at h
  cases h

namespace Joins

variable (h : t.Joins id left operator right)

include h

theorem expressions_eq : t.expressions id = [left, right] := by
  rw [expressions, h.members _ fun c k hc => by rw [isExpression, hc]; rfl]
  simp [h.left, h.right, (kind_of_isOperator h.operator).1]

theorem filter_eq : ((t.children id).filter fun c => t.isExpression c || t.isKind .error c) =
    [left, right] := by
  rw [h.members _ fun c k hc => by rw [isExpression, isKind, hc]; rfl]
  simp [h.left, h.right, kind_of_isOperator h.operator]

theorem firstExpression?_eq : t.firstExpression? id = some left := by
  rw [firstExpression?, expressionBeforeError?_eq, h.filter_eq]
  simp [h.left, Option.filter_some]

theorem lastExpression?_eq : t.lastExpression? id = some right := by
  rw [lastExpression?, expressionBeforeError?_eq, List.filter_reverse, h.filter_eq]
  simp [h.right, Option.filter_some]

theorem operator?_eq : t.operator? id = some operator := by
  rw [operator?, ← List.head?_filter, h.members _ fun c k hc => by rw [isOperator, hc]; rfl]
  simp [h.operator, isOperator_of_isExpression h.left]

theorem childOfKind?_eq {kind : NodeKind} (hkind : kind.isOperator = true)
    (hoperator : t.kind? operator = some kind) : t.childOfKind? id kind = some operator := by
  have hleaf : kind.tokenKind? = none := by
    cases kind
    all_goals first
      | rfl
      | cases hkind
  have hleft : t.isKind kind left = false := by
    rw [isKind, decide_eq_false_iff_not]
    intro hleft
    have hnone := isOperator_of_isExpression h.left
    rw [isOperator, hleft] at hnone
    exact absurd hkind (by simpa using hnone)
  have hhere : t.isKind kind operator = true := by simp [isKind, hoperator]
  rw [childOfKind?, ← List.head?_filter, h.members _ fun c k hc => isKind_of_leaf hc hleaf]
  simp [hleft, hhere]

end Joins

end SyntaxTree

/-- The operator of an assignment that joins two expressions. -/
theorem SyntaxTree.Joins.assignmentOperator (h : t.Joins id left operator right)
    (hoperator : t.kind? operator = some .assignOperator) :
    Assignment.operatorKind? t id = t.operatorKind? operator := by
  rw [Assignment.operatorKind?, Assignment.operator?, h.childOfKind?_eq rfl hoperator,
    Option.bind_some]

/-! ### Terms in a tree -/

theorem Builder.Dressed.operatorKind?_eq {kind : NodeKind} {i : Nat} {x : Token}
    (h : Dressed tokens (.node kind [.token i]) (m.map (·.2))) (hm : t.Holds parent m)
    (hx : tokens[i]? = some x) : t.operatorKind? m.label.1 = some x.kind := by
  obtain ⟨y, hy, hnode⟩ := h.of_singleton
  obtain rfl := Option.some.inj (hx.symm.trans hy)
  obtain ⟨p, cs⟩ := m
  obtain ⟨-, hcs⟩ := Rose.node.inj hnode
  rw [Rose.forestMap_eq_map, List.map_eq_singleton_iff] at hcs
  obtain ⟨c, rfl, hc⟩ := hcs
  have hkind := (exists_leaf_of_map (hm.child List.mem_cons_self) hc).1
  rw [SyntaxTree.operatorKind?, hm.children_eq]
  simp [Rose.children, SyntaxTree.tokenKind?, hkind, NodeKind.tokenKind?]

/-- A node around two expressions and an operator joins them. -/
theorem Builder.Dressed.exists_joins {kind leftKind operatorKind rightKind : NodeKind}
    {ls rs : List Outline} {i : Nat} {x : Token}
    (h : Dressed tokens (.node kind [.node leftKind ls, .node operatorKind [.token i],
      .node rightKind rs]) (m.map (·.2))) (hm : t.Holds parent m)
    (hl : leftKind.isExpression = true) (ho : operatorKind.isOperator = true)
    (hr : rightKind.isExpression = true) (hx : tokens[i]? = some x) :
    ∃ left operator right : Rose (NodeId × Extent),
      t.Joins m.label.1 left.label.1 operator.label.1 right.label.1 ∧
      t.kind? operator.label.1 = some operatorKind ∧
      t.operatorKind? operator.label.1 = some x.kind ∧
      (t.Holds (some m.label.1) left ∧
        Dressed tokens (.node leftKind ls) (left.map (·.2))) ∧
      (t.Holds (some m.label.1) right ∧
        Dressed tokens (.node rightKind rs) (right.map (·.2))) := by
  obtain ⟨ns, hns, hfilter⟩ := h.forest.exists_members fun n => hm.child
  obtain ⟨left, operator, right, rfl, hleft, hoperator, hright⟩ : ∃ left operator right,
      ns = [left, operator, right] ∧
      (Dressed tokens (.node leftKind ls) (left.map (·.2)) ∧ t.Holds (some m.label.1) left) ∧
      (Dressed tokens (.node operatorKind [.token i]) (operator.map (·.2)) ∧
        t.Holds (some m.label.1) operator) ∧
      (Dressed tokens (.node rightKind rs) (right.map (·.2)) ∧
        t.Holds (some m.label.1) right) := by
    rcases hns with _ | ⟨hleft, _ | ⟨hoperator, _ | ⟨hright, ⟨⟩⟩⟩⟩
    exact ⟨_, _, _, rfl, hleft, hoperator, hright⟩
  have hnode := hoperator.1.kind?_eq hoperator.2
  refine ⟨left, operator, right, ⟨fun q hq => ?_, ?_, ?_, ?_⟩, hnode,
    hoperator.1.operatorKind?_eq hoperator.2 hx, hleft.symm, hright.symm⟩
  · rw [hm.children_eq, hfilter q hq]
    rfl
  · rw [SyntaxTree.isExpression, hleft.1.kind?_eq hleft.2]
    exact hl
  · rw [SyntaxTree.isExpression, hright.1.kind?_eq hright.2]
    exact hr
  · rw [SyntaxTree.isOperator, hnode]
    exact ho

namespace Term

variable {e l r : Term} {op : Operator}

/-- Where a term with an operator stands in a tree, its operands stand below it. -/
theorem exists_joins (hm : t.Holds parent m)
    (h : Dressed tokens ((binary op l r).outline place) (m.map (·.2)))
    (hkinds : Alternate tokens place (binary op l r).kinds) :
    ∃ left operator right : Rose (NodeId × Extent),
      t.Joins m.label.1 left.label.1 operator.label.1 right.label.1 ∧
      t.kind? operator.label.1 = some op.level.operatorNode ∧
      t.operatorKind? operator.label.1 = some op.kind ∧
      (t.Holds (some m.label.1) left ∧
        Dressed tokens (l.outline place) (left.map (·.2))) ∧
      (t.Holds (some m.label.1) right ∧
        Dressed tokens (r.outline (place + 2 * l.words.length + 2)) (right.map (·.2))) := by
  obtain ⟨-, ⟨x, hx, hkind⟩, -⟩ := hkinds.operands
  obtain ⟨ls, hl⟩ := l.exists_outline place
  obtain ⟨rs, hr⟩ := r.exists_outline (place + 2 * l.words.length + 2)
  have hoperator : op.level.operatorNode.isOperator = true := by cases op.level <;> rfl
  rw [outline, hl, hr] at h
  rw [hl, hr, ← hkind]
  exact h.exists_joins hm l.isExpression_node hoperator r.isExpression_node hx

end Term

/-! ### The table -/

/-- How tightly the table has the operators of a level bind. -/
def Level.binding : Level → Binding
  | leftArrow => .leftAssign
  | equal => .equalAssign
  | rightArrow => .rightAssign
  | formula => .tilde
  | disjunction => .or
  | conjunction => .and
  | comparison => .comparison
  | sum => .sum
  | product => .product
  | special => .special
  | range => .range
  | power => .power

/-- The three kinds of node with two operands, and how the table tells how tightly each binds. -/
theorem Operator.node_cases (op : Operator) :
    (op.level.node = .assignmentStatement ∧ op.level.operatorNode = .assignOperator ∧
      op.level.binding = if op.kind.isRightAssign then .rightAssign
        else if op.kind.isLeftAssign then .leftAssign else .equalAssign) ∨
    (op.level.node = .operatorExpression ∧ op.level.binding = .ofOperator op.kind) ∨
    (op.level.node = .tildeExpression ∧ op.level.binding = .tilde) := by
  obtain ⟨entry, hentry, hkind⟩ := Grammar.exists_symbol op
  have hall : ∀ level : Level, ∀ entry ∈ level.symbols,
      (level.node = .assignmentStatement ∧ level.operatorNode = .assignOperator ∧
        level.binding = if entry.2.isRightAssign then .rightAssign
          else if entry.2.isLeftAssign then .leftAssign else .equalAssign) ∨
      (level.node = .operatorExpression ∧ level.binding = .ofOperator entry.2) ∨
      (level.node = .tildeExpression ∧ level.binding = .tilde) := by
    intro level
    cases level <;> decide
  rw [← hkind]
  exact hall op.level entry hentry

namespace Term

variable {e l r : Term} {op : Operator}

/-- How tightly the table has the term bind. -/
def binding : Term → Binding
  | binary operator .. => operator.level.binding
  | _ => .atom

theorem binding_of (e : Term) (hm : t.Holds parent m)
    (h : Dressed tokens (e.outline place) (m.map (·.2)))
    (hkinds : Alternate tokens place e.kinds) : Binding.of t m.label.1 = e.binding := by
  have hnode : t.kind? m.label.1 = some e.node := by
    obtain ⟨os, hos⟩ := e.exists_outline place
    rw [hos] at h
    exact h.kind?_eq hm
  cases e with
  | name word => rw [Binding.of, hnode]; rfl
  | number word => rw [Binding.of, hnode]; rfl
  | group inner => rw [Binding.of, hnode]; rfl
  | binary op l r =>
    obtain ⟨left, operator, right, hjoins, hoperator, hkind, -, -⟩ := exists_joins hm h hkinds
    rw [binding, Binding.of, hnode, node]
    rcases op.node_cases with ⟨hassign, hassignOperator, hbinding⟩ | ⟨hbinary, hbinding⟩ |
      ⟨htilde, hbinding⟩
    · rw [hassignOperator] at hoperator
      have hsymbol : Assignment.operatorKind? t m.label.1 = some op.kind :=
        (hjoins.assignmentOperator hoperator).trans hkind
      rw [hassign, hbinding]
      simp [Assignment.isRight, Assignment.isLeft, hsymbol]
    · rw [hbinary, hbinding]
      simp [hjoins.operator?_eq, hkind]
    · rw [htilde, hbinding]

/-- The right operand stands where the table takes no operator to group by itself. -/
theorem onWeakSide_right (hm : t.Holds parent m)
    (h : Dressed tokens ((binary op l r).outline place) (m.map (·.2)))
    (hjoins : t.Joins m.label.1 left operator right) (hne : left ≠ right) :
    onWeakSide t m.label.1 right = true := by
  have hnode : t.kind? m.label.1 = some op.level.node :=
    (show Dressed tokens (.node _ _) _ from h).kind?_eq hm
  rw [onWeakSide, hnode]
  rcases op.node_cases with ⟨hassign, -, -⟩ | ⟨hbinary, -⟩ | ⟨htilde, -⟩
  · rw [hassign]
    simp only [Assignment.assignee?, Assignment.value?, hjoins.lastExpression?_eq]
    split <;> simp_all
  · rw [hbinary]
    simp [Operation.right?, hjoins.expressions_eq]
  · rw [htilde]
    simp [hjoins.firstExpression?_eq, hne]

/-- Every operand binds tightly enough for the table, in which every operator groups to the left. -/
def Bound : Term → Prop
  | name _ | number _ => True
  | group inner => inner.Bound
  | binary operator left right => left.Bound ∧ right.Bound ∧
    left.binding.rank ≤ operator.level.binding.rank ∧
    right.binding.rank < operator.level.binding.rank

/-- Where the grammar and the table agree: no operand stands left of an operator of its own level
that groups to the right, and no assignment to the left stands beside `=`. -/
def Aligned : Term → Prop
  | name _ | number _ => True
  | group inner => inner.Aligned
  | binary operator left right => left.Aligned ∧ right.Aligned ∧
    (operator.level.grouping = .right → left.rank ≠ operator.level.rank) ∧
    (operator.level = .equal →
      left.rank ≠ Level.leftArrow.rank ∧ right.rank ≠ Level.leftArrow.rank)

end Term

/-- The levels of the table are those of the grammar, but for `=` and the assignments to the left,
which have changed places. -/
theorem Level.rank_le_of_binding {a b : Level} (h : b.binding.rank ≤ a.binding.rank)
    (hne : a = .equal → b.rank ≠ leftArrow.rank) : a.rank ≤ b.rank := by
  revert h hne
  cases a <;> cases b <;> decide

theorem le_of_needsParentheses {p : NodeId} (h : needsParentheses t id = false)
    (hparent : t.parent? id = some p) (hatom : Binding.of t p ≠ .atom)
    (hindexing : Binding.of t p ≠ .indexing) :
    (Binding.of t id).rank ≤ (Binding.of t p).rank ∧
      (onWeakSide t p id = true → (Binding.of t id).rank < (Binding.of t p).rank) := by
  rw [needsParentheses, hparent] at h
  simp only [hatom, if_false, hindexing, decide_false, Bool.false_and, Bool.false_eq_true] at h
  split at h
  · next hlt => exact ⟨hlt.le, fun _ => hlt⟩
  · split at h
    · cases h
    · next hge => exact ⟨Nat.le_of_not_lt hge, fun hweak => by rw [h] at hweak; cases hweak⟩

theorem Level.binding_ne (level : Level) : level.binding ≠ .atom ∧ level.binding ≠ .indexing := by
  cases level <;> decide

namespace Term

variable {e l r : Term} {op : Operator}

theorem rank_le_of_binding {level : Level} (h : e.binding.rank ≤ level.binding.rank)
    (hne : level = .equal → e.rank ≠ Level.leftArrow.rank) : level.rank ≤ e.rank := by
  cases e with
  | binary op l r => exact Level.rank_le_of_binding h hne
  | _ => exact (rank_lt level).le

theorem rank_ne_of_binding {level : Level} (h : e.binding.rank < level.binding.rank) :
    level.rank ≠ e.rank := by
  cases e with
  | binary op l r =>
    intro hrank
    rw [rank_injective hrank] at h
    exact Nat.lt_irrefl _ h
  | _ => exact (rank_lt level).ne

/-- What binds tightly enough for the table does so for the grammar, where the two agree. -/
theorem Bound.ordered {e : Term} (he : e.Bound) (haligned : e.Aligned) : e.Ordered := by
  induction e with
  | name word => trivial
  | number word => trivial
  | group inner ih => exact ih he haligned
  | binary operator left right ihl ihr =>
    obtain ⟨hleft, hright, hle, hlt⟩ := he
    obtain ⟨hleft', hright', hgroups, hequal⟩ := haligned
    have hl := rank_le_of_binding hle fun h => (hequal h).1
    have hr := rank_le_of_binding hlt.le fun h => (hequal h).2
    refine ⟨ihl hleft hleft', ihr hright hright', ?_⟩
    cases hgrouping : operator.level.grouping with
    | left => exact ⟨hl, lt_of_le_of_ne hr (rank_ne_of_binding hlt)⟩
    | right => exact ⟨lt_of_le_of_ne hl (hgroups hgrouping).symm, hr⟩

theorem Ordered.aligned {e : Term} (he : e.Ordered) : e.Aligned := by
  induction e with
  | name word => trivial
  | number word => trivial
  | group inner ih => exact ih he
  | binary operator left right ihl ihr =>
    obtain ⟨hleft, hright, hranks⟩ := he
    refine ⟨ihl hleft, ihr hright, fun hgrouping => ?_, fun hequal => ?_⟩
    · rw [hgrouping] at hranks
      exact hranks.1.ne'
    · rw [hequal] at hranks
      have hlooser : Level.leftArrow.rank < Level.equal.rank := by decide
      exact ⟨(hlooser.trans hranks.1).ne', (hlooser.trans_le hranks.2).ne'⟩

/-- Operands that need no parentheses bind tightly enough for the table. -/
theorem operands_of_needsParentheses (hnodup : ∀ id, (t.children id).Nodup)
    (hneeds : ∀ id, needsParentheses t id = false) (hm : t.Holds parent m)
    (h : Dressed tokens ((binary op l r).outline place) (m.map (·.2)))
    (hkinds : Alternate tokens place (binary op l r).kinds) :
    ∃ left right : Rose (NodeId × Extent),
      (t.Holds (some m.label.1) left ∧ Dressed tokens (l.outline place) (left.map (·.2)) ∧
        l.binding.rank ≤ op.level.binding.rank) ∧
      (t.Holds (some m.label.1) right ∧
        Dressed tokens (r.outline (place + 2 * l.words.length + 2)) (right.map (·.2)) ∧
        r.binding.rank < op.level.binding.rank) := by
  obtain ⟨left, operator, right, hjoins, -, -, ⟨hleft, hl⟩, hright, hr⟩ :=
    exists_joins hm h hkinds
  obtain ⟨hlkinds, -, hrkinds⟩ := hkinds.operands
  have hbinding := binding_of _ hm h hkinds
  have htable := op.level.binding_ne
  have hne : left.label.1 ≠ right.label.1 := by
    have hpair : (t.expressions m.label.1).Nodup := (hnodup m.label.1).filter _
    rw [hjoins.expressions_eq] at hpair
    simpa using hpair
  have hle := le_of_needsParentheses (hneeds left.label.1) hleft.parent?_eq
    (hbinding ▸ htable.1) (hbinding ▸ htable.2)
  have hlt := le_of_needsParentheses (hneeds right.label.1) hright.parent?_eq
    (hbinding ▸ htable.1) (hbinding ▸ htable.2)
  rw [hbinding, binding_of _ hleft hl hlkinds] at hle
  rw [hbinding, binding_of _ hright hr hrkinds] at hlt
  -- Only on the right does the table ask for more than an equal level.
  exact ⟨left, right, ⟨hleft, hl, hle.1⟩, hright, hr, hlt.2 (onWeakSide_right hm h hjoins hne)⟩

theorem bound_of_needsParentheses (hnodup : ∀ id, (t.children id).Nodup)
    (hneeds : ∀ id, needsParentheses t id = false) (e : Term) (hm : t.Holds parent m)
    (h : Dressed tokens (e.outline place) (m.map (·.2)))
    (hkinds : Alternate tokens place e.kinds) : e.Bound := by
  induction e generalizing place m parent with
  | name word => trivial
  | number word => trivial
  | group inner ih =>
    obtain ⟨n, hn, hinner⟩ := (show Dressed tokens (.node _ _) _ from h).exists_child hm
      (o := inner.outline (place + 2)) (by simp)
    rw [kinds_group] at hkinds
    exact ih hn hinner hkinds.tail.left
  | binary op l r ihl ihr =>
    obtain ⟨left, right, ⟨hleft, hl, hle⟩, hright, hr, hlt⟩ :=
      operands_of_needsParentheses hnodup hneeds hm h hkinds
    obtain ⟨hlkinds, -, hrkinds⟩ := hkinds.operands
    exact ⟨ihl hleft hl hlkinds, ihr hright hr hrkinds, hle, hlt⟩

end Term

/-- A tree of a term in which nothing needs parentheses is what the parser makes of its text just
where the table and the grammar agree. -/
theorem parse_iff_aligned {e : Term} {t : SyntaxTree} (hsize : Text.byteLength e.print ≤ maxOffset)
    (hbuild : SyntaxTree.build e.print (lex e.print) (Outline.node .file [e.outline 0]).events =
      .ok t)
    (hneeds : ∀ id, needsParentheses t id = false) (limit : Nat) :
    (∃ p, parse e.print limit = .ok p ∧ p.errors = [] ∧ p.tree.outline = t.outline) ↔
      e.Aligned := by
  obtain ⟨m, parent, hm, hdressed⟩ := SyntaxTree.exists_dressed e.forestPlain e.significant_lex
    hbuild (List.mem_singleton_self _)
  have hbound := e.bound_of_needsParentheses (SyntaxTree.nodup_children_of_build hbuild) hneeds hm
    hdressed e.alternate_lex
  rw [SyntaxTree.build_outline e.print rfl e.forestPlain e.significant_lex e.lex_ending hbuild,
    parse_outline_iff hsize limit]
  exact ⟨Term.Ordered.aligned, hbound.ordered⟩

/-- It is enough to look at the nodes of the tree. -/
theorem needsParentheses_eq_false {t : SyntaxTree}
    (h : (List.range t.size).all (fun id => !needsParentheses t id) = true) (id : NodeId) :
    needsParentheses t id = false := by
  by_cases hid : id < t.size
  · simpa using List.all_eq_true.mp h id (List.mem_range.mpr hid)
  · have hnone : t.nodes[id]? = none := by simpa [SyntaxTree.size] using hid
    rw [needsParentheses, SyntaxTree.parent?, hnone]
    rfl

theorem parse_iff_aligned_sum :
    let n : Term := .name ⟨"n", .identifier, by decide, by decide +kernel⟩
    let one : Term := .number ⟨"1", .numeric, by decide, by decide +kernel⟩
    let minus : Operator := .symbol .sum "-" .minus (by decide)
    let times : Operator := .symbol .product "*" .times (by decide)
    let e : Term := .binary minus (.binary minus n one) (.binary times one (.group
      (.binary minus one n)))
    e.Aligned ∧ Text.byteLength e.print ≤ maxOffset ∧ ∃ t,
      SyntaxTree.build e.print (lex e.print) (Outline.node .file [e.outline 0]).events = .ok t ∧
        (∀ id, needsParentheses t id = false) ∧
        ∃ p, parse e.print 1 = .ok p ∧ p.errors = [] ∧ p.tree.outline = t.outline := by
  intro n one minus times e
  have haligned : e.Aligned := by
    simp [e, n, one, minus, times, Term.Aligned, Operator.level, Level.grouping]
  have hsize : Text.byteLength e.print ≤ maxOffset := by decide +kernel
  have hbuilt : (SyntaxTree.build e.print (lex e.print)
      (Outline.node .file [e.outline 0]).events).toOption.any (fun t =>
        (List.range t.size).all fun id => !needsParentheses t id) = true := by decide +kernel
  obtain ⟨t, hbuild, hneeds⟩ := exists_of_any_toOption hbuilt
  have hneeds := needsParentheses_eq_false hneeds
  exact ⟨haligned, hsize, t, hbuild, hneeds,
    (parse_iff_aligned hsize hbuild hneeds 1).mpr haligned⟩

/-- An operand may lose its meaning although it does not need parentheses: where one power stands
left of another, the parser puts it on the right. -/
theorem needsParentheses_unsound :
    ¬∀ (text : String) (os : List Outline) (t : SyntaxTree) (limit : Nat),
      (Outline.node .file os).Derived (lex text) .strict →
      SyntaxTree.build text (lex text) (Outline.node .file os).events = .ok t →
      (∀ id, needsParentheses t id = false) →
      ∃ p, parse text limit = .ok p ∧ p.errors = [] ∧ p.tree.outline = t.outline := by
  intro h
  let a : Term := .name ⟨"a", .identifier, by decide, by decide +kernel⟩
  let b : Term := .name ⟨"b", .identifier, by decide, by decide +kernel⟩
  let c : Term := .name ⟨"c", .identifier, by decide, by decide +kernel⟩
  let power : Operator := .symbol .power "^" .power (by decide)
  let e : Term := .binary power (.binary power a b) c
  have hbuilt : (SyntaxTree.build e.print (lex e.print)
      (Outline.node .file [e.outline 0]).events).toOption.any (fun t =>
        (List.range t.size).all fun id => !needsParentheses t id) = true := by decide +kernel
  obtain ⟨t, hbuild, hneeds⟩ := exists_of_any_toOption hbuilt
  obtain ⟨p, hp, herrors, houtline⟩ :=
    h e.print _ t 1 e.derived_file hbuild (needsParentheses_eq_false hneeds)
  rw [SyntaxTree.build_outline e.print rfl e.forestPlain e.significant_lex e.lex_ending hbuild]
    at houtline
  have hsize : Text.byteLength e.print ≤ maxOffset := by decide +kernel
  have hordered : e.Ordered := (parse_outline_iff hsize 1).mp ⟨p, hp, herrors, houtline⟩
  simp [e, a, b, c, power, Term.Ordered, Operator.level, Level.grouping, Level.rank,
    Term.rank] at hordered

end RSource
