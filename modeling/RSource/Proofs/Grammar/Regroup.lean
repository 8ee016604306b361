import RSource.Proofs.Cascade

/-! Terms whose operands lack parentheses.  The parser groups their words anew: an operator goes
into the right operand of a looser one before it, and takes the rest for its left operand.  So the
text of every term is read without errors, and the tree is that of the term just when its operands
have the parentheses that they need. -/

namespace RSource

/-- What is right of the first operator belongs to the next one. -/
def Operator.Yields (first next : Operator) : Prop :=
  first.level.rank < next.level.rank ∨ first.level = next.level ∧ first.level.grouping = .right

instance (first next : Operator) : Decidable (first.Yields next) :=
  inferInstanceAs (Decidable (_ ∨ _ ∧ _))

namespace Term

variable {e operand : Term} {op : Operator}

/-- The term with an operator and its right operand behind it. -/
def extend (op : Operator) (operand : Term) : Term → Term
  | binary first left right =>
    if first.Yields op then binary first left (extend op operand right)
    else binary op (binary first left right) operand
  | e => binary op e operand

mutual
/-- The words of the term, grouped as the levels ask. -/
def regroup : Term → Term
  | name word => name word
  | number word => number word
  | group inner => group inner.regroup
  | binary op left right => regroupBehind left.regroup op right

/-- The words of a term, behind an operator and what stands before it. -/
def regroupBehind : Term → Operator → Term → Term
  | before, op, name word => extend op (name word) before
  | before, op, number word => extend op (number word) before
  | before, op, group inner => extend op (group inner.regroup) before
  | before, op, binary next left right => regroupBehind (regroupBehind before op left) next right
end

theorem lexemes_extend (op : Operator) (operand e : Term) : (extend op operand e).lexemes =
    e.lexemes ++ ⟨op.kind, op.text.toList⟩ :: operand.lexemes := by
  induction e with
  | binary first left right ihl ihr =>
    rw [extend]
    split
    · simp [lexemes, ihr]
    · rfl
  | _ => rfl

mutual
theorem lexemes_regroup : (e : Term) → e.regroup.lexemes = e.lexemes
  | name word => rfl
  | number word => rfl
  | group inner => by rw [regroup, lexemes, lexemes_regroup inner, lexemes]
  | binary op left right => by
    rw [regroup, lexemes_regroupBehind _ op right, lexemes_regroup left, lexemes]

theorem lexemes_regroupBehind (before : Term) (op : Operator) : (e : Term) →
    (regroupBehind before op e).lexemes =
      before.lexemes ++ ⟨op.kind, op.text.toList⟩ :: e.lexemes
  | name word => by rw [regroupBehind, lexemes_extend]
  | number word => by rw [regroupBehind, lexemes_extend]
  | group inner => by
    rw [regroupBehind, lexemes_extend, lexemes, lexemes_regroup inner, lexemes]
  | binary next left right => by
    rw [regroupBehind, lexemes_regroupBehind _ next right, lexemes_regroupBehind before op left,
      List.append_assoc, List.cons_append, lexemes]
end

theorem print_regroup (e : Term) : e.regroup.print = e.print := by
  have hwords : e.regroup.words = e.words := by
    refine List.map_injective_iff.mpr (fun _ _ h => String.toList_injective h) ?_
    rw [← map_chars_lexemes, ← map_chars_lexemes, lexemes_regroup]
  rw [print, print, hwords]

/-! ### The order of operands -/

theorem le_rank_extend {n : Nat} (he : n ≤ e.rank) (hop : n ≤ op.level.rank) :
    n ≤ (extend op operand e).rank := by
  cases e with
  | binary first left right =>
    rw [extend]
    split
    · exact he
    · exact hop
  | _ => exact hop

theorem Ordered.extend (he : e.Ordered) (hoperand : operand.Ordered) (hrank : operand.rank = 12) :
    (extend op operand e).Ordered := by
  have hlast : op.level.rank < operand.rank := hrank ▸ rank_lt op.level
  -- Whatever the grouping is, an operand that is not an operation stands on either side.
  have hatom {e : Term} (he : e.Ordered) (h : op.level.rank ≤ e.rank)
      (h' : op.level.grouping = .right → op.level.rank < e.rank) :
      (binary op e operand).Ordered := by
    refine ⟨he, hoperand, ?_⟩
    cases hgrouping : op.level.grouping with
    | left => exact ⟨h, hlast⟩
    | right => exact ⟨h' hgrouping, hlast.le⟩
  induction e with
  | binary first left right ihl ihr =>
    obtain ⟨hleft, hright, hranks⟩ := he
    rw [Term.extend]
    split
    · next hyields =>
      refine ⟨hleft, ihr hright, ?_⟩
      cases hgrouping : first.level.grouping with
      | left =>
        rw [hgrouping] at hranks
        have hlt : first.level.rank < op.level.rank := by
          simpa [Operator.Yields, hgrouping] using hyields
        exact ⟨hranks.1, le_rank_extend hranks.2 hlt⟩
      | right =>
        rw [hgrouping] at hranks
        have hle : first.level.rank ≤ op.level.rank := by
          rcases hyields with hlt | ⟨heq, -⟩
          · exact hlt.le
          · rw [heq]
        exact ⟨hranks.1, le_rank_extend hranks.2 hle⟩
    · next hyields =>
      simp only [Operator.Yields, not_or, not_and, Nat.not_lt] at hyields
      refine hatom ⟨hleft, hright, hranks⟩ hyields.1 fun hgrouping => ?_
      refine Nat.lt_of_le_of_ne hyields.1 fun hrank => ?_
      have heq := rank_injective hrank
      exact hyields.2 heq.symm (heq ▸ hgrouping)
  | _ => exact hatom he (rank_lt op.level).le fun _ => rank_lt op.level

mutual
theorem ordered_regroup : (e : Term) → e.regroup.Ordered
  | name _ => trivial
  | number _ => trivial
  | group inner => ordered_regroup inner
  | binary op left right => ordered_regroupBehind op (ordered_regroup left) right

theorem ordered_regroupBehind {before : Term} (op : Operator) (h : before.Ordered) :
    (e : Term) → (regroupBehind before op e).Ordered
  | name _ => h.extend trivial rfl
  | number _ => h.extend trivial rfl
  | group inner => h.extend (ordered_regroup inner) rfl
  | binary next left right =>
    ordered_regroupBehind next (ordered_regroupBehind op h left) right
end

/-! ### The tree of a term -/

theorem level_of_kind {op op' : Operator} (h : op.kind = op'.kind) : op.level = op'.level := by
  obtain ⟨entry, hentry, hkind⟩ := Grammar.exists_symbol op
  obtain ⟨entry', hentry', hkind'⟩ := Grammar.exists_symbol op'
  have hall : ∀ a b : Level, ∀ x ∈ a.symbols, ∀ y ∈ b.symbols, x.2 = y.2 → a = b := by
    intro a b
    cases a <;> cases b <;> decide
  exact hall _ _ entry hentry entry' hentry' (by rw [hkind, hkind', h])

theorem binary_of_outline {op op' : Operator} {l r l' r' : Term} {place : Nat}
    (houtline : (binary op l r).outline place = (binary op' l' r').outline place)
    (hkinds : (binary op l r).kinds = (binary op' l' r').kinds) :
    op.level = op'.level ∧ (l.outline place = l'.outline place ∧ l.kinds = l'.kinds) ∧
      r.outline (place + 2 * l.words.length + 2) = r'.outline (place + 2 * l.words.length + 2) ∧
      r.kinds = r'.kinds := by
  obtain ⟨-, hrow⟩ := Outline.node.inj houtline
  obtain ⟨hl, hrow⟩ := List.cons.inj hrow
  obtain ⟨hoperator, hrow⟩ := List.cons.inj hrow
  obtain ⟨hr, -⟩ := List.cons.inj hrow
  have hmiddle : place + 2 * l.words.length = place + 2 * l'.words.length :=
    Outline.token.inj (List.cons.inj (Outline.node.inj hoperator).2).1
  rw [kinds_binary, kinds_binary] at hkinds
  obtain ⟨hlkinds, htail⟩ := List.append_inj hkinds (by
    rw [length_kinds, length_kinds]
    omega)
  obtain ⟨hkind, hrkinds⟩ := List.cons.inj htail
  rw [← hmiddle] at hr
  exact ⟨level_of_kind hkind, ⟨hl, hlkinds⟩, hr, hrkinds⟩

/-- The outline of a term tells, with its words, how its operands are ordered. -/
theorem Ordered.of_outline {e e' : Term} {place : Nat} (he : e.Ordered)
    (houtline : e.outline place = e'.outline place) (hkinds : e.kinds = e'.kinds) :
    e'.Ordered ∧ e'.rank = e.rank := by
  induction e generalizing e' place with
  | name word =>
    cases e' with
    | name word' => exact ⟨trivial, rfl⟩
    | _ => simp [outline] at houtline
  | number word =>
    cases e' with
    | number word' => exact ⟨trivial, rfl⟩
    | _ => simp [outline] at houtline
  | group inner ih =>
    cases e' with
    | group inner' =>
      obtain ⟨-, hrow⟩ := Outline.node.inj houtline
      obtain ⟨-, hrow⟩ := List.cons.inj hrow
      rw [kinds_group, kinds_group] at hkinds
      have hinner := List.append_cancel_right (List.cons.inj hkinds).2
      exact ⟨(ih he (List.cons.inj hrow).1 hinner).1, rfl⟩
    | binary op l r =>
      obtain ⟨hnode, -⟩ := Outline.node.inj houtline
      cases hlevel : op.level <;> simp [hlevel, Level.node] at hnode
    | _ => simp [outline] at houtline
  | binary op l r ihl ihr =>
    cases e' with
    | binary op' l' r' =>
      obtain ⟨hlevel, ⟨hl, hlkinds⟩, hr, hrkinds⟩ := binary_of_outline houtline hkinds
      obtain ⟨hleft, hright, hranks⟩ := he
      obtain ⟨hleft, hlrank⟩ := ihl hleft hl hlkinds
      obtain ⟨hright, hrrank⟩ := ihr hright hr hrkinds
      refine ⟨⟨hleft, hright, ?_⟩, congrArg Level.rank hlevel.symm⟩
      rw [← hlevel, hlrank, hrrank]
      exact hranks
    | group inner =>
      obtain ⟨hnode, -⟩ := Outline.node.inj houtline
      cases hlevel : op.level <;> simp [hlevel, Level.node] at hnode
    | _ => simp [outline] at houtline

end Term

/-- The text of every term is parsed without errors. -/
theorem parse_regroup {e : Term} (hsize : Text.byteLength e.print ≤ maxOffset) (limit : Nat) :
    ∃ p, parse e.print limit = .ok p ∧ p.errors = [] ∧
      p.tree.outline = [.node .file [e.regroup.outline 0]] := by
  obtain ⟨d, hsource⟩ := e.ordered_regroup.source_print
  rw [e.print_regroup] at hsource
  obtain ⟨p, hp, herrors, houtline, -, -⟩ := parse_of_parses hsize hsource limit
  exact ⟨p, hp, herrors, houtline⟩

/-- The parser gives a term back just when its operands have the parentheses that they need. -/
theorem parse_outline_iff {e : Term} (hsize : Text.byteLength e.print ≤ maxOffset) (limit : Nat) :
    (∃ p, parse e.print limit = .ok p ∧ p.errors = [] ∧
      p.tree.outline = [.node .file [e.outline 0]]) ↔ e.Ordered := by
  constructor
  · rintro ⟨p, hp, -, houtline⟩
    obtain ⟨p', hp', -, houtline'⟩ := parse_regroup hsize limit
    obtain rfl := Except.ok.inj (hp.symm.trans hp')
    rw [houtline] at houtline'
    have hterm : e.regroup.outline 0 = e.outline 0 := by simpa using houtline'.symm
    exact (e.ordered_regroup.of_outline hterm (by rw [Term.kinds, e.lexemes_regroup]; rfl)).1
  · intro he
    obtain ⟨d, hsource⟩ := he.source_print
    obtain ⟨p, hp, herrors, houtline, -, -⟩ := parse_of_parses hsize hsource limit
    exact ⟨p, hp, herrors, houtline⟩

end RSource
