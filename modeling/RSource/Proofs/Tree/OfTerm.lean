import RSource.Proofs.Cascade
import RSource.Proofs.Tree.Members

/-! The tree of a term.  The outline of a term keeps to the grammar whether or not its operands have
the parentheses that they need, and a tree can be built from it over the tokens of the term. -/

namespace RSource

open Lexeme

variable {tokens : List Token} {place : Nat}

/-- Tokens of these kinds stand at every other place from a place on. -/
def Alternate (tokens : List Token) (place : Nat) (ks : List TokenKind) : Prop :=
  ∀ i k, ks[i]? = some k → ∃ t, tokens[place + 2 * i]? = some t ∧ t.kind = k

namespace Alternate

variable {k : TokenKind} {ks ls : List TokenKind}

theorem left (h : Alternate tokens place (ks ++ ls)) : Alternate tokens place ks := by
  intro i k hk
  have hi := (List.getElem?_eq_some_iff.mp hk).1
  exact h i k (by rwa [List.getElem?_append_left hi])

theorem right (h : Alternate tokens place (ks ++ ls)) :
    Alternate tokens (place + 2 * ks.length) ls := by
  intro i k hk
  obtain ⟨t, ht, hkind⟩ := h (ks.length + i) k (by
    rwa [List.getElem?_append_right (Nat.le_add_right _ _), Nat.add_sub_cancel_left])
  exact ⟨t, by rwa [Nat.mul_add, ← Nat.add_assoc] at ht, hkind⟩

theorem head (h : Alternate tokens place (k :: ks)) : ∃ t, tokens[place]? = some t ∧ t.kind = k :=
  h 0 k rfl

theorem tail (h : Alternate tokens place (k :: ks)) : Alternate tokens (place + 2) ks := by
  rw [← List.singleton_append] at h
  exact h.right

/-- The tokens of an operation are those of its operands, with the operator between them. -/
theorem operands {operator : Operator} {left right : Term}
    (h : Alternate tokens place (Term.binary operator left right).kinds) :
    Alternate tokens place left.kinds ∧
      (∃ t, tokens[place + 2 * left.words.length]? = some t ∧ t.kind = operator.kind) ∧
      Alternate tokens (place + 2 * left.words.length + 2) right.kinds := by
  rw [Term.kinds_binary] at h
  rw [← Term.length_kinds]
  exact ⟨h.left, h.right.head, h.right.tail⟩

end Alternate

/-- The words are every other token of a term. -/
theorem Term.alternate_lex (e : Term) : Alternate (lex e.print) 0 e.kinds := by
  intro i k hk
  rw [kinds, List.getElem?_map] at hk
  obtain ⟨l, hl, rfl⟩ := Option.map_eq_some_iff.mp hk
  have hword : (e.lexemes.intersperse blank)[2 * i]? = some l := by
    rw [List.getElem?_intersperse_two_mul, hl]
  have hi := (List.getElem?_eq_some_iff.mp hword).1
  have hkind : ((lex e.print).map Token.kind)[2 * i]? = some l.kind := by
    rw [e.print_tokens, map_kind_place, List.getElem?_append_left (by simpa using hi),
      List.getElem?_map, hword]
    rfl
  rw [List.getElem?_map] at hkind
  rw [Nat.zero_add]
  exact Option.map_eq_some_iff.mp hkind

theorem significant_place_cons (place offset : Nat) (l : Lexeme) (ls : List Lexeme) :
    significant place (Lexeme.place offset (l :: ls)) =
      if l.kind.isLayout then significant (place + 1) (Lexeme.place (offset + l.size) ls)
      else place :: significant (place + 1) (Lexeme.place (offset + l.size) ls) := rfl

theorem significant_intersperse : ∀ (ls : List Lexeme) (place offset : Nat), ls ≠ [] →
    (∀ l ∈ ls, l.kind.isLayout = false) →
    significant place (Lexeme.place offset (ls.intersperse blank)) =
      List.range' place ls.length 2 ++ [place + 2 * ls.length - 1]
  | [l], place, offset, _, h => by
    rw [List.intersperse, significant_place_cons, h l List.mem_cons_self]
    rfl
  | l :: m :: ls, place, offset, _, h => by
    -- A word and the blank after it are two tokens, of which the first counts.
    have hsplit :
        (l :: m :: ls).intersperse blank = l :: blank :: (m :: ls).intersperse blank := rfl
    have hblank : blank.kind.isLayout = true := rfl
    have ih := significant_intersperse (m :: ls) (place + 1 + 1)
      (offset + l.size + blank.size) (List.cons_ne_nil _ _)
      fun x hx => h x (List.mem_cons_of_mem _ hx)
    rw [hsplit, significant_place_cons, h l List.mem_cons_self, significant_place_cons, hblank,
      if_neg Bool.false_ne_true, if_pos rfl, ih]
    simp only [List.length_cons, List.range'_succ, List.cons_append]
    congr 4
    omega

namespace Level

theorem tokenKind?_node (level : Level) : level.node.tokenKind? = none := by
  cases level <;> rfl

theorem tokenKind?_operatorNode (level : Level) : level.operatorNode.tokenKind? = none := by
  cases level <;> rfl

end Level

namespace Term

/-- The node of the term. -/
def node : Term → NodeKind
  | name _ => .identifierExpression
  | number _ => .numericLiteralExpression
  | group _ => .parenthesizedExpression
  | binary operator .. => operator.level.node

theorem exists_outline (e : Term) (place : Nat) : ∃ os, e.outline place = .node e.node os := by
  cases e <;> exact ⟨_, rfl⟩

theorem isExpression_node (e : Term) : e.node.isExpression = true := by
  cases e with
  | binary operator left right =>
    rw [node]
    cases operator.level <;> rfl
  | _ => rfl

theorem words_ne_nil (e : Term) : e.words ≠ [] := by
  cases e <;> simp [words]

theorem plain (e : Term) (place : Nat) : (e.outline place).Plain := by
  induction e generalizing place with
  | name word => exact ⟨rfl, trivial, trivial⟩
  | number word => exact ⟨rfl, trivial, trivial⟩
  | group inner ih => exact ⟨rfl, trivial, ih _, trivial, trivial⟩
  | binary operator left right ihl ihr =>
    exact ⟨Level.tokenKind?_node _, ihl _, ⟨Level.tokenKind?_operatorNode _, trivial, trivial⟩,
      ihr _, trivial⟩

/-- The outline has the words, which stand at every other place. -/
theorem tokens_outline (e : Term) (place : Nat) :
    (e.outline place).tokens = List.range' place e.words.length 2 := by
  induction e generalizing place with
  | name word => rfl
  | number word => rfl
  | group inner ih =>
    have hlast : [place + 2 + 2 * inner.words.length] =
        List.range' (place + 2 + 2 * inner.words.length) 1 2 := rfl
    simp only [outline, Outline.tokens, Outline.forestTokens, ih, words, List.cons_append,
      List.length_cons, List.length_append, List.range'_succ, List.append_nil]
    rw [hlast, List.range'_append]
    rfl
  | binary operator left right ihl ihr =>
    simp only [outline, Outline.tokens, Outline.forestTokens, ihl, ihr, words, List.length_cons,
      List.length_append, List.append_nil, List.cons_append, List.nil_append]
    rw [← List.range'_succ, List.range'_append]

theorem significant_lex (e : Term) : significant 0 (lex e.print) =
    Outline.forestTokens [e.outline 0] ++ [2 * e.words.length - 1] := by
  have hne : e.lexemes ≠ [] := fun h => e.words_ne_nil (List.length_eq_zero_iff.mp (by
    rw [← e.length_lexemes, h]
    rfl))
  rw [e.print_tokens, significant_intersperse _ _ _ hne fun l hl => (e.visible l hl).1,
    Outline.forestTokens, Outline.forestTokens, List.append_nil, e.tokens_outline,
    e.length_lexemes, Nat.zero_add]

/-- After the words of a term stands the end of the file. -/
theorem lex_ending (e : Term) : ∀ i ∈ [2 * e.words.length - 1].head?, ∀ t,
    (lex e.print)[i]? = some t → t.kind = .endOfFile := by
  rintro i hi t ht
  obtain rfl : i = 2 * e.words.length - 1 := (Option.some.inj hi).symm
  have hlength : (e.lexemes.intersperse blank).length = 2 * e.words.length - 1 := by
    rw [List.length_intersperse, e.length_lexemes]
  have hkind : ((lex e.print).map Token.kind)[2 * e.words.length - 1]? = some .endOfFile := by
    rw [e.print_tokens, map_kind_place, List.getElem?_append_right (by simp [hlength]),
      List.length_map, hlength, Nat.sub_self]
    rfl
  rw [List.getElem?_map, ht] at hkind
  exact Option.some.inj hkind

theorem forestPlain (e : Term) : Outline.ForestPlain [e.outline 0] := ⟨e.plain 0, trivial⟩

/-! ### The grammar -/

open Production

theorem mem_expression (e : Term) (place : Nat) : [e.outline place] ∈ expression .strict := by
  obtain ⟨os, hos⟩ := e.exists_outline place
  have htokens := e.tokens_outline place
  rw [hos, Outline.tokens] at htokens
  refine ⟨_, _, congrArg (fun o => [o]) hos, ?_, ?_⟩
  · cases e with
    | binary operator left right =>
      rw [node]
      cases operator.level <;> rfl
    | _ => rfl
  · rw [htokens]
    exact fun h => e.words_ne_nil (List.length_eq_zero_iff.mp (List.range'_eq_nil_iff.mp h))

/-- The node around an operator has its token. -/
theorem mem_children_operatorNode {operator : Operator} {t : Token} {i : Nat}
    (ht : tokens[i]? = some t) (hkind : t.kind = operator.kind) :
    [.token i] ∈ children tokens .strict operator.level.operatorNode := by
  obtain ⟨entry, hentry, hsymbol⟩ := Grammar.exists_symbol operator
  rw [← hkind] at hsymbol
  have hrow : ∃ kinds, children tokens .strict operator.level.operatorNode = token tokens kinds ∧
      ∀ entry ∈ operator.level.symbols, entry.2 ∈ kinds := by
    cases operator.level <;> exact ⟨_, rfl, by decide⟩
  obtain ⟨kinds, hrow, hkinds⟩ := hrow
  rw [hrow]
  exact ⟨i, t, rfl, ht, hsymbol ▸ hkinds entry hentry⟩

theorem mem_children_node {operator : Operator} {t : Token} {i : Nat} {left right : Outline}
    (ht : tokens[i]? = some t) (hkind : t.kind = operator.kind)
    (hleft : [left] ∈ expression .strict) (hright : [right] ∈ expression .strict) :
    [left, .node operator.level.operatorNode [.token i], right] ∈
      children tokens .strict operator.level.node := by
  obtain ⟨entry, hentry, hsymbol⟩ := Grammar.exists_symbol operator
  rw [← hkind] at hsymbol
  generalize operator.level = level at hentry
  have hsymbols : ∀ kinds : List TokenKind, (∀ entry ∈ level.symbols, entry.2 ∈ kinds) →
      [.node .assignOperator [.token i]] ∈ Production.operator tokens .assignOperator kinds :=
    fun kinds hkinds => ⟨_, rfl, i, t, rfl, ht, hsymbol ▸ hkinds entry hentry⟩
  cases level
  case leftArrow | rightArrow =>
    exact .inl ⟨[left], hleft, _, ⟨_, hsymbols _ (by decide), [right], .inl hright, rfl⟩, rfl⟩
  case equal =>
    exact .inr ⟨[left], hleft, _, ⟨_, hsymbols _ (by decide), [right], .inr (.inl hright), rfl⟩,
      rfl⟩
  all_goals
    exact ⟨[left], hleft, _, ⟨[.node _ [.token i]], ⟨_, _, rfl, by decide⟩, [right], .inl hright,
      rfl⟩, rfl⟩

/-- Every term keeps to the grammar. -/
theorem derived {e : Term} (h : Alternate tokens place e.kinds) :
    (e.outline place).Derived tokens .strict := by
  induction e generalizing place with
  | name word =>
    obtain ⟨t, ht, hkind⟩ := h.head
    have hmem : t.kind ∈ [TokenKind.identifier] := hkind ▸ word.mem
    rw [List.mem_singleton] at hmem
    exact ⟨⟨place, t, rfl, ht, by simp [hmem]⟩, trivial, trivial⟩
  | number word =>
    obtain ⟨t, ht, hkind⟩ := h.head
    exact ⟨⟨place, t, rfl, ht, hkind ▸ word.mem⟩, trivial, trivial⟩
  | group inner ih =>
    rw [kinds_group] at h
    obtain ⟨t, ht, hopen⟩ := h.head
    obtain ⟨t', ht', hclose⟩ := h.tail.right.head
    rw [length_kinds] at ht'
    have hlast : [.token (place + 2 + 2 * inner.words.length)] ∈
        wanted tokens .strict .rightParen :=
      .inl ⟨_, t', rfl, ht', List.mem_singleton.mpr hclose⟩
    exact ⟨⟨[.token place], ⟨place, t, rfl, ht, List.mem_singleton.mpr hopen⟩, _,
      ⟨[inner.outline (place + 2)], .inl (inner.mem_expression _), _, hlast, rfl⟩, rfl⟩,
      trivial, ih h.tail.left, trivial, trivial⟩
  | binary operator left right ihl ihr =>
    obtain ⟨hleft, ⟨t, ht, hkind⟩, hright⟩ := h.operands
    exact ⟨mem_children_node ht hkind (left.mem_expression _) (right.mem_expression _),
      ihl hleft, ⟨mem_children_operatorNode ht hkind, trivial, trivial⟩, ihr hright, trivial⟩

/-- A file may have a term as its one statement. -/
theorem derived_file (e : Term) :
    (Outline.node .file [e.outline 0]).Derived (lex e.print) .strict :=
  ⟨⟨⟨[[e.outline 0]], rfl, by simpa using .inr (e.mem_expression 0)⟩, .singleton _⟩,
    derived e.alternate_lex, trivial⟩

end Term

end RSource
