import RSource.Proofs.Grammar.Statement
import RSource.Proofs.Lexeme.Boundary

/-! Which tokens stand side by side.  In a tree that keeps to the grammar a name or a number is never
followed by another word on its line, so that the text tells where the one ends whatever the other
is.  Every production keeps such tokens apart (`joins_children`), and with it every tree. -/

namespace RSource

open scoped Computability
open Outline (forestTokens)
open Lexeme (openEnded wordLike)

section

variable (tokens : List Token)

/-- The token is none whose text may go on. -/
def Closed (i : Nat) : Prop := ∀ t ∈ tokens[i]?, t.kind ∉ openEnded

/-- The token is none that may go on a text before it. -/
def Fresh (i : Nat) : Prop := ∀ t ∈ tokens[i]?, t.kind ∉ wordLike

/-- Two tokens of which the second does not go on the first, or begins a line. -/
def Parted (i j : Nat) : Prop := Closed tokens i ∨ Fresh tokens j ∨ startsLine tokens j = true

/-- There are tokens, and the first goes on nothing. -/
def BeginsFresh (places : List Nat) : Prop := places ≠ [] ∧ ∀ i ∈ places.head?, Fresh tokens i

/-- There are tokens, and the text of the last does not go on. -/
def EndsClosed (places : List Nat) : Prop := places ≠ [] ∧ ∀ i ∈ places.getLast?, Closed tokens i

/-- The nodes that stand between two expressions or after one. -/
def framed : List NodeKind :=
  Production.binaryOperators ++ [.tildeOperator, .dollarOperator, .atOperator, .parameterList,
    .argumentList]

/-- The tokens of the outline are parted, and at its ends from what is around it if it is framed. -/
structure Outline.Spaced (o : Outline) : Prop where
  chain : o.tokens.IsChain (Parted tokens)
  frame : ∀ kind ∈ o.kind?, kind ∈ framed → BeginsFresh tokens o.tokens ∧ EndsClosed tokens o.tokens

end

variable {tokens : List Token} {is js : List Nat}

theorem isChain_append_of_opens (his : is.IsChain (Parted tokens)) (hjs : js.IsChain (Parted tokens))
    (h : BeginsFresh tokens js) : (is ++ js).IsChain (Parted tokens) :=
  his.append hjs fun _ _ _ hj => .inr (.inl (h.2 _ hj))

theorem isChain_append_of_closes (his : is.IsChain (Parted tokens))
    (hjs : js.IsChain (Parted tokens)) (h : EndsClosed tokens is) :
    (is ++ js).IsChain (Parted tokens) :=
  his.append hjs fun _ hi _ _ => .inl (h.2 _ hi)

theorem BeginsFresh.append (h : BeginsFresh tokens is) : BeginsFresh tokens (is ++ js) := by
  obtain ⟨i, rest, rfl⟩ := List.exists_cons_of_ne_nil h.1
  exact ⟨List.cons_ne_nil _ _, h.2⟩

theorem EndsClosed.append (h : EndsClosed tokens js) : EndsClosed tokens (is ++ js) := by
  refine ⟨List.append_ne_nil_of_right_ne_nil is h.1, fun i hi => h.2 i ?_⟩
  rwa [List.getLast?_append_of_ne_nil is h.1] at hi

namespace Production

/-- Every row of the language has the property, if the outlines in it are spaced. -/
def Spacing (tokens : List Token) (P : List Nat → Prop) (L : Language Outline) : Prop :=
  ∀ os ∈ L, (∀ o ∈ os, o.Spaced tokens) → P (forestTokens os)

def Joins (tokens : List Token) : Language Outline → Prop :=
  Spacing tokens (List.IsChain (Parted tokens))

def Begins (tokens : List Token) : Language Outline → Prop := Spacing tokens (BeginsFresh tokens)

def Ends (tokens : List Token) : Language Outline → Prop := Spacing tokens (EndsClosed tokens)

variable {P : List Nat → Prop} {L M : Language Outline} {kinds : List TokenKind}

theorem Spacing.add (h : Spacing tokens P L) (h' : Spacing tokens P M) :
    Spacing tokens P (L + M) :=
  fun os hos => hos.elim (h os) (h' os)

theorem spacing_zero : Spacing tokens P 0 := fun _ h => h.elim

theorem spacing_mul {Q R : List Nat → Prop} (hL : Spacing tokens P L) (hM : Spacing tokens Q M)
    (h : ∀ is js, P is → Q js → R (is ++ js)) : Spacing tokens R (L * M) := by
  rintro _ ⟨os, hos, ps, hps, rfl⟩ hspaced
  rw [Outline.forestTokens_append]
  exact h _ _ (hL os hos fun o ho => hspaced o (List.mem_append_left _ ho))
    (hM ps hps fun o ho => hspaced o (List.mem_append_right _ ho))

theorem Spacing.and {Q : List Nat → Prop} (h : Spacing tokens P L) (h' : Spacing tokens Q L) :
    Spacing tokens (fun is => P is ∧ Q is) L :=
  fun os hos hspaced => ⟨h os hos hspaced, h' os hos hspaced⟩

theorem joins_one : Joins tokens 1 := by
  rintro os rfl -
  exact .nil

theorem Joins.before (hL : Joins tokens L) (hM : Joins tokens M) (h : Begins tokens M) :
    Joins tokens (L * M) :=
  spacing_mul hL (hM.and h) fun _ _ his hjs => isChain_append_of_opens his hjs.1 hjs.2

theorem Joins.after (hL : Joins tokens L) (h : Ends tokens L) (hM : Joins tokens M) :
    Joins tokens (L * M) :=
  spacing_mul (hL.and h) hM fun _ _ his hjs => isChain_append_of_closes his.1 hjs his.2

theorem Begins.mul (h : Begins tokens L) : Begins tokens (L * M) :=
  spacing_mul h (Q := fun _ => True) (fun _ _ _ => trivial) fun _ _ his _ => his.append

theorem Ends.mul (h : Ends tokens M) : Ends tokens (L * M) :=
  spacing_mul (P := fun _ => True) (fun _ _ _ => trivial) h fun _ _ _ hjs => hjs.append

theorem Joins.kstar (hL : Joins tokens L) (h : Begins tokens L) : Joins tokens L∗ := by
  intro os hos
  obtain ⟨rows, rfl, hrows⟩ := Language.mem_kstar.mp hos
  clear hos
  induction rows with
  | nil => exact fun _ => .nil
  | cons row rows ih =>
    intro hspaced
    have hrow := hrows row List.mem_cons_self
    have hfirst : ∀ o ∈ row, o.Spaced tokens := fun o ho => hspaced o (by simp [ho])
    have hrest := ih (fun r hr => hrows r (List.mem_cons_of_mem _ hr)) fun o ho =>
      hspaced o (List.mem_append_right _ ho)
    rw [List.flatten_cons, Outline.forestTokens_append]
    cases rows with
    | nil => simpa [forestTokens] using hL row hrow hfirst
    | cons next rows =>
      have hnext := h next (hrows next (by simp)) fun o ho => hspaced o (by simp [ho])
      refine isChain_append_of_opens (hL row hrow hfirst) hrest ?_
      rw [List.flatten_cons, Outline.forestTokens_append]
      exact hnext.append

/-! ### Symbols -/

theorem joins_token (kinds : List TokenKind) : Joins tokens (token tokens kinds) := by
  rintro _ ⟨i, t, rfl, -, -⟩ -
  exact .singleton i

theorem begins_token (h : ∀ k ∈ kinds, k ∉ wordLike) : Begins tokens (token tokens kinds) := by
  rintro _ ⟨i, t, rfl, ht, hk⟩ -
  refine ⟨List.cons_ne_nil _ _, fun j hj u hu => ?_⟩
  obtain rfl : i = j := Option.some.inj hj
  obtain rfl := Option.some.inj (ht.symm.trans hu)
  exact h _ hk

theorem ends_token (h : ∀ k ∈ kinds, k ∉ openEnded) : Ends tokens (token tokens kinds) := by
  rintro _ ⟨i, t, rfl, ht, hk⟩ -
  refine ⟨List.cons_ne_nil _ _, fun j hj u hu => ?_⟩
  obtain rfl : i = j := Option.some.inj hj
  obtain rfl := Option.some.inj (ht.symm.trans hu)
  exact h _ hk

theorem joins_single (h : ∀ os ∈ L, ∃ o, os = [o]) : Joins tokens L := by
  intro os hos hspaced
  obtain ⟨o, rfl⟩ := h os hos
  simpa [forestTokens] using (hspaced o (List.mem_singleton_self o)).chain

theorem joins_node (kinds : List NodeKind) : Joins tokens (node kinds) :=
  joins_single fun _ ⟨_, _, hos, _⟩ => ⟨_, hos⟩

theorem joins_operator (kind : NodeKind) (kinds : List TokenKind) :
    Joins tokens (operator tokens kind kinds) :=
  joins_single fun _ ⟨_, hos, _⟩ => ⟨_, hos⟩

theorem joins_expression : Joins tokens (expression .strict) :=
  joins_single fun _ ⟨_, _, hos, _⟩ => ⟨_, hos⟩

theorem frame_node {kinds : List NodeKind} (h : ∀ k ∈ kinds, k ∈ framed) :
    Begins tokens (node kinds) ∧ Ends tokens (node kinds) := by
  have hboth : ∀ os ∈ node kinds, (∀ o ∈ os, o.Spaced tokens) →
      BeginsFresh tokens (forestTokens os) ∧ EndsClosed tokens (forestTokens os) := by
    rintro _ ⟨kind, cs, rfl, hkind⟩ hspaced
    simpa [forestTokens] using
      (hspaced _ (List.mem_singleton_self _)).frame kind rfl (h kind hkind)
  exact ⟨fun os hos hspaced => (hboth os hos hspaced).1,
    fun os hos hspaced => (hboth os hos hspaced).2⟩

theorem forestTokens_singleton (kind : NodeKind) (cs : List Outline) :
    forestTokens [.node kind cs] = forestTokens cs := by
  simp [forestTokens, Outline.tokens]

theorem begins_operator (kind : NodeKind) (h : ∀ k ∈ kinds, k ∉ wordLike) :
    Begins tokens (operator tokens kind kinds) := by
  rintro _ ⟨cs, rfl, hcs⟩ -
  rw [forestTokens_singleton]
  refine begins_token h cs hcs fun o ho => ?_
  obtain ⟨i, t, rfl, -, -⟩ := hcs
  obtain rfl := List.mem_singleton.mp ho
  exact ⟨.singleton i, fun _ hk => by cases hk⟩

theorem ends_operator (kind : NodeKind) (h : ∀ k ∈ kinds, k ∉ openEnded) :
    Ends tokens (operator tokens kind kinds) := by
  rintro _ ⟨cs, rfl, hcs⟩ -
  rw [forestTokens_singleton]
  refine ends_token h cs hcs fun o ho => ?_
  obtain ⟨i, t, rfl, -, -⟩ := hcs
  obtain rfl := List.mem_singleton.mp ho
  exact ⟨.singleton i, fun _ hk => by cases hk⟩

/-! ### Rows -/

theorem joins_operand : Joins tokens (operand .strict) := joins_expression.add spacing_zero

theorem joins_optional : Joins tokens (optional .strict) := (joins_node _).add joins_operand

theorem wanted_strict (kind : TokenKind) : wanted tokens .strict kind = token tokens [kind] :=
  add_zero _

theorem joins_argument : Joins tokens (argument .strict) := by
  have hnone : (1 + fault .strict : Language Outline) = 1 := add_zero _
  rw [argument, hnone, mul_one]
  exact (joins_node _).add ((joins_node _).add joins_operand)

/-- A list of parts each of which opens stands after anything. -/
theorem Joins.mul_kstar (hL : Joins tokens L) (hM : Joins tokens M) (h : Begins tokens M) :
    Joins tokens (L * M∗) := by
  have hmore : Joins tokens (M * M∗) := fun os hos =>
    hM.kstar h os (Language.one_add_self_mul_kstar_eq_kstar (l := M) ▸ .inr hos)
  rw [← Language.one_add_self_mul_kstar_eq_kstar, mul_add, mul_one]
  exact hL.add (hL.before hmore h.mul)

theorem joins_separated (h : Joins tokens L) : Joins tokens (separated tokens L) :=
  joins_one.add (h.mul_kstar ((joins_token _).after (ends_token (by decide)) h)
    (begins_token (by decide)).mul)

/-- The elements of a list and the bracket that closes it. -/
theorem joins_elements {closer : TokenKind} (hclosed : closer ∉ openEnded)
    (hfresh : closer ∉ wordLike) (h : Joins tokens L) :
    Joins tokens (elements tokens .strict closer L) ∧
      Ends tokens (elements tokens .strict closer L) := by
  rw [elements, wanted_strict]
  exact ⟨(joins_separated h).before (joins_token _) (begins_token (by simpa using hfresh)),
    (ends_token (by simpa using hclosed)).mul⟩

theorem joins_closed :
    Joins tokens (closed tokens .strict) ∧ Ends tokens (closed tokens .strict) := by
  rw [closed, wanted_strict]
  exact ⟨joins_operand.before (joins_token _) (begins_token (by decide)),
    (ends_token (by decide)).mul⟩

theorem joins_condition :
    Joins tokens (condition tokens .strict) ∧ Ends tokens (condition tokens .strict) :=
  ⟨((joins_token _).after (ends_token (by decide)) joins_closed.1).add spacing_zero,
    joins_closed.2.mul.add spacing_zero⟩

theorem joins_loopHeader :
    Joins tokens (loopHeader tokens .strict) ∧ Ends tokens (loopHeader tokens .strict) := by
  have hrange : Joins tokens (token tokens [.inKeyword] * operand .strict + 0) :=
    ((joins_token _).after (ends_token (by decide)) joins_operand).add spacing_zero
  have hbegins : Begins tokens (token tokens [.inKeyword] * operand .strict + 0) :=
    (begins_token (by decide)).mul.add spacing_zero
  have hclosed := hrange.before (joins_token [.rightParen]) (begins_token (by decide))
  have hvariable : Joins tokens (node [.identifierExpression] + fault .strict) :=
    (joins_node _).add spacing_zero
  rw [loopHeader, wanted_strict]
  exact ⟨((joins_token _).after (ends_token (by decide))
      (hvariable.before hclosed hbegins.mul)).add spacing_zero,
    (ends_token (by decide)).mul.mul.mul.add spacing_zero⟩

theorem joins_parameter : Joins tokens (parameter tokens .strict) := by
  have hdefault : Joins tokens (operator tokens .assignOperator [.equal] * operand .strict) :=
    (joins_operator _ _).after (ends_operator _ (by decide)) joins_operand
  rw [parameter, mul_add, mul_one]
  exact ((joins_node _).add ((joins_node _).before hdefault
    (begins_operator _ (by decide)).mul)).add spacing_zero

theorem joins_member : Joins tokens (member .strict) := (joins_node _).add spacing_zero

/-- An expression, an operator and what comes after it. -/
theorem Joins.between (hL : Joins tokens L) {O : Language Outline} (hO : Joins tokens O)
    (hbegins : Begins tokens O) (hends : Ends tokens O) (hM : Joins tokens M) :
    Joins tokens (L * (O * M)) :=
  hL.before (hO.after hends hM) hbegins.mul

theorem joins_operation {kinds : List NodeKind} (h : ∀ k ∈ kinds, k ∈ framed)
    (hM : Joins tokens M) : Joins tokens (expression .strict * (node kinds * M)) :=
  joins_expression.between (joins_node _) (frame_node h).1 (frame_node h).2 hM

theorem joins_assignment (hfresh : ∀ k ∈ kinds, k ∉ wordLike) (hclosed : ∀ k ∈ kinds, k ∉ openEnded)
    (hL : Joins tokens L) (hM : Joins tokens M) :
    Joins tokens (L * (operator tokens .assignOperator kinds * M)) :=
  hL.between (joins_operator _ _) (begins_operator _ hfresh) (ends_operator _ hclosed) hM

/-- What comes after tokens that are closed. -/
theorem joins_token_mul (h : ∀ k ∈ kinds, k ∉ openEnded) (hL : Joins tokens L) :
    Joins tokens (token tokens kinds * L) :=
  (joins_token _).after (ends_token h) hL

theorem joins_operator_mul (kind : NodeKind) (h : ∀ k ∈ kinds, k ∉ openEnded)
    (hL : Joins tokens L) : Joins tokens (operator tokens kind kinds * L) :=
  (joins_operator _ _).after (ends_operator _ h) hL

theorem isChain_of_apart : ∀ os : List Outline, os.IsChain (Outline.Apart tokens) →
    (∀ o ∈ os, o.tokens ≠ [] ∧ o.Spaced tokens ∧
      (o.Parts → BeginsFresh tokens o.tokens ∧ EndsClosed tokens o.tokens)) →
    (forestTokens os).IsChain (Parted tokens)
  | [], _, _ => .nil
  | [o], _, h => by
    simpa [forestTokens] using (h o List.mem_cons_self).2.1.chain
  | o :: p :: os, hapart, h => by
    obtain ⟨hpair, hrest⟩ := List.isChain_cons_cons.mp hapart
    obtain ⟨-, ho, hparts⟩ := h o List.mem_cons_self
    obtain ⟨hp, -, hparts'⟩ := h p (by simp)
    have ih := isChain_of_apart (p :: os) hrest fun q hq => h q (List.mem_cons_of_mem _ hq)
    rw [forestTokens]
    rcases hpair with hpair | hpair | ⟨i, hi, hline⟩
    · exact isChain_append_of_closes ho.chain ih (hparts hpair).2
    · exact isChain_append_of_opens ho.chain ih (hparts' hpair).1.append
    · refine ho.chain.append ih fun j _ k hk => .inr (.inr ?_)
      obtain rfl : i = k := by
        rw [forestTokens, List.head?_append_of_ne_nil _ hp, hi] at hk
        exact Option.some.inj hk
      exact hline

/-- In a list of statements an expression after another begins a line. -/
theorem joins_statements : Joins tokens (statements tokens .strict) := by
  rintro os ⟨hmem, hapart⟩ hspaced
  have htokens := Grammar.tokens_ne_nil_of_mem_kstar hmem
  refine isChain_of_apart os hapart fun o ho => ⟨htokens o ho, hspaced o ho, fun hparts => ?_⟩
  obtain ⟨rows, rfl, hrows⟩ := Language.mem_kstar.mp hmem
  obtain ⟨row, hrow, ho⟩ := List.mem_flatten.mp ho
  rcases hrows row hrow with hsemi | ⟨kind, cs, rfl, hstands, -⟩
  · have hbegins : Begins tokens (token tokens [.semicolon]) := begins_token (by decide)
    have hends : Ends tokens (token tokens [.semicolon]) := ends_token (by decide)
    have hopens := hbegins row hsemi
    have hcloses := hends row hsemi
    obtain ⟨i, t, rfl, -, -⟩ := hsemi
    obtain rfl := List.mem_singleton.mp ho
    have hself : ∀ o ∈ [Outline.token i], o.Spaced tokens := fun o ho =>
      hspaced o (List.mem_flatten_of_mem hrow ho)
    exact ⟨hopens hself, hcloses hself⟩
  · obtain rfl := List.mem_singleton.mp ho
    rcases hparts with hnone | herror
    · cases hnone
    · obtain rfl : kind = .error := Option.some.inj herror
      exact absurd hstands (by decide)

theorem joins_children (kind : NodeKind) : Joins tokens (children tokens .strict kind) := by
  cases kind
  case file => exact joins_statements
  case assignmentStatement =>
    exact (joins_assignment (by decide) (by decide) joins_expression joins_operand).add
      (joins_assignment (by decide) (by decide) joins_expression joins_optional)
  case operatorExpression => exact joins_operation (by decide) joins_operand
  case tildeExpression => exact joins_operation (by decide) joins_operand
  case memberExpression => exact joins_operation (by decide) joins_member
  case atExpression => exact joins_operation (by decide) joins_member
  case formulaExpression => exact joins_operator_mul _ (by decide) joins_operand
  case notExpression => exact joins_operator_mul _ (by decide) joins_operand
  case signExpression => exact joins_operator_mul _ (by decide) joins_operand
  case ifStatement =>
    have helse : Joins tokens (token tokens [.elseKeyword] * operand .strict) :=
      joins_token_mul (by decide) joins_operand
    have hbranches : Joins tokens (operand .strict *
        (1 + token tokens [.elseKeyword] * operand .strict)) := by
      rw [mul_add, mul_one]
      exact joins_operand.add (joins_operand.before helse (begins_token (by decide)).mul)
    exact joins_token_mul (by decide) (joins_condition.1.after joins_condition.2 hbranches)
  case whileStatement =>
    exact joins_token_mul (by decide) (joins_condition.1.after joins_condition.2 joins_operand)
  case forStatement =>
    exact joins_token_mul (by decide) (joins_loopHeader.1.after joins_loopHeader.2 joins_operand)
  case repeatStatement => exact joins_token_mul (by decide) joins_operand
  case blockExpression =>
    rw [children, wanted_strict]
    exact joins_token_mul (by decide)
      (joins_statements.before (joins_token _) (begins_token (by decide)))
  case helpExpression =>
    have htopic : Joins tokens (token tokens keywords + operand .strict) :=
      (joins_token _).add joins_operand
    rw [children, add_mul, one_mul]
    exact joins_token_mul (by decide) (htopic.add (joins_token_mul (by decide) htopic))
  case parenthesizedExpression => exact joins_token_mul (by decide) joins_closed.1
  case functionExpression =>
    exact joins_token_mul (by decide)
      ((joins_node _).after (frame_node (by decide)).2 joins_operand)
  case parameterList =>
    exact (joins_token_mul (by decide)
      (joins_elements (by decide) (by decide) (joins_node _)).1).add spacing_zero
  case parameter =>
    have hnone : (1 + fault .strict : Language Outline) = 1 := add_zero _
    rw [children, hnone, mul_one]
    exact joins_parameter
  case callExpression =>
    exact joins_expression.before (joins_node _) (frame_node (by decide)).1
  case argumentList =>
    exact joins_token_mul (by decide) (joins_elements (by decide) (by decide) joins_argument).1
  case namedArgument =>
    exact joins_assignment (by decide) (by decide) (joins_node _) joins_optional
  case subscriptionExpression =>
    have hrow : ∀ opener closer, opener ∉ openEnded → opener ∉ wordLike → closer ∉ openEnded →
        closer ∉ wordLike → Joins tokens (expression .strict * (token tokens [opener] *
          elements tokens .strict closer (argument .strict))) := by
      intro opener closer hopen hopen' hclose hclose'
      exact joins_expression.between (joins_token _) (begins_token (by simpa using hopen'))
        (ends_token (by simpa using hopen)) (joins_elements hclose hclose' joins_argument).1
    rw [children, mul_add]
    exact (hrow _ _ (by decide) (by decide) (by decide) (by decide)).add
      (hrow _ _ (by decide) (by decide) (by decide) (by decide))
  case namespaceAccessExpression =>
    exact (joins_token _).between (joins_token _) (begins_token (by decide)) (ends_token (by decide))
      ((joins_node _).add spacing_zero)
  -- The other rows are empty or have one token.
  all_goals first
    | exact spacing_zero
    | exact joins_one
    | exact joins_token _

/-- The nodes between two expressions begin and end with tokens that are apart from names. -/
theorem frame_children {kind : NodeKind} (h : kind ∈ framed) :
    Begins tokens (children tokens .strict kind) ∧ Ends tokens (children tokens .strict kind) := by
  cases kind
  case parameterList =>
    exact ⟨(begins_token (by decide)).mul.add spacing_zero,
      (joins_elements (by decide) (by decide) (joins_node _)).2.mul.add spacing_zero⟩
  case argumentList =>
    exact ⟨(begins_token (by decide)).mul,
      (joins_elements (by decide) (by decide) joins_argument).2.mul⟩
  case token => exact absurd h (by simp [framed, binaryOperators])
  all_goals first
    | exact ⟨begins_token (by decide), ends_token (by decide)⟩
    | exact absurd h (by decide)

end Production

namespace Outline

theorem spaced_token (i : Nat) : (token i).Spaced tokens :=
  ⟨.singleton i, fun _ hk => by cases hk⟩

mutual
/-- In a strict tree every name and every number is parted from the next token. -/
theorem Derived.spaced : (o : Outline) → o.Derived tokens .strict → o.Spaced tokens
  | .token i, _ => spaced_token i
  | .node kind cs, ⟨hrow, hcs⟩ => by
    have hspaced := ForestDerived.spaced cs hcs
    refine ⟨Production.joins_children kind cs hrow hspaced, fun k hk hframed => ?_⟩
    obtain rfl : kind = k := Option.some.inj hk
    exact ⟨(Production.frame_children hframed).1 cs hrow hspaced,
      (Production.frame_children hframed).2 cs hrow hspaced⟩

theorem ForestDerived.spaced : (os : List Outline) → ForestDerived tokens .strict os →
    ∀ o ∈ os, o.Spaced tokens
  | [], _, _, h => by cases h
  | o :: os, ⟨ho, hos⟩, p, hp =>
    (List.mem_cons.mp hp).elim (fun heq => heq ▸ Derived.spaced o ho)
      (ForestDerived.spaced os hos p)
end

end Outline

/-- Directly after a token that the grammar sees no line begins. -/
theorem startsLine_append {before : List Token} {t : Token} (ht : t.kind.isLayout = false)
    (ts : List Token) : startsLine (before ++ t :: ts) (before.length + 1) = false := by
  have htake : (before ++ t :: ts).take (before.length + 1) = before ++ [t] := by
    simp [List.take_append]
  rw [startsLine, htake, List.reverse_append, List.reverse_singleton, List.singleton_append,
    List.takeWhile_cons_of_neg (by simp [ht])]
  rfl

/-- Where the tokens that the grammar sees are parted, no name and no number is directly followed by
a word. -/
theorem isChain_kind_of_parted : ∀ ts before : List Token,
    (significant before.length ts).IsChain (Parted (before ++ ts)) →
    (ts.map Token.kind).IsChain fun j k => j ∈ openEnded → k ∉ wordLike
  | [], _, _ => .nil
  | [t], _, _ => .singleton t.kind
  | t :: u :: ts, before, h => by
    have hleft : ∀ k ∈ openEnded, k.isLayout = false := by decide
    have hright : ∀ k ∈ wordLike, k.isLayout = false := by decide
    have hsplit : before ++ t :: u :: ts = (before ++ [t]) ++ u :: ts := by simp
    have hrest : ((u :: ts).map Token.kind).IsChain fun j k => j ∈ openEnded → k ∉ wordLike := by
      refine isChain_kind_of_parted (u :: ts) (before ++ [t]) ?_
      rw [significant] at h
      rw [← hsplit, List.length_append, List.length_singleton]
      split at h
      · exact h
      · exact h.tail
    refine List.isChain_cons_cons.mpr ⟨fun hopen hword => ?_, hrest⟩
    have ht := hleft _ hopen
    have hu := hright _ hword
    rw [significant, if_neg (by simp [ht]), significant, if_neg (by simp [hu])] at h
    rcases (List.isChain_cons_cons.mp h).1 with hclosed | hfresh | hline
    · exact hclosed t (by simp) hopen
    · refine hfresh u ?_ hword
      rw [hsplit, List.getElem?_append_right (by simp)]
      simp
    · rw [startsLine_append ht] at hline
      cases hline

end RSource
