import RSource.Proofs.Lossless

/-! A parse without errors is a derivation.  Only the productions of the grammar are used, and no
node or leaf of the tree stands for something that is wrong. -/

namespace RSource

open scoped Computability
open Outline (forestTokens)
open Lexeme (broken)

variable {tokens : List Token}

namespace Outline

mutual
/-- The kinds of the nodes. -/
def nodeKinds : Outline → List NodeKind
  | .token _ => []
  | .node kind os => kind :: forestNodeKinds os

def forestNodeKinds : List Outline → List NodeKind
  | [] => []
  | o :: os => o.nodeKinds ++ forestNodeKinds os
end

end Outline

namespace Production

/-- Every token of a row is of a kind that the grammar knows. -/
def Clean (tokens : List Token) (L : Language Outline) : Prop :=
  ∀ os ∈ L, ∀ i, .token i ∈ os → ∃ t, tokens[i]? = some t ∧ t.kind ∉ broken

variable {L M : Language Outline}

theorem Clean.add (h : Clean tokens L) (h' : Clean tokens M) : Clean tokens (L + M) :=
  fun os hos => hos.elim (h os) (h' os)

theorem Clean.mul (h : Clean tokens L) (h' : Clean tokens M) : Clean tokens (L * M) := by
  rintro _ ⟨os, hos, ps, hps, rfl⟩ i hi
  exact (List.mem_append.mp hi).elim (h os hos i) (h' ps hps i)

theorem Clean.kstar (h : Clean tokens L) : Clean tokens L∗ := by
  intro os hos i hi
  obtain ⟨rows, rfl, hrows⟩ := Language.mem_kstar.mp hos
  obtain ⟨row, hrow, hi⟩ := List.mem_flatten.mp hi
  exact h row (hrows row hrow) i hi

theorem clean_zero : Clean tokens 0 := fun _ h => h.elim

theorem clean_one : Clean tokens 1 := by
  rintro os rfl i hi
  cases hi

theorem clean_token {kinds : List TokenKind} (h : ∀ k ∈ kinds, k ∉ broken) :
    Clean tokens (token tokens kinds) := by
  rintro _ ⟨i, t, rfl, ht, hk⟩ j hj
  obtain rfl : j = i := by simpa using hj
  exact ⟨t, ht, h _ hk⟩

theorem clean_node (kinds : List NodeKind) : Clean tokens (node kinds) := by
  rintro _ ⟨kind, cs, rfl, -⟩ i hi
  simp at hi

theorem clean_operator (kind : NodeKind) (kinds : List TokenKind) :
    Clean tokens (operator tokens kind kinds) := by
  rintro _ ⟨cs, rfl, -⟩ i hi
  simp at hi

theorem clean_expression {rigor : Rigor} : Clean tokens (expression rigor) := by
  rintro _ ⟨kind, cs, rfl, -, -⟩ i hi
  simp at hi

theorem clean_fault : Clean tokens (fault .strict) := clean_zero

theorem clean_operand : Clean tokens (operand .strict) := clean_expression.add clean_fault

theorem clean_optional : Clean tokens (optional .strict) := (clean_node _).add clean_operand

theorem clean_wanted {kind : TokenKind} (h : kind ∉ broken) :
    Clean tokens (wanted tokens .strict kind) :=
  (clean_token (by simpa using h)).add clean_zero

theorem clean_statements : Clean tokens (statements tokens .strict) := fun os hos =>
  ((clean_token (by decide)).add clean_expression).kstar os hos.1

theorem clean_elements {closer : TokenKind} (hcloser : closer ∉ broken) (h : Clean tokens L) :
    Clean tokens (elements tokens .strict closer L) :=
  (clean_one.add (h.mul ((clean_token (by decide)).mul h).kstar)).mul (clean_wanted hcloser)

theorem clean_argument : Clean tokens (argument .strict) :=
  (clean_node _).add (((clean_node _).add clean_operand).mul (clean_one.add clean_fault))

theorem clean_closed : Clean tokens (closed tokens .strict) :=
  clean_operand.mul (clean_wanted (by decide))

theorem clean_condition : Clean tokens (condition tokens .strict) :=
  ((clean_token (by decide)).mul clean_closed).add clean_zero

theorem clean_loopHeader : Clean tokens (loopHeader tokens .strict) :=
  ((clean_token (by decide)).mul (((clean_node _).add clean_fault).mul
    ((((clean_token (by decide)).mul clean_operand).add clean_zero).mul
      (clean_wanted (by decide))))).add clean_zero

theorem clean_parameter : Clean tokens (parameter tokens .strict) :=
  ((clean_node _).mul (clean_one.add ((clean_operator _ _).mul clean_operand))).add clean_zero

theorem clean_member : Clean tokens (member .strict) := (clean_node _).add clean_fault

/-- The rows of a strict tree have only tokens that the grammar knows. -/
theorem clean_children (kind : NodeKind) : Clean tokens (children tokens .strict kind) := by
  cases kind
  all_goals
    rw [children]
    repeat' first
      | exact clean_zero
      | exact clean_one
      | exact clean_node _
      | exact clean_operator _ _
      | exact clean_expression
      | exact clean_operand
      | exact clean_optional
      | exact clean_fault
      | exact clean_statements
      | exact clean_argument
      | exact clean_closed
      | exact clean_condition
      | exact clean_loopHeader
      | exact clean_parameter
      | exact clean_member
      | exact clean_wanted (by decide)
      | exact clean_token (by decide)
      | apply clean_elements (by decide)
      | apply Clean.add
      | apply Clean.mul

end Production

namespace Outline

mutual
/-- The tokens of a strict tree are of kinds that the grammar knows. -/
theorem Derived.clean : (o : Outline) → o.Derived tokens .strict → (∀ i, o ≠ .token i) →
    ∀ i ∈ o.tokens, ∃ t, tokens[i]? = some t ∧ t.kind ∉ broken
  | .token i, _, h => absurd rfl (h i)
  | .node kind cs, ⟨hrow, hcs⟩, _ =>
    ForestDerived.clean cs hcs fun i hi => Production.clean_children kind cs hrow i hi

theorem ForestDerived.clean : (os : List Outline) → ForestDerived tokens .strict os →
    (∀ i, .token i ∈ os → ∃ t, tokens[i]? = some t ∧ t.kind ∉ broken) →
    ∀ i ∈ forestTokens os, ∃ t, tokens[i]? = some t ∧ t.kind ∉ broken
  | [], _, _, i, hi => by cases hi
  | .token j :: os, ⟨_, hos⟩, h, i, hi => by
    rcases List.mem_append.mp hi with hi | hi
    · obtain rfl := List.mem_singleton.mp hi
      exact h i List.mem_cons_self
    · exact ForestDerived.clean os hos (fun i hi => h i (List.mem_cons_of_mem _ hi)) i hi
  | .node kind cs :: os, ⟨ho, hos⟩, h, i, hi => by
    rcases List.mem_append.mp hi with hi | hi
    · exact Derived.clean (.node kind cs) ho (by simp) i hi
    · exact ForestDerived.clean os hos (fun i hi => h i (List.mem_cons_of_mem _ hi)) i hi
end

mutual
/-- No node of a strict tree is an error. -/
theorem Derived.nodeKinds : (o : Outline) → o.Derived tokens .strict →
    ∀ k ∈ o.nodeKinds, k ≠ .error ∧ k ≠ .invalidLiteral
  | .token _, _, _, hk => by cases hk
  | .node kind cs, ⟨hrow, hcs⟩, k, hk => by
    rcases List.mem_cons.mp hk with rfl | hk
    · constructor
      · rintro rfl
        exact hrow.elim
      · rintro rfl
        exact hrow.elim
    · exact ForestDerived.nodeKinds cs hcs k hk

theorem ForestDerived.nodeKinds : (os : List Outline) → ForestDerived tokens .strict os →
    ∀ k ∈ forestNodeKinds os, k ≠ .error ∧ k ≠ .invalidLiteral
  | [], _, _, hk => by cases hk
  | o :: os, ⟨ho, hos⟩, k, hk =>
    (List.mem_append.mp hk).elim (Derived.nodeKinds o ho k) (ForestDerived.nodeKinds os hos k)
end

theorem forestNodeKinds_append (os ps : List Outline) :
    forestNodeKinds (os ++ ps) = forestNodeKinds os ++ forestNodeKinds ps := by
  induction os with
  | nil => rfl
  | cons o os ih => simp [forestNodeKinds, ih]

mutual
/-- Every node of a tree is a node of its outline. -/
theorem mem_nodeKinds_ofTree {k : NodeKind} (hk : k.tokenKind? = none) :
    (r : Rose NodeKind) → k ∈ r.preorder → ∀ place, k ∈ forestNodeKinds (ofTree place r).1
  | .node kind [], h, place => by
    obtain rfl : k = kind := by simpa [Rose.preorder, Rose.forestPreorder] using h
    rw [ofTree_node hk]
    exact List.mem_append_left _ List.mem_cons_self
  | .node kind (c :: cs), h, place => by
    have hnode : (ofTree place (.node kind (c :: cs))).1 =
        [.node kind (ofForest place (c :: cs)).1] := by
      cases kind <;> rfl
    rw [hnode, forestNodeKinds, nodeKinds, forestNodeKinds, List.append_nil]
    rcases List.mem_cons.mp h with rfl | h
    · exact List.mem_cons_self
    · exact List.mem_cons_of_mem _ (mem_nodeKinds_ofForest hk (c :: cs) h place)

theorem mem_nodeKinds_ofForest {k : NodeKind} (hk : k.tokenKind? = none) :
    (rs : List (Rose NodeKind)) → k ∈ Rose.forestPreorder rs →
      ∀ place, k ∈ forestNodeKinds (ofForest place rs).1
  | [], h, _ => by cases h
  | r :: rs, h, place => by
    rw [ofForest, forestNodeKinds_append]
    rcases List.mem_append.mp h with h | h
    · exact List.mem_append_left _ (mem_nodeKinds_ofTree hk r h place)
    · exact List.mem_append_right _ (mem_nodeKinds_ofForest hk rs h _)
end

end Outline

namespace SyntaxTree

/-- A leaf kind of a built tree is that of one of its leaves. -/
theorem exists_leaf_of_mem_kinds {text : String} {r : Rose Extent} {k : TokenKind}
    (h : .token k ∈ (ofRose text r).kinds.preorder) :
    ∃ t ∈ (ofRose text r).leaves, t.kind = k := by
  rw [kinds_ofRose, Rose.preorder_map] at h
  obtain ⟨e, he, hkind⟩ := List.mem_map.mp h
  refine ⟨⟨k, e.span⟩, ?_, rfl⟩
  rw [leaves_ofRose]
  exact List.mem_filterMap.mpr ⟨e, he, by simp [Extent.token?, hkind, NodeKind.tokenKind?]⟩

end SyntaxTree

theorem firstAtEach_eq_nil {es : List ParseError} (h : ParseError.firstAtEach none es = []) :
    es = [] := by
  cases es with
  | nil => rfl
  | cons e es => simp [ParseError.firstAtEach] at h

/-- A source in which no problem is found keeps to the grammar. -/
theorem Grammar.Found.derived {os : List Outline} {more : List Nat}
    (h : Grammar.Found tokens os more)
    (hclean : (Grammar.source .statements (.ofTokens tokens)).errors = []) :
    (Outline.node .file os).Derived tokens .strict := by
  have hfits : Parser.Fits tokens .strict (fun _ => True) (Parser.one Grammar.source) _ :=
    Grammar.fits_source
  have hfit := hfits.of_true .statements (Cursor.over_ofTokens tokens)
  rw [← h.outline]
  exact (hfit.derived fun _ => by simpa [Parser.one, Parser.bind_apply] using hclean).2.1

/-- A parse that may keep an error and keeps none found no problem. -/
theorem errors_source_eq_nil {text : String} {limit : Nat} {p : Parse} (hlimit : 1 ≤ limit)
    (hp : parseTokens text tokens limit = .ok p) (herrors : p.errors = []) :
    (Grammar.source .statements (.ofTokens tokens)).errors = [] := by
  obtain ⟨os, more, hfound⟩ := Grammar.found tokens
  rw [(parseTokens_eq_ok hfound hp).2, List.take_eq_nil_iff] at herrors
  exact firstAtEach_eq_nil (herrors.resolve_left (by omega))

/-- No leaf of a source that keeps to the grammar stands for something that is wrong. -/
theorem Grammar.Found.known_leaves {text : String} {t : SyntaxTree} {os : List Outline}
    {more : List Nat} (h : Grammar.Found tokens os more)
    (hderived : (Outline.node .file os).Derived tokens .strict)
    (hbuild : SyntaxTree.build text tokens (Outline.node .file os).events = .ok t) :
    ∀ x ∈ t.leaves, x.kind ∉ broken := by
  have hlayout : ∀ kind ∈ broken, kind.isLayout = false := by decide
  intro x hx hbroken
  rcases SyntaxTree.mem_leaves_of_build text rfl h.plain h.significant h.ending hbuild x hx with
    hx | ⟨i, hi, hget⟩
  · rw [hlayout _ hbroken] at hx
    cases hx
  · obtain ⟨y, hy, hknown⟩ := Outline.Derived.clean _ hderived (by simp) i hi
    obtain rfl := Option.some.inj (hget.symm.trans hy)
    exact hknown hbroken

/-- The tree of a source without errors keeps to the grammar. -/
theorem parse_derivation {text : String} {limit : Nat} {p : Parse} (hlimit : 1 ≤ limit)
    (hp : parse text limit = .ok p) (herrors : p.errors = []) :
    (∃ os, p.tree.outline = [.node .file os] ∧
      (Outline.node .file os).Derived (lex text) .strict) ∧
    p.tree.leaves = (lex text).takeWhile (·.kind ≠ .endOfFile) ∧
    ∀ k ∈ p.tree.kinds.preorder,
      k ∉ [.error, .invalidLiteral, .token .badCharacter, .token .openString] := by
  obtain ⟨os, more, hfound⟩ := Grammar.found (lex text)
  have hbuild := (parseTokens_eq_ok hfound hp).1
  have hderived := hfound.derived (errors_source_eq_nil hlimit hp herrors)
  have hfile : NodeKind.file.tokenKind? = none := rfl
  have houtline := SyntaxTree.build_outline text hfile hfound.plain hfound.significant
    hfound.ending hbuild
  obtain ⟨t, hbuild', -, hleaves⟩ :=
    SyntaxTree.build_leaves text hfile hfound.plain hfound.significant hfound.inside
  obtain rfl := Except.ok.inj (hbuild.symm.trans hbuild')
  refine ⟨⟨os, houtline, hderived⟩, hleaves, fun k hk => ?_⟩
  by_cases htoken : k.tokenKind? = none
  · have hmem : k ∈ Outline.forestNodeKinds p.tree.outline :=
      Outline.mem_nodeKinds_ofTree htoken _ hk 0
    rw [houtline, Outline.forestNodeKinds, Outline.forestNodeKinds, List.append_nil] at hmem
    obtain ⟨herror, hinvalid⟩ := Outline.Derived.nodeKinds _ hderived k hmem
    intro hbad
    simp only [List.mem_cons, List.not_mem_nil, or_false] at hbad
    rcases hbad with rfl | rfl | rfl | rfl
    · exact herror rfl
    · exact hinvalid rfl
    · cases htoken
    · cases htoken
  · obtain ⟨kind, rfl⟩ : ∃ kind, k = .token kind := by
      cases k <;> first | exact ⟨_, rfl⟩ | exact absurd rfl htoken
    obtain ⟨r, hr⟩ := SyntaxTree.exists_ofRose_of_build hbuild
    obtain ⟨x, hx, rfl⟩ := SyntaxTree.exists_leaf_of_mem_kinds (hr ▸ hk)
    have hknown := hfound.known_leaves hderived hbuild x (hr ▸ hx)
    simpa [broken] using hknown

theorem parse_derivation_call : ∃ p, parse "f(x) + 1" 1 = .ok p ∧ p.errors = [] ∧
    ∃ os, p.tree.outline = [.node .file os] ∧
      (Outline.node .file os).Derived (lex "f(x) + 1") .strict := by
  have haccepted : (parse "f(x) + 1" 1).toOption.any (·.errors.isEmpty) = true := by
    decide +kernel
  obtain ⟨p, hp, hnone⟩ := exists_of_any_toOption haccepted
  have herrors := List.isEmpty_iff.mp hnone
  exact ⟨p, hp, herrors, (parse_derivation (Nat.le_refl 1) hp herrors).1⟩

end RSource
