import RSource.Proofs.Tree.Edits
import RSource.Proofs.View.Sides

/-! Named arguments.  The name stands before `=` and the value behind it, and a rename changes only
what stands before `=`.  The exception is an argument whose name is `NULL`, which is no name to the
search: it goes on and takes the value for the name if that is an identifier or a string. -/

namespace RSource

variable {id : NodeId} {text : String} {limit : Nat} {p : Parse} {edited : SyntaxTree}

namespace SyntaxTree

open Text (seam)

variable {u : SyntaxTree} {pieces : List (List Char)} {new : List Char} {i : Nat}

/-- The texts of two trees are the same from where a node starts in each to their ends. -/
def SameFrom (t u : SyntaxTree) (id : NodeId) : Prop :=
  ∃ front front' rest : String, t.text = front ++ rest ∧ u.text = front' ++ rest ∧
    Text.byteLength front = (t.span id).start ∧ Text.byteLength front' = (u.span id).start

/-! ### What stands behind an edited leaf -/

theorem Ruled.straight (hu : u.Ruled pieces.length) (id : NodeId) : (u.span id).Straight := by
  rw [span]
  cases hnode : u.nodes[id]? with
  | none => exact Nat.le_refl _
  | some node => exact (hu.bounded node (Array.mem_of_getElem? hnode)).1

theorem sameFrom_set (u : SyntaxTree) (h : i < (u.span id).start) :
    SameFrom (u.laidOver pieces) (u.laidOver (pieces.set i new)) id := by
  have hsplit (ps : List (List Char)) : (u.laidOver ps).text =
      String.ofList (ps.take (u.span id).start).flatten ++
        String.ofList (ps.drop (u.span id).start).flatten := by
    rw [← String.ofList_append, ← List.flatten_append, List.take_append_drop]
    rfl
  have hstart (ps : List (List Char)) :
      Text.byteLength (String.ofList (ps.take (u.span id).start).flatten) =
        ((u.laidOver ps).span id).start := by
    rw [span_laidOver, ← Text.size_eq_byteLength]
    rfl
  have hrest : (pieces.set i new).drop (u.span id).start = pieces.drop (u.span id).start :=
    List.drop_set_of_lt h
  exact ⟨_, _, _, hsplit pieces, hrest ▸ hsplit (pieces.set i new), hstart pieces, hstart _⟩

theorem Ruled.textOf_set (hu : u.Ruled pieces.length) (h : i < (u.span id).start) :
    (u.laidOver (pieces.set i new)).textOf id = (u.laidOver pieces).textOf id := by
  have htext (ps : List (List Char)) : (u.laidOver ps).textOf id =
      String.ofList ((ps.take (u.span id).stop).drop (u.span id).start).flatten := by
    rw [textOf, span_laidOver]
    exact Text.slice_seams ps (hu.straight id)
  rw [htext, htext, List.take_set, List.drop_set_of_lt h]

/-- A node ends before its next sibling starts. -/
theorem Ruled.stop_le_start (hu : u.Ruled pieces.length) {a b : NodeId}
    (hsub : [a, b].Sublist (u.children id)) : (u.span a).stop ≤ (u.span b).start := by
  have hne : u.children id ≠ [] := by
    intro hnil
    rw [hnil] at hsub
    cases hsub
  exact (hu.children id hne).stop_le_start (hsub.map u.span)

end SyntaxTree

open SyntaxTree

/-- A rename writes to one piece of the text, that of the node with the name. -/
theorem exists_set_of_rename {name : String} (hp : parse text limit = .ok p)
    (hrename : p.tree.rename id name = .ok edited) :
    ∃ (u : SyntaxTree) (pieces : List (List Char)) (i : Nat) (new : List Char) (target : NodeId),
      u.Ruled pieces.length ∧ p.tree = u.laidOver pieces ∧
      edited = u.laidOver (pieces.set i new) ∧ Rename.target? p.tree id = .ok target ∧
      u.span target = ⟨i, i + 1⟩ := by
  obtain ⟨os, more, hfound⟩ := Grammar.found (lex text)
  have hbuild := (parseTokens_eq_ok hfound hp).1
  obtain ⟨target, leaf, part, htarget, hreplacement, hreplace⟩ := Rename.exists_replacement hrename
  obtain ⟨kind, hwrites, hchild, -⟩ := Rename.replacement_eq_ok hreplacement
  obtain ⟨c, hchildren⟩ : ∃ c, p.tree.children target = [c] := by
    rcases kind?_of_isName (target?_eq_ok htarget).1 with hkind | hkind
    · obtain ⟨c, hc, -⟩ := hfound.exists_leaf hbuild hkind rfl (by decide) rfl
      exact ⟨c, hc⟩
    · obtain ⟨c, hc, -⟩ := hfound.exists_leaf hbuild hkind rfl (by decide) rfl
      exact ⟨c, hc⟩
  obtain rfl := List.mem_singleton.mp (hchildren ▸ hchild)
  have htoken : p.tree.isToken leaf = true := by
    rw [isToken, tokenKind?, hwrites.leaf]
    rfl
  obtain ⟨u, hu, htree⟩ := exists_over_of_parse hp
  generalize hpieces : (Lexeme.ofText text).map Lexeme.chars = pieces at htree
  have hlength : pieces.length = (Lexeme.ofText text).length := by
    rw [← hpieces, List.length_map]
  rw [← hlength] at hu
  have hshape := sameShape_laidOver u pieces
  rw [← htree] at hshape
  rw [hshape.isToken] at htoken
  obtain ⟨i, hi, hleaf⟩ := hu.exists_span htoken
  -- No lexeme is empty, so that the leaf does not move behind what is written.
  have hpiece : pieces[i] ≠ [] := by
    have hmem : pieces[i] ∈ (Lexeme.ofText text).map Lexeme.chars :=
      hpieces ▸ List.getElem_mem hi
    obtain ⟨l, hl, hchars⟩ := List.mem_map.mp hmem
    exact hchars ▸ Lexeme.chars_ne_nil_of_mem_ofText hl
  have htiles := hu.children target (by rw [← hshape.children, hchildren]; simp)
  rw [← hshape.children, hchildren, List.map_singleton, hleaf] at htiles
  obtain ⟨hstart, -, hstop⟩ := htiles
  refine ⟨u, pieces, i, part.toList, target, hu, htree, ?_, htarget,
    congrArg₂ Span.mk hstart.symm hstop.symm⟩
  rw [htree] at hreplace
  exact hu.replaceTokenText_laidOver hleaf (List.getElem?_eq_getElem hi) (.inl hpiece) hreplace

namespace NamedArgument

variable {t : SyntaxTree} {operator name value e : NodeId} {tokens : List Token}

/-- The name of the argument is `NULL`. -/
def NullNamed (t : SyntaxTree) (id operator : NodeId) : Prop :=
  ∃ n, t.isKind .nullLiteral n = true ∧ t.Beside id operator n false

/-- What a named argument hands out, with respect to its `=`. -/
structure Sides (t : SyntaxTree) (id operator : NodeId) : Prop where
  found : t.childOfKind? id .assignOperator = some operator
  value : ∀ e, value? t id = some e → t.Beside id operator e true
  name : ∀ e, name? t id = some e →
    t.Beside id operator e false ∨ NullNamed t id operator ∧ value? t id = some e

theorem exists_sided
    (h : t.Reads tokens (Production.children tokens .lenient .namedArgument)
      (t.significantChildren id)) :
    ∃ name operator value, t.Sided id name operator value ∧
      t.kind? operator = some .assignOperator ∧
      (isName t name = true ∨ t.isKind .nullLiteral name = true) := by
  obtain ⟨name, operator, value, hrow, ⟨kind, hkind, hname⟩, hoperator, hvalue⟩ :=
    SyntaxTree.exists_members h (fun _ hns => hns.node) (fun _ hns => hns.operator)
      fun _ hns => hns.optional
  have hcases : isName t name = true ∨ t.isKind .nullLiteral name = true := by
    simp only [isName, isKind, hname, Bool.or_eq_true, decide_eq_true_eq, Option.some.injEq]
    simpa [or_assoc] using hkind
  have hexpression : ∀ kind ∈ [NodeKind.identifierExpression, .stringLiteralExpression,
      .nullLiteral], kind.isExpression = true := by decide
  refine ⟨name, operator, value, ⟨hrow, .inl ?_, isOperator_of_kind hoperator rfl, hvalue⟩,
    hoperator, hcases⟩
  rw [isExpression, hname]
  exact hexpression kind hkind

theorem name?_eq (h : t.Sided id name operator value) :
    name? t id = ([name, value].filter (isName t)).head? := by
  have hlayout (n) (hn : t.isLayout n = true) : isName t n = false := by
    rw [isName, isKind_of_isLayout rfl hn, isKind_of_isLayout rfl hn]
    rfl
  have hoperator : isName t operator = false := by
    by_contra hname
    have hkind := kind?_of_isName (by simpa using hname)
    have hthere := h.operator
    rw [isOperator] at hthere
    rcases hkind with hkind | hkind <;> simp [hkind, NodeKind.isOperator] at hthere
  rw [name?, ← List.head?_filter, filter_children hlayout, h.row]
  simp [List.filter_cons, hoperator]

theorem value?_eq (h : t.Sided id name operator value) (hname : t.isExpression name = true) :
    value? t id = (some value).filter t.isExpression := by
  rw [value?, h.expressions_eq, List.filter_cons_of_pos hname]
  cases hvalue : t.isExpression value <;> simp [Option.filter_some, hvalue]

theorem isExpression_of_isName (h : isName t e = true) : t.isExpression e = true := by
  rw [isExpression]
  rcases kind?_of_isName h with hkind | hkind <;> rw [hkind] <;> rfl

theorem isExpression_of_null (h : t.isKind .nullLiteral e = true) : t.isExpression e = true := by
  rw [isExpression, of_decide_eq_true h]
  rfl

theorem sides_of_sided (h : t.Sided id name operator value)
    (hoperator : t.kind? operator = some .assignOperator)
    (hname : isName t name = true ∨ t.isKind .nullLiteral name = true) : Sides t id operator := by
  have hvalue := value?_eq h (hname.elim isExpression_of_isName isExpression_of_null)
  refine ⟨h.childOfKind?_eq rfl hoperator, fun e he => h.beside_of_filter (hvalue ▸ he),
    fun e he => ?_⟩
  rw [name?_eq h] at he
  cases hisName : isName t name with
  | true =>
    rw [List.filter_cons_of_pos hisName] at he
    exact .inl (Option.some.inj he ▸ h.beside false)
  | false =>
    rw [List.filter_cons_of_neg (by simp [hisName])] at he
    have hmem := List.mem_filter.mp (List.mem_of_mem_head? he)
    obtain rfl := List.mem_singleton.mp hmem.1
    refine .inr ⟨⟨name, hname.resolve_left (by simp [hisName]), h.beside false⟩, ?_⟩
    rw [hvalue, Option.filter_some, if_pos (isExpression_of_isName hmem.2)]

theorem value?_of_sameShape {u : SyntaxTree} (h : SameShape t u) : value? u = value? t := by
  have hexpression : u.isExpression = t.isExpression := by
    funext e
    rw [isExpression, h.kind?, isExpression]
  funext id
  rw [value?, expressions, hexpression, h.children, value?, expressions]

/-- A rename of an argument that has another name than `NULL` writes before the `=`. -/
theorem lt_of_target {u : SyntaxTree} {pieces : List (List Char)} {i : Nat} {target : NodeId}
    (hu : u.Ruled pieces.length) (hid : (u.laidOver pieces).kind? id = some .namedArgument)
    (hsides : Sides (u.laidOver pieces) id operator)
    (hnull : ¬ NullNamed (u.laidOver pieces) id operator)
    (htarget : Rename.target? (u.laidOver pieces) id = .ok target)
    (hspan : u.span target = ⟨i, i + 1⟩) : i < (u.span operator).start := by
  simp only [Rename.target?, hid] at htarget
  split at htarget
  · next found hname =>
    obtain rfl := Except.ok.inj htarget
    have hbefore := (hsides.name found hname).resolve_right fun h => hnull h.1
    rw [Beside, if_neg Bool.false_ne_true, (sameShape_laidOver u pieces).children] at hbefore
    have hle := hu.stop_le_start hbefore
    rwa [hspan] at hle
  · cases htarget

end NamedArgument

/-- A named argument of a parsed tree has its value behind `=` and its name before it, and a rename
changes only what stands before `=`, and so not the value.  The only exception is an argument with
the name `NULL`, where the value is taken for the name. -/
theorem namedArgument_of_parse (hp : parse text limit = .ok p)
    (hid : p.tree.kind? id = some .namedArgument) :
    ∃ operator, NamedArgument.Sides p.tree id operator ∧
      (¬ NamedArgument.NullNamed p.tree id operator → ∀ name edited,
        p.tree.rename id name = .ok edited → SameFrom p.tree edited operator ∧
          ∀ e, NamedArgument.value? p.tree id = some e →
            NamedArgument.value? edited id = some e ∧ edited.textOf e = p.tree.textOf e) := by
  obtain ⟨os, more, hfound⟩ := Grammar.found (lex text)
  have hbuild := (parseTokens_eq_ok hfound hp).1
  obtain ⟨name, operator, value, hsided, hoperator, hname⟩ :=
    NamedArgument.exists_sided (hfound.reads hbuild hid rfl (by decide))
  have hsides := NamedArgument.sides_of_sided hsided hoperator hname
  refine ⟨operator, hsides, fun hnull new edited hrename => ?_⟩
  obtain ⟨u, pieces, i, chars, target, hu, htree, rfl, htarget, hspan⟩ :=
    exists_set_of_rename hp hrename
  rw [htree] at hid hsides hnull htarget ⊢
  have hlt := NamedArgument.lt_of_target hu hid hsides hnull htarget hspan
  refine ⟨sameFrom_set u hlt, fun e he => ⟨?_, hu.textOf_set ?_⟩⟩
  · have hshape := (sameShape_laidOver u pieces).symm.trans
      (sameShape_laidOver u (pieces.set i chars))
    rw [NamedArgument.value?_of_sameShape hshape, he]
  · have hbehind := hsides.value e he
    rw [Beside, if_pos rfl, (sameShape_laidOver u pieces).children] at hbehind
    have hle := hu.stop_le_start hbehind
    have hstraight : (u.span operator).start ≤ (u.span operator).stop := hu.straight operator
    omega

theorem NamedArgument.not_nullNamed {t : SyntaxTree} {operator : NodeId}
    (h : ((t.children id).all fun c => !t.isKind .nullLiteral c) = true) :
    ¬ NullNamed t id operator := by
  rintro ⟨n, hnull, hbefore⟩
  rw [Beside, if_neg Bool.false_ne_true] at hbefore
  have hnot := List.all_eq_true.mp h n (hbefore.subset (by simp))
  rw [hnull] at hnot
  cases hnot

/-- The new name needs backticks, so that the value moves; the call is not closed. -/
theorem namedArgument_of_parse_moved : ∃ p id operator value edited,
    parse "f(x = y" 1 = .ok p ∧ p.tree.kind? id = some .namedArgument ∧
    NamedArgument.Sides p.tree id operator ∧ p.tree.rename id "a b" = .ok edited ∧
    NamedArgument.value? p.tree id = some value ∧ edited.text = "f(`a b` = y" ∧
    SameFrom p.tree edited operator ∧ NamedArgument.value? edited id = some value ∧
    edited.textOf value = p.tree.textOf value := by
  have haccepted : (parse "f(x = y" 1).toOption.any (fun p =>
      (List.range p.tree.size).any fun id => p.tree.kind? id == some .namedArgument &&
        ((p.tree.children id).all fun c => !p.tree.isKind .nullLiteral c) &&
        (NamedArgument.value? p.tree id).isSome &&
        (p.tree.rename id "a b").toOption.any (·.text == "f(`a b` = y")) = true := by
    decide +kernel
  obtain ⟨p, hp, h⟩ := exists_of_any_toOption haccepted
  obtain ⟨id, -, hid⟩ := List.any_eq_true.mp h
  simp only [Bool.and_eq_true, beq_iff_eq] at hid
  obtain ⟨⟨⟨hkind, hnull⟩, hsome⟩, hrenamed⟩ := hid
  obtain ⟨edited, hrename, htext⟩ := exists_of_any_toOption hrenamed
  obtain ⟨value, hvalue⟩ := Option.isSome_iff_exists.mp hsome
  obtain ⟨operator, hsides, hkept⟩ := namedArgument_of_parse hp hkind
  obtain ⟨hsame, hvalues⟩ := hkept (NamedArgument.not_nullNamed hnull) _ _ hrename
  exact ⟨p, id, operator, value, edited, hp, hkind, hsides, hrename, hvalue, eq_of_beq htext, hsame,
    hvalues value hvalue⟩

/-- Where the name is `NULL` the value behind `=` is handed out as the name, and a rename of the
argument replaces it. -/
theorem namedArgument_null : ∃ p id operator value edited,
    parse "f(NULL = x)" 1 = .ok p ∧ p.tree.kind? id = some .namedArgument ∧
    p.tree.childOfKind? id .assignOperator = some operator ∧
    NamedArgument.name? p.tree id = some value ∧ NamedArgument.value? p.tree id = some value ∧
    p.tree.Beside id operator value true ∧ p.tree.rename id "y" = .ok edited ∧
    edited.text = "f(NULL = y)" := by
  have haccepted : (parse "f(NULL = x)" 1).toOption.any (fun p =>
      (List.range p.tree.size).any fun id => p.tree.kind? id == some .namedArgument &&
        ((p.tree.childOfKind? id .assignOperator).any fun operator =>
          (NamedArgument.name? p.tree id).any fun value =>
            NamedArgument.value? p.tree id == some value &&
              decide (p.tree.Beside id operator value true)) &&
        (p.tree.rename id "y").toOption.any (·.text == "f(NULL = y)")) = true := by
    decide +kernel
  obtain ⟨p, hp, h⟩ := exists_of_any_toOption haccepted
  obtain ⟨id, -, hid⟩ := List.any_eq_true.mp h
  rw [Bool.and_eq_true, Bool.and_eq_true, beq_iff_eq] at hid
  obtain ⟨⟨hkind, hfound⟩, hrenamed⟩ := hid
  obtain ⟨edited, hrename, htext⟩ := exists_of_any_toOption hrenamed
  simp only [Option.any_eq_true, Bool.and_eq_true, beq_iff_eq, decide_eq_true_eq] at hfound
  obtain ⟨operator, hoperator, value, hname, hvalue, hbehind⟩ := hfound
  exact ⟨p, id, operator, value, edited, hp, hkind, hoperator, hname, hvalue, hbehind, hrename,
    eq_of_beq htext⟩

end RSource
