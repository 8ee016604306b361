import RSource.Proofs.Lexeme.ReadBack
import RSource.Proofs.Reparse
import RSource.Proofs.Tree.Rows

/-! What a node is called after a rename.  The edit keeps the shape of the tree, so that the node has
its name from the same identifier or string literal; this node is its one leaf, and what was written
there is read back. -/

namespace RSource

open Lexeme

namespace SyntaxTree

variable {t u : SyntaxTree} {id target : NodeId} {name : String}

/-- The name of a node that may be renamed. -/
def name? (t : SyntaxTree) (id : NodeId) : Option String :=
  match t.kind? id with
  | some .assignmentStatement => some (Assignment.name t id)
  | some .parameter => some (Parameter.name t id)
  | some .namedArgument => some (NamedArgument.name t id)
  | some .identifierExpression => some (Identifier.name t id)
  | some .stringLiteralExpression => StringLiteral.name? t id
  | _ => none

/-- The node that carries the name of another is found, and is an identifier or a string literal. -/
theorem target?_eq_ok (h : Rename.target? t id = .ok target) :
    isName t target = true ∧ (t.name? id = t.name? target ∨
      t.name? id = some (nameOrUnnamed t (some target))) := by
  simp only [Rename.target?] at h
  split at h
  · next hkind =>
    rw [← Except.ok.inj h]
    exact ⟨by simp [isName, isKind, hkind], .inl rfl⟩
  · next hkind =>
    rw [← Except.ok.inj h]
    exact ⟨by simp [isName, isKind, hkind], .inl rfl⟩
  · next hkind =>
    split at h
    · next found hname =>
      obtain rfl := Except.ok.inj h
      refine ⟨(Option.filter_eq_some_iff.mp hname).2, .inr ?_⟩
      rw [name?, hkind, ← hname]
      rfl
    · cases h
  · next hkind =>
    split at h
    · next found hname =>
      obtain rfl := Except.ok.inj h
      have hidentifier := List.find?_some hname
      refine ⟨by rw [isName, hidentifier, Bool.true_or], .inr ?_⟩
      rw [name?, hkind, ← hname]
      rfl
    · cases h
  · next hkind =>
    split at h
    · next found hname =>
      obtain rfl := Except.ok.inj h
      refine ⟨List.find?_some hname, .inr ?_⟩
      rw [name?, hkind, ← hname]
      rfl
    · cases h
  · cases h
  · cases h

/-- A node is called as the node that carries its name. -/
theorem name?_of_target (htarget : Rename.target? t id = .ok target)
    (hname : nameOf? t target = some name) : t.name? id = some name := by
  obtain ⟨-, h | h⟩ := target?_eq_ok htarget
  · rw [h, name?]
    rw [nameOf?] at hname
    split at hname
    · next hkind => rw [hkind, ← hname]
    · next hkind => rw [hkind, ← hname]
    · cases hname
  · rw [h, nameOrUnnamed, Option.bind_some, hname, Option.getD_some]

/-! ### Trees of one shape -/

/-- The trees have the same nodes in the same places. -/
structure SameShape (t u : SyntaxTree) : Prop where
  kind? : u.kind? = t.kind?
  children : u.children = t.children
  parent? : u.parent? = t.parent?

theorem sameShape_moved (t : SyntaxTree) (text : String) (f : Nat → Nat) (root : NodeId) :
    SameShape t ⟨text, t.nodes.map (Node.moved f), root⟩ := by
  refine ⟨funext fun id => ?_, funext fun id => ?_, funext fun id => ?_⟩
  · simp only [SyntaxTree.kind?, Array.getElem?_map, Option.map_map]
    rfl
  · simp only [SyntaxTree.children, Array.getElem?_map, Option.map_map]
    rfl
  · simp only [SyntaxTree.parent?, Array.getElem?_map, Option.bind_map]
    rfl

theorem SameShape.isKind (h : SameShape t u) : u.isKind = t.isKind := by
  funext kind id
  rw [SyntaxTree.isKind, h.kind?, SyntaxTree.isKind]

theorem SameShape.isName (h : SameShape t u) : isName u = isName t := by
  funext id
  rw [RSource.isName, h.isKind, RSource.isName]

theorem SameShape.childOfKind? (h : SameShape t u) : u.childOfKind? = t.childOfKind? := by
  funext id kind
  rw [SyntaxTree.childOfKind?, h.isKind, h.children, SyntaxTree.childOfKind?]

theorem SameShape.operatorKind? (h : SameShape t u) : u.operatorKind? = t.operatorKind? := by
  have htoken : u.tokenKind? = t.tokenKind? := by
    funext id
    rw [SyntaxTree.tokenKind?, h.kind?, SyntaxTree.tokenKind?]
  funext id
  rw [SyntaxTree.operatorKind?, htoken, h.children, SyntaxTree.operatorKind?]

theorem SameShape.expressionBeforeError? (h : SameShape t u) :
    u.expressionBeforeError? = t.expressionBeforeError? := by
  have hexpression : u.isExpression = t.isExpression := by
    funext id
    rw [SyntaxTree.isExpression, h.kind?, SyntaxTree.isExpression]
  funext ids
  rw [SyntaxTree.expressionBeforeError?, h.isKind, hexpression, SyntaxTree.expressionBeforeError?]

theorem SameShape.assignment (h : SameShape t u) : Assignment.name? u = Assignment.name? t := by
  funext id
  have hright : Assignment.isRight u id = Assignment.isRight t id := by
    simp only [Assignment.isRight, Assignment.operatorKind?, Assignment.operator?,
      h.childOfKind?, h.operatorKind?]
  rw [Assignment.name?, Assignment.assignee?, hright, SyntaxTree.lastExpression?,
    SyntaxTree.firstExpression?, h.children, h.expressionBeforeError?, h.isName]
  rfl

theorem SameShape.target? (h : SameShape t u) : Rename.target? u = Rename.target? t := by
  funext id
  simp only [Rename.target?, h.kind?, h.assignment, Parameter.name?, h.childOfKind?,
    NamedArgument.name?, h.children, h.isName]

/-! ### What is written -/

/-- A node that covers the leaf that is written to has the text that is written. -/
theorem textOf_edited {leaf : NodeId} {before middle after : List Char} {part : String}
    (htext : t.text = String.ofList (before ++ middle ++ after)) (hmiddle : middle ≠ [])
    (hleaf : t.span leaf = ⟨Text.size before, Text.size before + Text.size middle⟩)
    (hspan : t.span id = t.span leaf) (hid : (t.kind? id).isSome = true)
    (hsize : Text.byteLength t.text - (t.span leaf).length + Text.byteLength part ≤ maxOffset) :
    (SyntaxTree.mk (Text.splice t.text (t.span leaf) part)
      (t.nodes.map (Node.moved ((t.span leaf).land (Text.byteLength part)))) t.root).textOf id =
        part := by
  have hpos := Text.size_pos hmiddle
  have hlength : (t.span leaf).length = Text.size middle := by
    rw [hleaf]
    exact Nat.add_sub_cancel_left _ _
  have htotal : Text.byteLength t.text =
      Text.size before + Text.size middle + Text.size after := by
    rw [htext, ← Text.size_eq_byteLength, Text.size_append, Text.size_append]
  have hend : (t.span leaf).stop = Text.size before + Text.size middle := congrArg Span.stop hleaf
  -- The leaf keeps its start, and it stops where the text ends that is written.
  have hstart : (t.span leaf).land (Text.byteLength part) (Text.size before) = Text.size before :=
    Span.land_of_lt (by omega)
  have hstop : (t.span leaf).land (Text.byteLength part) (Text.size before + Text.size middle) =
      Text.size before + Text.byteLength part := by
    rw [Span.land_of_le (by omega) (by omega)]
    omega
  obtain ⟨node, hnode⟩ : ∃ node, t.nodes[id]? = some node := by
    rw [SyntaxTree.kind?, Option.isSome_map] at hid
    exact Option.isSome_iff_exists.mp hid
  have hnodespan : node.span = ⟨Text.size before, Text.size before + Text.size middle⟩ := by
    rw [← hleaf, ← hspan, SyntaxTree.span, hnode]
    rfl
  have hmoved : (SyntaxTree.mk (Text.splice t.text (t.span leaf) part)
      (t.nodes.map (Node.moved ((t.span leaf).land (Text.byteLength part)))) t.root).span id =
        ⟨Text.size before, Text.size before + Text.size part.toList⟩ := by
    simp only [SyntaxTree.span, Array.getElem?_map, hnode, Option.map_some, Option.getD_some,
      Node.moved, Span.moved, hnodespan]
    rw [← SyntaxTree.span, hstart, hstop, Text.size_toList]
  rw [SyntaxTree.textOf, hmoved, hleaf, htext, Text.splice_ofList, Text.slice_ofList,
    String.ofList_toList]

end SyntaxTree

open SyntaxTree

variable {text : String} {limit : Nat} {p : Parse} {id : NodeId} {name : String}
variable {edited : SyntaxTree}

/-- What an identifier or a string literal is called after a rename to a name: the name, without
quotes at its ends for an identifier that stands directly under an assignment. -/
def Rename.readBack (t : SyntaxTree) (target : NodeId) (name : String) : String :=
  if t.isKind .identifierExpression target &&
      (t.parent? target).any (t.isKind .assignmentStatement) then
    Text.trim isNameMark name
  else name

theorem kind?_of_isName {t : SyntaxTree} (h : isName t id = true) :
    t.kind? id = some .identifierExpression ∨ t.kind? id = some .stringLiteralExpression := by
  simpa [isName, SyntaxTree.isKind] using h

/-- An identifier or a string literal of a parsed tree covers its one leaf. -/
theorem span_eq_of_isName {os : List Outline} {more : List Nat} {t : SyntaxTree} {leaf : NodeId}
    (h : Grammar.Found (lex text) os more)
    (hbuild : SyntaxTree.build text (lex text) (Outline.node .file os).events = .ok t)
    (hname : isName t id = true) (hleaf : leaf ∈ t.children id) : t.span id = t.span leaf := by
  obtain ⟨c, hchildren, hspan⟩ : ∃ c, t.children id = [c] ∧ t.span c = t.span id := by
    rcases kind?_of_isName hname with hkind | hkind
    · exact h.exists_leaf hbuild hkind rfl (by decide) rfl
    · exact h.exists_leaf hbuild hkind rfl (by decide) rfl
  rw [hchildren] at hleaf
  rw [List.mem_singleton.mp hleaf, hspan]

/-- What an identifier is called that has the text a rename writes. -/
theorem Identifier.name_eq {t : SyntaxTree} {old : String}
    (htext : Rename.identifierText old name = .ok (t.textOf id))
    (hcolon : ¬ [':', ':'] <:+: name.toList) :
    Identifier.name t id =
      if (t.parent? id).any (t.isKind .assignmentStatement) then Text.trim isNameMark name
      else name := by
  rw [Identifier.name]
  split
  · exact Rename.trim_identifierText htext hcolon (by decide)
  · refine (Rename.trim_identifierText htext hcolon (by decide)).trans (Text.trim_eq_self ?_)
    intro c hc
    have hne : c ≠ backtick := fun heq => Rename.backtick_not_mem htext (heq ▸ hc)
    simpa [backtick] using hne

/-- What an identifier or a string literal is called when it has the text a rename writes. -/
theorem nameOf?_eq_readBack {t u : SyntaxTree} {target leaf : NodeId} {kind : TokenKind}
    (hshape : SameShape t u) (hname : isName t target = true)
    (hkind : kind = if t.isKind .identifierExpression target then .identifier else .string)
    (hwrites : Rename.Writes t leaf name (u.textOf target) kind)
    (hform : kind = .string → ∃ c w, (t.textOf leaf).toList = c :: w ∧ StringForm c w)
    (hwritable : t.isKind .stringLiteralExpression target = true ∨
      ¬ [':', ':'] <:+: name.toList) :
    nameOf? u target = some (Rename.readBack t target name) := by
  rw [nameOf?, hshape.kind?]
  rcases kind?_of_isName hname with hidentifier | hstring
  · have htarget : t.isKind .identifierExpression target = true := by
      simp [SyntaxTree.isKind, hidentifier]
    rw [if_pos htarget] at hkind
    have hcolon := hwritable.resolve_left (by simp [SyntaxTree.isKind, hidentifier])
    rcases hwrites.written with ⟨-, hwritten⟩ | ⟨hother, -⟩
    · rw [hidentifier]
      simp only [Identifier.name_eq hwritten hcolon, Rename.readBack, htarget, Bool.true_and,
        hshape.parent?, hshape.isKind]
    · rw [hkind] at hother
      cases hother
  · have hnot : t.isKind .identifierExpression target = false := by
      simp [SyntaxTree.isKind, hstring]
    rw [hnot, if_neg Bool.false_ne_true] at hkind
    rcases hwrites.written with ⟨hother, -⟩ | ⟨-, hwritten⟩
    · rw [hkind] at hother
      cases hother
    · obtain ⟨c, w, hchars, hliteral⟩ := hform hkind
      rw [hstring]
      simp only [StringLiteral.name?, Rename.readBack, hnot, Bool.false_and, Bool.false_eq_true,
        if_false]
      exact Rename.contents?_stringText hchars hliteral hwritten

/-- A node of a parsed tree that is renamed has the new name, if that has no `::` or if a string
literal carries it.  An identifier directly under an assignment has it without quotes at its ends. -/
theorem rename_name (hp : parse text limit = .ok p) (hrename : p.tree.rename id name = .ok edited) :
    ∃ target, Rename.target? p.tree id = .ok target ∧ isName p.tree target = true ∧
      (p.tree.isKind .stringLiteralExpression target = true ∨ ¬ [':', ':'] <:+: name.toList →
        edited.name? id = some (Rename.readBack p.tree target name)) := by
  obtain ⟨os, more, hfound⟩ := Grammar.found (lex text)
  have hbuild := (parseTokens_eq_ok hfound hp).1
  have hstraight := SyntaxTree.build_straight (inOrder_lex text) hbuild
  obtain ⟨target, leaf, part, htarget, hreplacement, hreplace⟩ := Rename.exists_replacement hrename
  obtain ⟨kind, hwrites, hchild, hkind⟩ := Rename.replacement_eq_ok hreplacement
  obtain ⟨hsize, rfl⟩ := SyntaxTree.replaceTokenText_eq_ok hreplace hstraight
  have hname := (target?_eq_ok htarget).1
  refine ⟨target, htarget, hname, fun hwritable => ?_⟩
  have hshape := sameShape_moved p.tree (Text.splice p.tree.text (p.tree.span leaf) part)
    ((p.tree.span leaf).land (Text.byteLength part)) p.tree.root
  obtain ⟨before, l, after, hsplit, hlkind, hspan, hold⟩ :=
    exists_lexeme_of_leaf hfound hbuild hwrites.leaf
  have hl : l ∈ ofText text := by simp [hsplit]
  have htext : p.tree.text = String.ofList
      (before.flatMap Lexeme.chars ++ l.chars ++ after.flatMap Lexeme.chars) := by
    rw [(leaves_eq_tile hfound hbuild).1, ← String.ofList_toList (s := text),
      ← flatMap_chars_ofText, hsplit, List.flatMap_append, List.flatMap_cons, List.append_assoc]
  have hsome : (p.tree.kind? target).isSome = true := by
    rcases kind?_of_isName hname with h | h
    · rw [h]; rfl
    · rw [h]; rfl
  -- The leaf is all there is of the node, so that the text of the node is what is written.
  have hpart := textOf_edited htext (chars_ne_nil_of_mem_ofText hl) hspan
    (span_eq_of_isName hfound hbuild hname hchild) hsome hsize
  refine name?_of_target (hshape.target? ▸ htarget)
    (nameOf?_eq_readBack hshape hname hkind (hpart.symm ▸ hwrites) (fun hstring => ?_) hwritable)
  obtain ⟨c, w, hchars, hform⟩ := Rename.stringForm_of_mem hl (hlkind.trans hstring)
  exact ⟨c, w, by rw [hold, String.toList_ofList, hchars], hform⟩

/-- The name is carried by a string literal and keeps its `::`; the parenthesis is not closed. -/
theorem rename_name_string : ∃ p edited target, parse "f(\"k\" = 1" 1 = .ok p ∧
    p.tree.rename 11 "a::b" = .ok edited ∧ Rename.target? p.tree 11 = .ok target ∧
    p.tree.isKind .stringLiteralExpression target = true ∧ edited.name? 11 = some "a::b" := by
  have haccepted : (parse "f(\"k\" = 1" 1).toOption.any (fun p =>
      (p.tree.rename 11 "a::b").toOption.any fun _ => (Rename.target? p.tree 11).toOption.any
        fun target => p.tree.isKind .stringLiteralExpression target &&
          Rename.readBack p.tree target "a::b" == "a::b") = true := by
    decide +kernel
  obtain ⟨p, hp, h⟩ := exists_of_any_toOption haccepted
  obtain ⟨edited, hrename, h⟩ := exists_of_any_toOption h
  obtain ⟨target, htarget, h⟩ := exists_of_any_toOption h
  obtain ⟨hstring, hread⟩ := Bool.and_eq_true_iff.mp h
  obtain ⟨target', htarget', -, hname⟩ := rename_name hp hrename
  obtain rfl := Except.ok.inj (htarget'.symm.trans htarget)
  refine ⟨p, edited, target', hp, hrename, htarget, hstring, ?_⟩
  rw [hname (.inl hstring), eq_of_beq hread]

/-- Not every new name is read back as it is, even one that is written already: an assignee loses
quotes at the ends of its name, and an identifier what comes before `::`. -/
theorem rename_name_differs :
    (∃ p edited, parse "`\"a\"` <- 1" 1 = .ok p ∧ p.tree.rename 8 "\"a\"" = .ok edited ∧
      edited.name? 8 = some "a") ∧
    ∃ p edited, parse "f(`a::b`)" 1 = .ok p ∧ p.tree.rename 4 "a::b" = .ok edited ∧
      edited.name? 4 = some "b" := by
  have hquotes : (parse "`\"a\"` <- 1" 1).toOption.any (fun p =>
      (p.tree.rename 8 "\"a\"").toOption.any (·.name? 8 == some "a")) = true := by
    decide +kernel
  have hcolons : (parse "f(`a::b`)" 1).toOption.any (fun p =>
      (p.tree.rename 4 "a::b").toOption.any (·.name? 4 == some "b")) = true := by
    decide +kernel
  obtain ⟨p, hp, h⟩ := exists_of_any_toOption hquotes
  obtain ⟨edited, hrename, hname⟩ := exists_of_any_toOption h
  obtain ⟨q, hq, h⟩ := exists_of_any_toOption hcolons
  obtain ⟨edited', hrename', hname'⟩ := exists_of_any_toOption h
  exact ⟨⟨p, edited, hp, hrename, eq_of_beq hname⟩, q, edited', hq, hrename', eq_of_beq hname'⟩

end RSource
