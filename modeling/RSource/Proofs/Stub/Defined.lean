import RSource.Proofs.Grammar.Defined
import RSource.Proofs.Lexeme.ReadBack
import RSource.Proofs.Stub.Definition
import RSource.Proofs.Stub.Extracted
import RSource.Proofs.View.Parentheses

/-! A source that is made of lines of definitions has their stubs and no others.  The walk over the
tree goes from line to line, and below an assignment it finds nothing more. -/

namespace RSource

open Lexeme (blank Rest)
open Builder (Dressed ForestDressed)

/-! ### Names -/

/-- Nothing is taken off a name when it is read. -/
theorem Name.read_eq_self (name : Name) {drop : Char → Bool}
    (hdrop : ∀ c, Lexeme.isNameChar c = true → drop c = false) :
    Text.trim drop (String.ofList (afterDoubleColon name.text.toList)) = name.text := by
  obtain ⟨c, w, hchars, htick, hscan⟩ := name.exists_word
  have hall := Lexeme.isNameChar_of_scan htick hscan
  rw [← hchars] at hall
  have hcolon : ¬ [':', ':'] <:+: name.text.toList := by
    intro hinside
    have hname := hall ':' (hinside.subset List.mem_cons_self)
    exact absurd hname (by decide)
  rw [afterDoubleColon_eq_self hcolon, String.ofList_toList,
    Text.trim_eq_self fun x hx => hdrop x (hall x hx)]

theorem isNameMark_eq_false {c : Char} (h : Lexeme.isNameChar c = true) : isNameMark c = false := by
  have hmarks : ['\x60', '"', '\x27'].all (!Lexeme.isNameChar ·) = true := by decide
  by_contra hmark
  simp only [isNameMark, Bool.or_eq_false_iff, beq_eq_false_iff_ne, not_and_or, not_not,
    or_assoc] at hmark
  have hmem : c ∈ ['\x60', '"', '\x27'] := by simpa using hmark
  have hnot := List.all_eq_true.mp hmarks c hmem
  rw [h] at hnot
  cases hnot

namespace Definition

/-! ### Names in a tree -/

variable {t : SyntaxTree} {parent : Option NodeId} {m : Rose (NodeId × Extent)}
variable {name : Name} {place offset : Nat} {ls : List Lexeme}

/-- A node that is a name has its span and stands for it. -/
theorem name_of_dressed (hm : t.Holds parent m)
    (h : Dressed (lex t.text) (nameOutline place) (m.map (·.2)))
    (hrest : Rest t.text place offset (name.lexeme :: ls)) :
    t.span m.label.1 = name.spanAt offset ∧ nameOrUnnamed t (some m.label.1) = name.text := by
  obtain ⟨htoken, hslice⟩ := hrest.identifier
  rw [nameOutline] at h
  obtain ⟨x, hx, hnode⟩ := h.of_singleton
  obtain rfl := Option.some.inj (htoken.symm.trans hx)
  have hlabel := congrArg Rose.label hnode
  rw [Rose.label_map] at hlabel
  have hspan : t.span m.label.1 = name.spanAt offset := by
    rw [hm.span_eq, hlabel]
    rfl
  have htext : t.textOf m.label.1 = name.text := by
    rw [SyntaxTree.textOf, hspan, Text.slice, hslice]
    rfl
  have hname : Identifier.name t m.label.1 = name.text := by
    simp only [Identifier.name, htext]
    split
    · exact name.read_eq_self fun c => isNameMark_eq_false
    · refine name.read_eq_self fun c hc => ?_
      have hmark := isNameMark_eq_false hc
      simp only [isNameMark, Bool.or_eq_false_iff] at hmark
      exact hmark.1.1
  refine ⟨hspan, ?_⟩
  rw [nameOrUnnamed, Option.bind_some, nameOf?, h.kind?_eq hm]
  exact hname

/-! ### Parameters -/

theorem parameterStub_of_dressed (owner : StubId) (hm : t.Holds parent m)
    (h : Dressed (lex t.text) (parameterOutline place) (m.map (·.2)))
    (hrest : Rest t.text place offset (name.lexeme :: ls)) :
    StubTree.parameterStub t owner m.label.1 =
      ⟨.parameter name.text, some owner, name.spanAt offset⟩ := by
  obtain ⟨n, hchild, hn, hname⟩ :=
    Dressed.childOfKind?_eq .identifierExpression [] h hm rfl (by simp) rfl
  obtain ⟨hspan, htext⟩ := name_of_dressed hn hname hrest
  rw [StubTree.parameterStub, Parameter.name, Parameter.name?, hchild, htext, Option.getD_some,
    hspan]

/-- A node of a tree for each outline of a row. -/
def Stand (t : SyntaxTree) (os : List Outline) (ns : List (Rose (NodeId × Extent))) : Prop :=
  List.Forall₂ (fun o n => Dressed (lex t.text) o (n.map (·.2)) ∧ ∃ parent, t.Holds parent n) os ns

/-- The stubs that the parameters among some nodes get. -/
def stubsAt (t : SyntaxTree) (owner : StubId) (ns : List (Rose (NodeId × Extent))) : List Stub :=
  ((ns.map (·.label.1)).filter (t.isKind .parameter)).map (StubTree.parameterStub t owner)

variable {ns : List (Rose (NodeId × Extent))} {os : List Outline} (owner : StubId)

/-- A comma or a parenthesis gets no stub. -/
theorem stubsAt_token {i : Nat} (h : Stand t (.token i :: os) ns) :
    ∃ ns', Stand t os ns' ∧ stubsAt t owner ns = stubsAt t owner ns' := by
  cases h with
  | @cons _ n _ ns hn hns =>
    obtain ⟨parent, hm⟩ := hn.2
    have hnot : ¬ t.isKind .parameter n.label.1 = true := by
      rw [hn.1.isKind_eq hm rfl]
      simp [Outline.kind?]
    exact ⟨ns, hns, by rw [stubsAt, List.map_cons, List.filter_cons_of_neg hnot]; rfl⟩

theorem stubsAt_parameter (h : Stand t (parameterOutline place :: os) ns)
    (hrest : Rest t.text place offset (name.lexeme :: ls)) :
    ∃ ns', Stand t os ns' ∧ stubsAt t owner ns =
      ⟨.parameter name.text, some owner, name.spanAt offset⟩ :: stubsAt t owner ns' := by
  cases h with
  | @cons _ n _ ns hn hns =>
    obtain ⟨parent, hm⟩ := hn.2
    have hparameter : t.isKind .parameter n.label.1 = true := by
      rw [hn.1.isKind_eq hm rfl]
      rfl
    refine ⟨ns, hns, ?_⟩
    rw [stubsAt, List.map_cons, List.filter_cons_of_pos hparameter, List.map_cons,
      parameterStub_of_dressed owner hm hn.1 hrest]
    rfl

theorem stubsAt_moreParameters (ps : List Name) : ∀ {place offset : Nat}
    {ns : List (Rose (NodeId × Extent))} {last : Nat},
    Stand t (moreOutlines place ps ++ [.token last]) ns →
    Rest t.text place offset (moreParameters ps ++ ls) →
    stubsAt t owner ns = parameterStubs owner (offset + 2) ps := by
  induction ps with
  | nil =>
    intro place offset ns last hns _
    obtain ⟨ns', hnil, heq⟩ := stubsAt_token owner hns
    cases hnil
    rw [heq]
    rfl
  | cons p ps ih =>
    intro place offset ns last hns hrest
    have hname := rest_comma hrest
    obtain ⟨ns₁, hns₁, hcomma⟩ := stubsAt_token owner hns
    obtain ⟨ns₂, hns₂, hparameter⟩ := stubsAt_parameter owner hns₁ hname
    rw [hcomma, hparameter, ih hns₂ hname.behind]
    rfl

theorem stubsAt_parameters (ps : List Name) {last : Nat}
    (h : Stand t (parameterOutlines place ps ++ [.token last]) ns)
    (hrest : Rest t.text place offset (parameterLexemes ps ++ ls)) :
    stubsAt t owner ns = parameterStubs owner offset ps := by
  cases ps with
  | nil =>
    obtain ⟨ns', hnil, heq⟩ := stubsAt_token owner h
    cases hnil
    rw [heq]
    rfl
  | cons p ps =>
    obtain ⟨ns', hns', hparameter⟩ := stubsAt_parameter owner h hrest
    rw [hparameter, stubsAt_moreParameters owner ps hns' hrest.behind]
    rfl

theorem map_parameterStub (ps : List Name) (hm : t.Holds parent m)
    (h : Dressed (lex t.text) (functionOutline place ps) (m.map (·.2)))
    (hrest : Rest t.text (place + 2) offset (parameterLexemes ps ++ ls)) :
    (Function.parameters t m.label.1).map (StubTree.parameterStub t owner) =
      parameterStubs owner offset ps := by
  obtain ⟨n, hchild, hn, hlist⟩ := Dressed.childOfKind?_eq .parameterList [.token place] h hm rfl
    (by simp [Outline.kind?]) rfl
  rw [listOutline] at hlist
  obtain ⟨ns, hns, hfilter⟩ := hlist.forest.exists_members fun c => hn.child
  rw [Function.parameters, Function.parameterList?, hchild, Option.map_some, Option.getD_some,
    ParameterList.parameters, hn.children_eq,
    hfilter _ fun id k hid => SyntaxTree.isKind_of_leaf hid rfl]
  have hstand : Stand t _ ns := hns.imp fun _ _ hn => ⟨hn.1, _, hn.2⟩
  obtain ⟨ns', hns', heq⟩ := stubsAt_token owner hstand
  rw [← stubsAt, heq, stubsAt_parameters owner ps hns' hrest]

/-! ### The walk -/

open StubTree

variable {tokens : List Token} {scope : Option StubId} {added : Array Stub} {o : Outline}
variable {ms : List (Rose (NodeId × Extent))}

/-- Nothing is declared at a node around one token, nor in a function. -/
inductive Idle : Outline → Prop
  | single (kind : NodeKind) (i : Nat) (hkind : kind ≠ .assignmentStatement) :
    Idle (.node kind [.token i])
  | function (os : List Outline) : Idle (.node .functionExpression os)

theorem collect_idle (ho : Idle o) (hm : t.Holds parent m)
    (h : Dressed tokens o (m.map (·.2))) : collect t scope added (m.map (·.1)) = added := by
  rw [collect_map]
  cases ho with
  | function os =>
    have hkind : t.isKind .functionExpression m.label.1 = true := by
      rw [h.isKind_eq hm rfl]
      rfl
    rw [if_pos hkind]
  | single kind i hkind =>
    have hassignment : ¬ t.isKind .assignmentStatement m.label.1 = true := by
      rw [h.isKind_eq hm rfl, decide_eq_true_eq]
      exact fun heq => hkind (Option.some.inj heq)
    -- Below the node stands the leaf of its token and nothing else.
    obtain ⟨leaf, rest, hleaf, htoken, hrest, hnil, hwalk⟩ :=
      collectAll_dressed (fun n => hm.child) h.forest
    obtain rfl := hnil.eq_nil
    generalize htree : leaf.map (·.2) = tree at htoken
    cases htoken with
    | token hx =>
      rw [assigned?, if_neg hassignment, hwalk, collect_leaf hleaf htree, Rose.forestMap,
        collectAll, ite_self]

theorem collectAll_idle (hos : ∀ o ∈ os, Idle o) (hms : ∀ m ∈ ms, t.Holds parent m)
    (h : ForestDressed tokens os (Rose.forestMap (·.2) ms)) :
    collectAll t scope added (Rose.forestMap (·.1) ms) = added := by
  induction os generalizing ms with
  | nil =>
    obtain rfl := h.eq_nil
    rfl
  | cons o os ih =>
    obtain ⟨m, rest, hm, ho, hrest, hos', hwalk⟩ := collectAll_dressed hms h
    rw [hwalk, collect_idle (hos o List.mem_cons_self) hm ho]
    exact ih (fun p hp => hos p (List.mem_cons_of_mem _ hp)) hrest hos'

/-- An assignment adds its own stubs only, if nothing is declared in its operands. -/
theorem collect_assignment {left right : Outline} {i : Nat} {n : NodeId} (hm : t.Holds parent m)
    (h : Dressed tokens (assignmentOutline left i right) (m.map (·.2)))
    (hleft : Idle left) (hright : Idle right)
    (hname : Assignment.name? t m.label.1 = some n) :
    collect t scope added (m.map (·.1)) =
      added ++ declared t scope added.size m.label.1 n := by
  rw [assignmentOutline] at h
  have hfunction : ¬ t.isKind .functionExpression m.label.1 = true := by
    rw [h.isKind_eq hm rfl]
    simp [Outline.kind?]
  have hassignment : t.isKind .assignmentStatement m.label.1 = true := by
    rw [h.isKind_eq hm rfl]
    rfl
  have hoperator : Idle (.node .assignOperator [.token i]) := .single _ _ (by decide)
  rw [collect_map, if_neg hfunction, assigned?, if_pos hassignment, hname]
  exact collectAll_idle (by simp [hleft, hright, hoperator]) (fun n => hm.child) h.forest

/-! ### Definitions -/

variable {file left operator right : NodeId} {k : TokenKind}

/-- Which operand of an assignment is the assignee. -/
theorem operands_of_joins {id : NodeId} (h : t.Joins id left operator right)
    (hoperator : t.kind? operator = some .assignOperator)
    (hkind : t.operatorKind? operator = some k) : Assignment.isRight t id = k.isRightAssign ∧
      Assignment.assignee? t id = some (if k.isRightAssign then right else left) ∧
      Assignment.value? t id = some (if k.isRightAssign then left else right) := by
  have hright : Assignment.isRight t id = k.isRightAssign := by
    rw [Assignment.isRight, h.assignmentOperator hoperator, hkind, Option.any_some]
  rw [Assignment.assignee?, Assignment.value?, hright, h.firstExpression?_eq, h.lastExpression?_eq]
  refine ⟨rfl, ?_, ?_⟩ <;> split <;> rfl

/-- The stubs of an assignment of a file to a name. -/
theorem declared_name {n v : Rose (NodeId × Extent)} {b : Bool}
    (hm : t.Holds (some file) m) (hfile : t.kind? file = some .file)
    (hassignee : Assignment.assignee? t m.label.1 = some n.label.1)
    (hvalue : Assignment.value? t m.label.1 = some v.label.1)
    (hright : Assignment.isRight t m.label.1 = b)
    (hn : t.Holds (some m.label.1) n)
    (hname : Dressed (lex t.text) (nameOutline place) (n.map (·.2)))
    (hrest : Rest t.text place offset (name.lexeme :: ls)) (first : StubId) :
    Assignment.name? t m.label.1 = some n.label.1 ∧
      declared t none first m.label.1 n.label.1 =
        ⟨.assignment name.text (t.isKind .functionExpression v.label.1) true b, none,
          name.spanAt offset⟩ :: if t.isKind .functionExpression v.label.1
            then (Function.parameters t v.label.1).map (parameterStub t first) else [] := by
  have hname? : Assignment.name? t m.label.1 = some n.label.1 := by
    have hkind : t.isKind .identifierExpression n.label.1 = true := by
      rw [hname.isKind_eq hn rfl]
      rfl
    rw [Assignment.name?, hassignee, Option.filter_some, isName, hkind]
    rfl
  obtain ⟨hspan, htext⟩ := name_of_dressed hn hname hrest
  have htop : (t.parent? m.label.1).any (t.isKind .file) = true := by
    rw [hm.parent?_eq, Option.any_some, SyntaxTree.isKind, hfile, decide_eq_true rfl]
  refine ⟨hname?, ?_⟩
  rw [declared, assignmentStub, Assignment.name, hname?, htext, htop, hright, hspan,
    Assignment.isFunctionDeclaration, Assignment.function?, hvalue, Option.filter_some]
  split <;> simp [*]

/-- A name that the arrow or `=` behind it assigns to. -/
theorem collect_leftward {vs : List Outline} {kind : NodeKind} {i : Nat} {x : Token}
    (hm : t.Holds (some file) m) (hfile : t.kind? file = some .file)
    (h : Dressed (lex t.text) (assignmentOutline (nameOutline place) i (.node kind vs))
      (m.map (·.2))) (hkind : kind.isExpression = true) (hidle : Idle (.node kind vs))
    (hx : (lex t.text)[i]? = some x) (hleft : x.kind.isRightAssign = false)
    (hrest : Rest t.text place offset (name.lexeme :: ls)) :
    ∃ v : Rose (NodeId × Extent), t.Holds (some m.label.1) v ∧
      Dressed (lex t.text) (.node kind vs) (v.map (·.2)) ∧
      collect t none added (m.map (·.1)) = added ++
        (⟨.assignment name.text (kind = .functionExpression) true false, none,
          name.spanAt offset⟩ :: if kind = .functionExpression
            then (Function.parameters t v.label.1).map (parameterStub t added.size) else []) := by
  obtain ⟨n, operator, v, hjoins, hoperator, hsymbol, ⟨hn, hname⟩, hv, hvalue⟩ :=
    h.exists_joins hm rfl rfl hkind hx
  obtain ⟨hright, hassignee, hassigned⟩ := operands_of_joins hjoins hoperator hsymbol
  rw [hleft] at hright hassignee hassigned
  obtain ⟨hname?, hdeclared⟩ :=
    declared_name hm hfile hassignee hassigned hright hn hname hrest added.size
  refine ⟨v, hv, hvalue, ?_⟩
  rw [collect_assignment hm h (.single _ _ (by decide)) hidle hname?, hdeclared,
    hvalue.isKind_eq hv rfl]
  simp [Outline.kind?]

/-- The walk adds the stubs of a definition at its node. -/
theorem collect_definition (d : Definition) (hm : t.Holds (some file) m)
    (hfile : t.kind? file = some .file)
    (h : Dressed (lex t.text) (d.outline place) (m.map (·.2)))
    (hrest : Rest t.text place offset (d.lexemes ++ ls)) :
    collect t none added (m.map (·.1)) = added ++ d.stubs added.size offset := by
  cases d with
  | function name ps =>
    have harrow := (hrest.skip [name.lexeme, blank]).token.1
    obtain ⟨v, hv, hvalue, hcollect⟩ := collect_leftward hm hfile h rfl (.function _) harrow
      rfl hrest
    rw [hcollect, map_parameterStub added.size ps hv hvalue (rest_parameters hrest)]
    rfl
  | equal name =>
    have hequal := (hrest.skip [name.lexeme, blank]).token.1
    obtain ⟨v, -, -, hcollect⟩ := collect_leftward hm hfile h rfl (.single _ _ (by decide)) hequal
      rfl hrest
    rw [hcollect]
    rfl
  | right name =>
    have harrow := (hrest.skip [value, blank]).token.1
    obtain ⟨v, operator, n, hjoins, hoperator, hsymbol, ⟨hv, hvalue⟩, hn, hnode⟩ :=
      h.exists_joins hm rfl rfl rfl harrow
    obtain ⟨hright, hassignee, hassigned⟩ := operands_of_joins hjoins hoperator hsymbol
    obtain ⟨hname?, hdeclared⟩ :=
      declared_name hm hfile hassignee hassigned hright hn hnode (rest_right hrest) added.size
    rw [collect_assignment hm h (.single _ _ (by decide)) (.single _ _ (by decide)) hname?,
      hdeclared, hvalue.isKind_eq hv rfl]
    rfl

theorem collectAll_definitions (hfile : t.kind? file = some .file) (ds : List Definition) :
    ∀ {place offset : Nat} {ms : List (Rose (NodeId × Extent))} {added : Array Stub},
    (∀ m ∈ ms, t.Holds (some file) m) →
    ForestDressed (lex t.text) (outlines place ds) (Rose.forestMap (·.2) ms) →
    Rest t.text place offset (ds.flatMap lexemes) →
    collectAll t none added (Rose.forestMap (·.1) ms) = added ++ allStubs added.size offset ds := by
  induction ds with
  | nil =>
    intro place offset ms added _ h _
    obtain rfl := h.eq_nil
    exact Array.appendList_nil.symm
  | cons d ds ih =>
    intro place offset ms added hms h hrest
    obtain ⟨m, rest, hm, hd, hmore, hds, hwalk⟩ := collectAll_dressed hms h
    rw [List.flatMap_cons] at hrest
    -- The next definition counts from the stubs that this one has added.
    rw [hwalk, collect_definition d hm hfile hd hrest, ih hmore hds (d.rest_next hrest)]
    rw [size_appendList, allStubs]
    simp [← Array.toList_inj]

theorem ofTree_printAll (ds : List Definition) {limit : Nat} {p : Parse}
    (hp : parse (printAll ds) limit = .ok p) : ofTree p.tree = ⟨(allStubs 0 0 ds).toArray⟩ := by
  obtain ⟨os, more, hfound⟩ := Grammar.found (lex (printAll ds))
  have hbuild := (parseTokens_eq_ok hfound hp).1
  obtain ⟨d, hsource⟩ := parses_source ds
  obtain rfl := hfound.outline_eq hsource
  obtain ⟨id, e, ms, leaves, hholds, hkind, hshape, hdressed, hleaves⟩ :=
    SyntaxTree.exists_root hfound.plain hfound.significant hbuild
  have hfile : p.tree.kind? id = some .file := hkind ▸ hholds.kind?_eq
  have hms : ∀ m ∈ ms, p.tree.Holds (some id) m := fun m hm =>
    hholds.child (List.mem_append_left _ hm)
  have hrest := rest_printAll ds
  rw [← SyntaxTree.text_of_build hbuild] at hdressed hrest
  rw [ofTree_eq_collect (by rfl) hfound.plain hfound.significant hbuild,
    collect_of_row hholds hfile hshape hleaves,
    collectAll_definitions hfile ds hms hdressed hrest]
  simp

end Definition

/-- The stubs of lines of definitions are those of the definitions one after another, and what they
span in the text are their names. -/
theorem StubTree.ofSource_printAll (ds : List Definition) (limit : Nat) :
    ofSource (Definition.printAll ds) limit =
        (if maxOffset < Text.byteLength (Definition.printAll ds) then .error .sourceTooLarge
          else .ok ⟨(Definition.allStubs 0 0 ds).toArray⟩) ∧
      (Definition.allStubs 0 0 ds).map (fun s => Text.slice? (Definition.printAll ds) s.span) =
        (Definition.allStubs 0 0 ds).map (some ∘ Stub.name) := by
  have hrest := Definition.rest_printAll ds
  refine ⟨?_, List.map_congr_left (Definition.slice?_allStubs ds hrest)⟩
  split
  · next hlarge => exact ofSource_tooLarge hlarge limit
  · next hsize =>
    obtain ⟨u, hu⟩ := ofSource_ok (Nat.le_of_not_lt hsize) limit
    obtain ⟨p, hp, rfl⟩ := ofSource_eq_ok_iff.mp hu
    rw [hu, Definition.ofTree_printAll ds hp]

/-- A function with a parameter, and a name on the right that takes two bytes. -/
theorem StubTree.ofSource_printAll_both :
    StubTree.ofSource "f <- function(x) NULL\n1 -> é\n" 0 = .ok ⟨#[
      ⟨.assignment "f" true true false, none, ⟨0, 1⟩⟩, ⟨.parameter "x", some 0, ⟨14, 15⟩⟩,
      ⟨.assignment "é" false true true, none, ⟨27, 29⟩⟩]⟩ := by
  let f : Name := ⟨"f", by decide +kernel, by decide⟩
  let x : Name := ⟨"x", by decide +kernel, by decide⟩
  let e : Name := ⟨"é", by decide +kernel, by decide⟩
  have hsize : ¬ maxOffset < Text.byteLength (Definition.printAll [.function f [x], .right e]) := by
    decide
  exact (ofSource_printAll [.function f [x], .right e] 0).1.trans (if_neg hsize)

end RSource
