import RSource.Proofs.Grammar.DocComment
import RSource.Proofs.Lexeme.Spaced
import RSource.Proofs.Tree.Ancestors

/-! Doc comments from their text to their tree.  The lexer and the grammar agree on what a link is:
the grammar never misses a part of one, so that all it reports is what is wrong with the lines, and
every link of the tree is whole. -/

namespace RSource

open Lexeme (place ofText)

variable {ls : List Lexeme} {tokens : List Token} {es : List ParseError}

/-- Of errors at one place each, all are kept. -/
theorem ParseError.firstAtEach_eq_self (h : es.Pairwise fun e e' => e.place < e'.place) :
    ∀ last : Option Nat, (∀ n ∈ last, ∀ e ∈ es, n < e.place) → firstAtEach last es = es := by
  induction h with
  | nil => exact fun _ _ => rfl
  | @cons e es he _ ih =>
    intro last hlast
    have hne : last ≠ some e.place := fun hsame =>
      Nat.lt_irrefl _ (hlast _ hsame e List.mem_cons_self)
    rw [firstAtEach, if_neg hne, ih (some e.place) fun n hn => ?_]
    obtain rfl := Option.some.inj hn
    exact he

theorem significant_eq_range' (h : ∀ t ∈ tokens, t.kind.isLayout = false) :
    ∀ place : Nat, significant place tokens = List.range' place tokens.length := by
  induction tokens with
  | nil => exact fun _ => rfl
  | cons t tokens ih =>
    intro place
    have ht : ¬ t.kind.isLayout = true := by rw [h t List.mem_cons_self]; exact Bool.false_ne_true
    rw [significant, if_neg ht, ih fun u hu => h u (List.mem_cons_of_mem _ hu)]
    rfl

namespace SyntaxTree

/-- Where no leaf is layout, no node is. -/
theorem isLayout_of_leaves {text : String} {r : Rose Extent}
    (h : ∀ t ∈ (ofRose text r).leaves, t.kind.isLayout = false) (id : NodeId) :
    (ofRose text r).isLayout id = false := by
  cases hnode : (ofRose text r).nodes[id]? with
  | none => rw [isLayout, kind?, hnode]; rfl
  | some node =>
    rw [isLayout, kind?, hnode]
    cases hkind : node.kind.tokenKind? with
    | none => simp [NodeKind.isLayout, hkind]
    | some k =>
      have htoken : (ofRose text r).token? id = some ⟨k, node.span⟩ := by
        rw [token?, hnode, Option.bind_some, hkind, Option.map_some]
      have hmem := List.mem_filterMap.mpr
        ⟨id, mem_preorder_iff.mpr (Array.getElem?_eq_some_iff.mp hnode).1, htoken⟩
      simpa [NodeKind.isLayout, hkind] using h _ hmem

end SyntaxTree

theorem map_kind_lexDoc (text : String) : (lexDoc text).map Token.kind =
    (Lexeme.Doc.ofChars text.toList).map Lexeme.kind ++ [.endOfFile] :=
  Lexeme.map_kind_place 0 _

/-- No token of a doc comment is layout. -/
theorem isLayout_of_mem_lexDoc {text : String} {t : Token} (ht : t ∈ lexDoc text) :
    t.kind.isLayout = false := by
  have hkind := List.mem_map_of_mem (f := Token.kind) ht
  rw [map_kind_lexDoc] at hkind
  rcases List.mem_append.mp hkind with hkind | hkind
  · obtain ⟨l, hl, hkind⟩ := List.mem_map.mp hkind
    rw [← hkind]
    exact (Lexeme.Doc.lines_ofChars text.toList).seen l hl
  · rw [List.mem_singleton.mp hkind]
    rfl

namespace Grammar.DocComment

/-- What the grammar finds in the tokens of a doc comment. -/
structure Found (text : String) (os : List Outline) (es : List ParseError) : Prop where
  outcome : ∃ d, comment text .docComment (.ofTokens (lexDoc text)) =
    ⟨.node .roxygenComment os, d, es⟩
  plain : Outline.ForestPlain os
  whole : (Outline.node .roxygenComment os).Keeps (lexDoc text) Whole
  places : Outline.forestTokens os = List.range' 0 (Lexeme.Doc.ofChars text.toList).length
  problems : es.map (·.problem) = Lexeme.Doc.problems text.toList
  ordered : es.Pairwise fun e e' => e.place < e'.place

theorem found (text : String) : ∃ os es, Found text os es := by
  have hlines := Lexeme.Doc.lines_ofChars text.toList
  have hbetween : (Cursor.ofTokens (lexDoc text)).Between text (lexDoc text) []
      (Lexeme.Doc.ofChars text.toList ++ []) := by
    rw [List.append_nil]
    exact Cursor.between_ofTokens (Lexeme.Doc.cuts_ofChars text.toList) hlines.seen
  obtain ⟨os, d, es, hp, -, hos, hes⟩ := gives_comment hlines _ hbetween
  have hone : Parser.one (comment text) .docComment (.ofTokens (lexDoc text)) =
      ⟨[(comment text .docComment (.ofTokens (lexDoc text))).value],
        (comment text .docComment (.ofTokens (lexDoc text))).cursor,
        (comment text .docComment (.ofTokens (lexDoc text))).errors ++ []⟩ := rfl
  obtain ⟨below, hbelow⟩ : ∃ below, (comment text .docComment (.ofTokens (lexDoc text))).value =
      .node .roxygenComment below := ⟨_, rfl⟩
  rw [hone, hbelow, List.append_nil] at hp
  obtain ⟨hvalue, hcursor, herrors⟩ := Outcome.mk.inj hp
  obtain rfl : [Outline.node .roxygenComment below] = os := hvalue
  refine ⟨below, es, ⟨d, ?_⟩, hos.plain.1.2, hos.keeps.1, ?_, hes.problems, hes.ordered⟩
  · rw [← hbelow, ← hcursor, ← herrors]
  · have hplaces := hos.places
    rwa [Outline.forestTokens, Outline.forestTokens, List.append_nil] at hplaces

namespace Found

variable {text : String} {os : List Outline} {es : List ParseError}

theorem run (h : Found text os es) : (comment text).run .docComment (lexDoc text) =
    (.node .roxygenComment os, es) := by
  obtain ⟨d, houtcome⟩ := h.outcome
  rw [Parser.run, houtcome]
  exact congrArg (Prod.mk _) <| ParseError.firstAtEach_eq_self h.ordered none fun _ hn =>
    absurd hn (Option.not_mem_none _)

theorem significant (h : Found text os es) : significant 0 (lexDoc text) =
    Outline.forestTokens os ++ [(Lexeme.Doc.ofChars text.toList).length] := by
  have hlength := congrArg List.length (map_kind_lexDoc text)
  rw [List.length_map, List.length_append, List.length_map, List.length_singleton] at hlength
  rw [significant_eq_range' fun t => isLayout_of_mem_lexDoc, h.places, hlength,
    List.range'_1_concat, Nat.zero_add]

theorem inside (h : Found text os es) : ∀ i ∈ Outline.forestTokens os, ∀ t,
    (lexDoc text)[i]? = some t → t.kind ≠ .endOfFile := by
  intro i hi t ht
  rw [h.places, List.mem_range'_1, Nat.zero_add] at hi
  have hkind := congrArg (·[i]?) (map_kind_lexDoc text)
  simp only [List.getElem?_map, ht, Option.map_some] at hkind
  rw [List.getElem?_append_left (by rw [List.length_map]; exact hi.2)] at hkind
  obtain ⟨l, hl, hkind⟩ := List.mem_map.mp (List.mem_of_getElem? hkind.symm)
  rw [← hkind]
  exact ((Lexeme.Doc.cuts_ofChars text.toList).sound l hl).2

variable {t : SyntaxTree}

/-- The tree is the outline, with nothing behind it. -/
theorem exists_tree (h : Found text os es) : ∃ span trees,
    SyntaxTree.build text (lexDoc text) (Outline.node .roxygenComment os).events =
      .ok (.ofRose text (.node ⟨.roxygenComment, span⟩ trees)) ∧
    Builder.ForestDressed (lexDoc text) os trees := by
  obtain ⟨span, trees, rest, hbuild, htokens, -, hmore, hdressed⟩ :=
    SyntaxTree.build_events text .roxygenComment h.plain h.significant
  have hrest : ∀ t ∈ rest, t.kind.isLayout = false := fun t ht =>
    isLayout_of_mem_lexDoc (htokens ▸ List.mem_append_right _ ht)
  have hlength := congrArg List.length hmore
  rw [significant_eq_range' hrest, List.length_range', List.length_singleton] at hlength
  obtain ⟨last, rfl⟩ := List.length_eq_one_iff.mp hlength
  have hkinds := congrArg (List.map Token.kind) htokens
  rw [map_kind_lexDoc, List.map_append] at hkinds
  have hlast : TokenKind.endOfFile = last.kind :=
    List.singleton_inj.mp (List.append_inj_right' hkinds rfl)
  rw [List.takeWhile_cons_of_neg (by simp [← hlast]), List.map_nil, List.append_nil] at hbuild
  exact ⟨span, trees, hbuild, hdressed⟩

variable {t : SyntaxTree}

theorem isLayout_eq_false (h : Found text os es)
    (hbuild : SyntaxTree.build text (lexDoc text) (Outline.node .roxygenComment os).events = .ok t)
    (id : NodeId) : t.isLayout id = false := by
  have hkind : NodeKind.roxygenComment.tokenKind? = none := rfl
  obtain ⟨u, hu, -, hleaves⟩ :=
    SyntaxTree.build_leaves text hkind h.plain h.significant h.inside
  obtain rfl := Except.ok.inj (hu.symm.trans hbuild)
  obtain ⟨span, trees, hu', -⟩ := h.exists_tree
  obtain rfl := Except.ok.inj (hu.symm.trans hu')
  refine SyntaxTree.isLayout_of_leaves (fun x hx => ?_) id
  rw [hleaves] at hx
  exact isLayout_of_mem_lexDoc (List.takeWhile_sublist _ |>.subset hx)

/-- The children of a node are the row below its outline. -/
theorem whole_of_holds (h : Found text os es)
    (hbuild : SyntaxTree.build text (lexDoc text) (Outline.node .roxygenComment os).events = .ok t)
    {m : Rose (NodeId × Extent)} {parent : Option NodeId} {kind : NodeKind} {ps : List Outline}
    (hm : t.Holds parent m)
    (hps : Builder.ForestDressed (lexDoc text) ps (Rose.forestMap (·.2) m.children))
    (hseen : ∀ o ∈ ps, o.Seen (lexDoc text))
    (hkeeps : (Outline.node kind ps).Keeps (lexDoc text) Whole) :
    ∃ ks, Whole kind ks ∧ (t.children m.label.1).map t.kind? = ks.map some := by
  obtain ⟨ks, hks, hmap⟩ := hkeeps.1
  have hrow := hps.filter_not_layout (fun n => hm.child) hseen
  rw [List.filter_eq_self.mpr fun c _ => by rw [h.isLayout_eq_false hbuild]; rfl] at hrow
  exact ⟨ks, hks, by rw [hm.children_eq, ← hrow, hmap]⟩

/-- Every node that is no token has a row that is allowed below it. -/
theorem whole_children (h : Found text os es)
    (hbuild : SyntaxTree.build text (lexDoc text) (Outline.node .roxygenComment os).events = .ok t)
    {id : NodeId} {kind : NodeKind} (hkind : kind.tokenKind? = none)
    (hid : t.kind? id = some kind) :
    ∃ ks, Whole kind ks ∧ (t.children id).map t.kind? = ks.map some := by
  have hmembers : ∀ o ∈ os, o.Keeps (lexDoc text) Whole ∧ o.Seen (lexDoc text) := fun o ho =>
    ⟨h.whole.2.of_mem ho, Outline.seen_of_mem h.plain h.significant ho⟩
  rcases SyntaxTree.root_or_outline
      (Q := fun o => o.Keeps (lexDoc text) Whole ∧ o.Seen (lexDoc text)) h.plain h.significant
      hbuild (fun _ _ hq o ho => ⟨hq.1.2.of_mem ho, hq.2.of_mem ho⟩) hmembers hid hkind
    with ⟨rfl, rfl⟩ | ⟨m, parent, ps, rfl, hm, hdressed, hkeeps, hseen⟩
  · obtain ⟨span, trees, hbuild', hdressed⟩ := h.exists_tree
    obtain rfl := Except.ok.inj (hbuild.symm.trans hbuild')
    have hholds := SyntaxTree.holds_ofRose text (.node ⟨.roxygenComment, span⟩ trees)
    have hrow := h.whole_of_holds hbuild hholds ?_ (fun o ho => (hmembers o ho).2) h.whole
    · exact hrow
    · rw [SyntaxTree.number_node]
      show Builder.ForestDressed _ os (Rose.forestMap (·.2) (SyntaxTree.numberAll _ trees).1)
      rwa [SyntaxTree.forestMap_numberAll]
  · exact h.whole_of_holds hbuild hm hdressed.forest (fun o => hseen.of_mem) hkeeps

/-- The text is parsed to the tree of its outlines unless it is too long. -/
theorem parseDoc_cases (h : Found text os es) :
    (maxOffset < Text.byteLength text ∧ parseDoc text = .error .sourceTooLarge) ∨
      ∃ p, parseDoc text = .ok p ∧ p.errors = es.take Parse.defaultLimit ∧
        SyntaxTree.build text (lexDoc text) (Outline.node .roxygenComment os).events =
          .ok p.tree := by
  rcases Nat.lt_or_ge maxOffset (Text.byteLength text) with hsize | hsize
  · refine .inl ⟨hsize, ?_⟩
    rw [parseDoc, parseWith, if_pos hsize]
    rfl
  · obtain ⟨span, trees, hbuild, -⟩ := h.exists_tree
    refine .inr ⟨⟨_, es.take Parse.defaultLimit, .docComment⟩, ?_, rfl, hbuild⟩
    rw [parseDoc, parseWith, if_neg (Nat.not_lt.mpr hsize)]
    simp only [h.run, hbuild]
    rfl

end Found

end Grammar.DocComment

/-- The errors that are reported in a doc comment are what is wrong with its lines, whatever the
text is: a line lacks its marker, or a tag its name.  No part of a link is ever missed: in the tree
every link is whole, and every token of a link stands in one. -/
theorem parseDoc_complete (text : String) :
    let reported :=
      (Grammar.DocComment.comment text .docComment (.ofTokens (lexDoc text))).errors
    reported.map (·.problem) = Lexeme.Doc.problems text.toList ∧
    (∀ e ∈ reported, e.problem = .noDocMarker ∨ e.problem = .noDocParameter) ∧
    ((maxOffset < Text.byteLength text ∧ parseDoc text = .error .sourceTooLarge) ∨
      ∃ p, parseDoc text = .ok p ∧ p.errors = reported.take Parse.defaultLimit ∧
        ∀ id kind, kind.tokenKind? = none → p.tree.kind? id = some kind →
          ∃ ks, Grammar.DocComment.Whole kind ks ∧
            (p.tree.children id).map p.tree.kind? = ks.map some) := by
  obtain ⟨os, es, h⟩ := Grammar.DocComment.found text
  obtain ⟨d, houtcome⟩ := h.outcome
  simp only [houtcome]
  refine ⟨h.problems, fun e he => ?_, ?_⟩
  · have hmem := List.mem_map_of_mem (f := ParseError.problem) he
    rw [h.problems] at hmem
    simpa using (Lexeme.Doc.lines_ofChars text.toList).problems_subset hmem
  · rcases h.parseDoc_cases with hlarge | ⟨p, hp, herrors, hbuild⟩
    · exact .inl hlarge
    · exact .inr ⟨p, hp, herrors, fun id kind hkind hid => h.whole_children hbuild hkind hid⟩

end RSource
