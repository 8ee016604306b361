import RSource.Proofs.DocComment
import RSource.Proofs.Grammar.DocTag
import RSource.Proofs.Tree.Members

/-! Documented parameters.  Names that are written as a list behind a `@param` tag are read back
from the tree, without the backticks around them. -/

namespace RSource

open Builder (Dressed ForestDressed)
open Grammar.DocComment (Found Tagged nameRow)
open Lexeme.Doc (ParameterLine ListLines listed listed_cons listed_identifier)

variable {t : SyntaxTree} {tokens : List Token} {parent : Option NodeId} {os : List Outline}
variable {ns : List (Rose (NodeId × Extent))} {names : List String} {c : Cursor}
variable {before ls rest : List Lexeme} {l : Lexeme}

/-- The token that stands behind some lexemes has the text of the next. -/
theorem Cursor.Between.exists_token (h : c.Between t.text tokens before (l :: ls)) :
    ∃ x, tokens[before.length]? = some x ∧ Text.slice t.text x.span = .ofList l.chars :=
  ⟨c.here.token, h.along.here.token _ h.takes.1.index, h.text_here⟩

namespace DocComment

/-- The nodes are those of outlines of a row. -/
abbrev Stand (t : SyntaxTree) (tokens : List Token) (parent : Option NodeId) (os : List Outline)
    (ns : List (Rose (NodeId × Extent))) : Prop :=
  List.Forall₂ (fun o n => Dressed tokens o (n.map (·.2)) ∧ t.Holds parent n) os ns

/-- A parameter is read as its name. -/
theorem parameterName_of_dressed {n : Rose (NodeId × Extent)} (hn : t.Holds parent n)
    (h : Dressed tokens (.node .roxygenParameter [.token before.length]) (n.map (·.2)))
    (hc : c.Between t.text tokens before (l :: ls)) :
    parameterName t n.label.1 = withoutBackticks (.ofList l.chars) := by
  obtain ⟨x, hx, htext⟩ := hc.exists_token
  obtain ⟨y, hy, hnode⟩ := h.of_singleton
  obtain rfl := Option.some.inj (hx.symm.trans hy)
  have hlabel := congrArg Rose.label hnode
  rw [Rose.label_map] at hlabel
  rw [parameterName, SyntaxTree.textOf, hn.span_eq, hlabel]
  exact congrArg withoutBackticks htext

/-- The parameters of a tag are read as the names that its lexemes list. -/
theorem map_parameterName (hc : c.Between t.text tokens before (ls ++ rest))
    (h : Stand t tokens parent (nameRow before.length ls) ns) :
    ((ns.map (·.label.1)).filter (t.isKind .roxygenParameter)).map (parameterName t) =
      listed ls := by
  induction ls generalizing before c ns with
  | nil =>
    cases h
    rfl
  | cons l ls ih =>
    obtain ⟨-, hnext⟩ := hc.takes
    rw [nameRow] at h
    cases h with
    | @cons _ n _ ns hn hns =>
      have hrest := ih hnext (by rwa [List.length_append])
      have hkind : t.isKind .roxygenParameter n.label.1 = _ := hn.1.isKind_eq hn.2 rfl
      by_cases hl : l.kind = .docIdentifier
      · rw [if_pos hl] at hn hkind
        rw [List.map_cons, List.filter_cons_of_pos (hkind.trans rfl), List.map_cons,
          parameterName_of_dressed hn.2 hn.1 hc, hrest, listed_identifier hl]
      · rw [if_neg hl] at hkind
        have hnot : ¬ t.isKind .roxygenParameter n.label.1 = true := by
          rw [hkind]
          exact Bool.false_ne_true
        rw [List.map_cons, List.filter_cons_of_neg hnot, hrest, listed_cons hl]

/-- The tags of a row are read as the names that they list. -/
theorem flatMap_tags (h : Tagged t.text tokens os names) (hns : Stand t tokens parent os ns) :
    ((ns.map (·.label.1)).filter (t.isKind .roxygenParamTag)).flatMap
      (fun tag => (parameters t tag).map (parameterName t)) = names := by
  induction h generalizing ns with
  | nil =>
    cases hns
    rfl
  | other ho _ ih =>
    cases hns with
    | @cons _ n _ ns hn hns =>
      have hnot : ¬ t.isKind .roxygenParamTag n.label.1 = true := by
        rw [hn.1.isKind_eq hn.2 rfl, decide_eq_true_eq]
        exact ho
      rw [List.map_cons, List.filter_cons_of_neg hnot]
      exact ih hns
  | tag hc _ ih =>
    cases hns with
    | @cons _ n _ ns hn hns =>
      have hhere : t.isKind .roxygenParamTag n.label.1 = true := by
        rw [hn.1.isKind_eq hn.2 rfl]
        rfl
      obtain ⟨ms, hms, hfilter⟩ := hn.1.forest.exists_members fun m => hn.2.child
      rw [List.map_cons, List.filter_cons_of_pos hhere, List.flatMap_cons, ih hns, parameters,
        hn.2.children_eq, hfilter _ fun id k hid => SyntaxTree.isKind_of_leaf hid rfl,
        map_parameterName hc hms]

variable {text : String} {es : List ParseError}

/-- The names of the tags of a comment are documented. -/
theorem documented_root (h : Found text os es) (htagged : Tagged text (lexDoc text) os names)
    (hbuild : SyntaxTree.build text (lexDoc text) (Outline.node .roxygenComment os).events =
      .ok t) : documented t t.root = names := by
  obtain ⟨span, trees, hbuild', hdressed⟩ := h.exists_tree
  obtain rfl := Except.ok.inj (hbuild.symm.trans hbuild')
  have hholds := SyntaxTree.holds_ofRose text (.node ⟨.roxygenComment, span⟩ trees)
  rw [← SyntaxTree.forestMap_numberAll 0 trees] at hdressed
  rw [documented, paramTags, SyntaxTree.root_ofRose]
  rw [SyntaxTree.number_node] at hholds ⊢
  obtain ⟨ns, hns, hfilter⟩ := hdressed.exists_members fun n => hholds.child
  rw [hholds.children_eq]
  have hsame := hfilter (SyntaxTree.isKind _ .roxygenParamTag) fun id k hid =>
    SyntaxTree.isKind_of_leaf hid rfl
  exact hsame ▸ flatMap_tags htagged hns

/-- Lines of names are read without a problem. -/
theorem exists_tagged (h : ListLines (Lexeme.Doc.ofChars text.toList) names) :
    ∃ os, Found text os [] ∧ Tagged text (lexDoc text) os names := by
  obtain ⟨os, es, hfound⟩ := Grammar.DocComment.found text
  have hbetween : (Cursor.ofTokens (lexDoc text)).Between text (lexDoc text) []
      (Lexeme.Doc.ofChars text.toList ++ []) := by
    rw [List.append_nil]
    exact Cursor.between_ofTokens (Lexeme.Doc.cuts_ofChars text.toList)
      (Lexeme.Doc.lines_ofChars text.toList).seen
  obtain ⟨ps, e, hparses, htagged⟩ := Grammar.DocComment.parses_comment h hbetween
  obtain ⟨d, houtcome⟩ := hfound.outcome
  obtain ⟨hnode, -, rfl⟩ := Outcome.mk.inj (houtcome.symm.trans hparses)
  obtain ⟨-, rfl⟩ := Outline.node.inj hnode
  exact ⟨os, hfound, htagged⟩

/-- What lines of names document is read back, unless the text is too long to be parsed. -/
theorem documented_of_listLines (h : ListLines (Lexeme.Doc.ofChars text.toList) names) :
    (maxOffset < Text.byteLength text ∧ parseDoc text = .error .sourceTooLarge) ∨
      ∃ p, parseDoc text = .ok p ∧ p.errors = [] ∧ documented p.tree p.tree.root = names := by
  obtain ⟨os, hfound, htagged⟩ := exists_tagged h
  rcases hfound.parseDoc_cases with hlarge | ⟨p, hp, herrors, hbuild⟩
  · exact .inl hlarge
  · exact .inr ⟨p, hp, herrors, documented_root hfound htagged hbuild⟩

/-- Lines that document parameters are read without a problem, whatever the blanks in them, the
descriptions behind the names and the line ends are, and the names are read back in order. -/
theorem documented_written (ended : Bool) (lines : List ParameterLine) :
    let text := String.ofList (Lexeme.Doc.written ended lines)
    (maxOffset < Text.byteLength text ∧ parseDoc text = .error .sourceTooLarge) ∨
      ∃ p, parseDoc text = .ok p ∧ p.errors = [] ∧
        documented p.tree p.tree.root = lines.flatMap ParameterLine.names := by
  refine documented_of_listLines ?_
  rw [String.toList_ofList]
  exact Lexeme.Doc.listLines_written ended lines

section

open Lexeme.Doc

/-- The line "#' @param é , `a b` names". -/
def describedLine : ParameterLine where
  gap := [' ']
  first := .word 'é' [] (by decide +kernel) (List.forall_mem_nil _)
  more := [⟨[' '], [' '], .quoted "a b".toList (by decide) (by decide) (by decide),
    List.forall_mem_singleton.mpr rfl, List.forall_mem_singleton.mpr rfl⟩]
  behind := " names".toList
  hsome := by decide
  hgap := List.forall_mem_singleton.mpr rfl
  hbehind := .inr (.inr (by decide))

/-- The line "#' @param .x", with a tab before the name and a carriage return behind it. -/
def bareLine : ParameterLine where
  gap := ['\t']
  first := .word '.' ['x'] (.inr rfl) (List.forall_mem_singleton.mpr (by decide +kernel))
  more := []
  behind := ['\r']
  hsome := by decide
  hgap := List.forall_mem_singleton.mpr rfl
  hbehind := .inr (.inl rfl)

theorem documented_written_mixed :
    ∃ p, parseDoc "#' @param é , `a b` names\n#' @param\t.x\r\n" = .ok p ∧ p.errors = [] ∧
      documented p.tree p.tree.root = ["é", "a b", ".x"] := by
  have htext : String.ofList (written true [describedLine, bareLine]) =
      "#' @param é , `a b` names\n#' @param\t.x\r\n" := by decide
  have hsize : Text.byteLength "#' @param é , `a b` names\n#' @param\t.x\r\n" ≤ maxOffset := by
    decide
  rcases documented_written true [describedLine, bareLine] with ⟨hlarge, -⟩ | hparsed
  · rw [htext] at hlarge
    omega
  · rwa [htext] at hparsed

end

end DocComment

end RSource
