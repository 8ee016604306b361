import RSource.Parse
import RSource.Proofs.Grammar.Source
import RSource.Proofs.Lexeme.Tiling
import RSource.Proofs.Tree.FromOutline

/-! Whatever the tokens are, the parser reads them up to the first end of file, in order, so that a
tree can be built from what it finds; the leaves of this tree are the tokens. -/

namespace RSource

open Outline (forestTokens)

variable {tokens : List Token} {rigor : Rigor}

namespace Outline

theorem tokenKind?_of_mem_children {kind : NodeKind} {cs : List Outline}
    (h : cs ∈ Production.children tokens rigor kind) : kind.tokenKind? = none := by
  cases kind
  case token => exact h.elim
  all_goals rfl

mutual
/-- No node of a derived outline is of a token's kind. -/
theorem Derived.plain : (o : Outline) → o.Derived tokens rigor → o.Plain
  | .token _, _ => trivial
  | .node _ cs, ⟨h, hcs⟩ => ⟨tokenKind?_of_mem_children h, ForestDerived.plain cs hcs⟩

theorem ForestDerived.plain : (os : List Outline) → ForestDerived tokens rigor os → ForestPlain os
  | [], _ => trivial
  | o :: os, ⟨ho, hos⟩ => ⟨Derived.plain o ho, ForestDerived.plain os hos⟩
end

end Outline

namespace Grammar

/-- The outline of a source, and the tokens that it leaves. -/
structure Found (tokens : List Token) (os : List Outline) (more : List Nat) : Prop where
  outline : (source .statements (.ofTokens tokens)).value = .node .file os
  plain : Outline.ForestPlain os
  significant : significant 0 tokens = forestTokens os ++ more
  inside : ∀ i ∈ forestTokens os, ∀ t, tokens[i]? = some t → t.kind ≠ .endOfFile
  ending : ∀ i ∈ more.head?, ∀ t, tokens[i]? = some t → t.kind = .endOfFile

theorem found (tokens : List Token) : ∃ os more, Found tokens os more := by
  have hover := Cursor.over_ofTokens tokens
  have hfits : Parser.Fits tokens .lenient (fun _ => True) (Parser.one source) _ := fits_source
  obtain ⟨⟨xs, hxs, htokens⟩, hderived⟩ := hfits.of_true .statements hover
  obtain ⟨-, hplain, -⟩ := hderived fun h => by cases h
  obtain ⟨os, hos⟩ : ∃ os, (source .statements (.ofTokens tokens)).value = .node .file os :=
    ⟨_, rfl⟩
  have hvalue : (Parser.one source .statements (.ofTokens tokens)).value = [.node .file os] := by
    rw [← hos]
    rfl
  rw [hvalue] at htokens
  simp only [forestTokens, Outline.tokens, List.append_nil] at htokens
  generalize hcursor : (Parser.one source .statements (.ofTokens tokens)).cursor = d at hxs
  have hend : d.atEnd = true := by
    rw [← hcursor]
    exact source_ends hover
  refine ⟨os, d.items.filterMap Item.index, hos, ?_, ?_, ?_, ?_⟩
  · exact (hos ▸ hplain.plain : (Outline.node .file os).Plain).2
  · rw [htokens, ← List.filterMap_append, ← hxs.items, (Cursor.ofTokens_items tokens).1,
      Item.filterMap_index_ofTokens]
  · intro i hi t ht
    rw [htokens] at hi
    obtain ⟨item, hitem, hindex⟩ := List.mem_filterMap.mp hi
    have hof := hover.of item (by rw [hxs.items]; exact List.mem_append_left _ hitem)
    obtain rfl := Option.some.inj ((hof.token i hindex).symm.trans ht)
    exact hxs.inside item hitem
  · intro i hi t ht
    have hdover := hover.reads hxs
    cases hindex : d.here.index with
    | none => simp [Cursor.items, hdover.after_eq_nil hindex, hindex] at hi
    | some j =>
      obtain rfl : j = i := by simpa [Cursor.items, hindex] using hi
      obtain rfl := Option.some.inj ((hdover.here.token j hindex).symm.trans ht)
      simpa [Cursor.atEnd, Cursor.kind] using hend

end Grammar

/-- What a parse is made of. -/
theorem parseWith_eq_ok {entry : Entry} {parser : Parser Outline} {context : Context}
    {text : String} {limit : Nat} {p : Parse}
    (hp : parseWith entry parser context text tokens limit = .ok p) :
    SyntaxTree.build text tokens (parser.run context tokens).1.events = .ok p.tree ∧
      p.errors = (parser.run context tokens).2.take limit := by
  rw [parseWith] at hp
  split at hp
  · cases hp
  · obtain ⟨t, hbuild, h⟩ := bind_eq_ok_iff.mp hp
    obtain rfl := Except.ok.inj h
    exact ⟨hbuild, rfl⟩

theorem parseTokens_eq_ok {text : String} {limit : Nat} {p : Parse} {os : List Outline}
    {more : List Nat} (hfound : Grammar.Found tokens os more)
    (hp : parseTokens text tokens limit = .ok p) :
    SyntaxTree.build text tokens (Outline.node .file os).events = .ok p.tree ∧
      p.errors = (Parser.run Grammar.source .statements tokens).2.take limit := by
  obtain ⟨hbuild, herrors⟩ := parseWith_eq_ok hp
  rw [Parser.run, hfound.outline] at hbuild
  exact ⟨hbuild, herrors⟩

/-- A tree is built from any tokens of a text that is not too long. -/
theorem parseTokens_ok {text : String} (hsize : Text.byteLength text ≤ maxOffset)
    (tokens : List Token) (limit : Nat) :
    ∃ p, parseTokens text tokens limit = .ok p ∧ p.tree.text = text ∧
      p.tree.leaves = tokens.takeWhile (·.kind ≠ .endOfFile) := by
  obtain ⟨os, more, hfound⟩ := Grammar.found tokens
  have hfile : NodeKind.file.tokenKind? = none := rfl
  obtain ⟨t, hbuild, htext, hleaves⟩ :=
    SyntaxTree.build_leaves text hfile hfound.plain hfound.significant hfound.inside
  refine ⟨⟨t, (Parser.run Grammar.source .statements tokens).2.take limit, .file⟩, ?_, htext,
    hleaves⟩
  rw [parseTokens, parseWith, if_neg (Nat.not_lt.mpr hsize)]
  simp only [Parser.run, hfound.outline, hbuild]
  rfl

end RSource
