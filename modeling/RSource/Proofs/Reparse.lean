import RSource.Proofs.Derivation
import RSource.Proofs.Grammar.Adjacent
import RSource.Proofs.Grammar.Built
import RSource.Proofs.Lexeme.Spaced
import RSource.Proofs.Lexeme.Written
import RSource.Proofs.Tree.Edited

/-! Renaming and parsing again.  In a source without errors a new name is read as one token, in
place of the old one and between the same tokens; the grammar does not look at the text of a token,
so that the parse of the edited text is the edited tree. -/

namespace RSource

open Lexeme
open Outline (forestTokens)

variable {text : String}

/-! ### The lexemes of a source without errors -/

variable {os : List Outline} {more : List Nat}

/-- The tokens of a text that the grammar sees are neighbours in the outline, if it has them
parted. -/
theorem isChain_significant (h : Grammar.Found (lex text) os more)
    (hchain : (forestTokens os).IsChain (Parted (lex text))) :
    (significant 0 (tile 0 (ofText text))).IsChain (Parted (lex text)) := by
  have hsplit := h.significant
  rw [lex_eq_tile, significant_append] at hsplit
  rcases List.append_eq_append_iff.mp hsplit with ⟨rest, hrest, -⟩ | ⟨rest, hrest, hmore⟩
  · rw [hrest] at hchain
    exact hchain.left_of_append
  cases rest with
  | nil => rwa [hrest, List.append_nil]
  | cons i rest =>
    -- A token that the outline lacks is an end of file, and there is none among the lexemes.
    have hmem : i ∈ significant 0 (tile 0 (ofText text)) := by simp [hrest]
    obtain ⟨j, t, hij, hget, -⟩ := mem_significant.mp hmem
    have hbound := (List.getElem?_eq_some_iff.mp hget).1
    have hkind : t.kind = .endOfFile := by
      refine h.ending i (by simp [hmore]) t ?_
      rw [lex_eq_tile, hij, Nat.zero_add, List.getElem?_append_left hbound, hget]
    obtain ⟨l, hl, hlkind⟩ := kind_of_mem_tile (List.mem_of_getElem? hget)
    exact absurd (hlkind.trans hkind) (kind_ne_endOfFile_of_mem_ofText hl)

/-- In a source that keeps to the grammar no name and no number is directly followed by a word. -/
theorem apart_of_derived (h : Grammar.Found (lex text) os more)
    (hderived : (Outline.node .file os).Derived (lex text) .strict) : Apart (ofText text) := by
  have hend : TokenKind.endOfFile ∉ wordLike := by decide
  have hfresh : Fresh (lex text) (tile 0 (ofText text)).length := by
    intro t ht
    rw [lex_eq_tile, List.getElem?_concat_length] at ht
    rw [← Option.some.inj ht]
    exact hend
  have hchain : (significant 0 (lex text)).IsChain (Parted (lex text)) := by
    have hsplit : significant 0 (lex text) =
        significant 0 (tile 0 (ofText text)) ++ [(tile 0 (ofText text)).length] := by
      rw [lex_eq_tile, significant_append, Nat.zero_add]
      rfl
    rw [hsplit]
    refine (isChain_significant h hderived.spaced.chain).append (.singleton _) ?_
    intro i _ j hj
    obtain rfl := Option.some.inj hj
    exact .inr (.inl hfresh)
  have hkinds := isChain_kind_of_parted (lex text) [] hchain
  rw [lex_eq_place, map_kind_place] at hkinds
  exact hkinds.left_of_append

variable {t : SyntaxTree}

/-- The text of the tree, and its leaves. -/
theorem leaves_eq_tile (h : Grammar.Found (lex text) os more)
    (hbuild : SyntaxTree.build text (lex text) (Outline.node .file os).events = .ok t) :
    t.text = text ∧ t.leaves = tile 0 (ofText text) := by
  have hfile : NodeKind.file.tokenKind? = none := rfl
  obtain ⟨t', hbuild', htext, hleaves⟩ :=
    SyntaxTree.build_leaves text hfile h.plain h.significant h.inside
  obtain rfl := Except.ok.inj (hbuild.symm.trans hbuild')
  exact ⟨htext, hleaves.trans (takeWhile_lex text)⟩

/-- In a source that keeps to the grammar every lexeme has its end. -/
theorem sound_of_derived (h : Grammar.Found (lex text) os more)
    (hderived : (Outline.node .file os).Derived (lex text) .strict)
    (hbuild : SyntaxTree.build text (lex text) (Outline.node .file os).events = .ok t) :
    Sound (ofText text) := by
  have hknown := h.known_leaves hderived hbuild
  rw [(leaves_eq_tile h hbuild).2] at hknown
  intro l hl
  have hkinds := map_kind_place 0 (ofText text)
  rw [place_eq_tile, List.map_append] at hkinds
  have hmem : l.kind ∈ (tile 0 (ofText text)).map Token.kind := by
    rw [List.append_cancel_right hkinds]
    exact List.mem_map_of_mem hl
  obtain ⟨x, hx, hkind⟩ := List.mem_map.mp hmem
  rw [← hkind]
  exact hknown x hx

/-- A leaf of a tree is a lexeme of its text. -/
theorem exists_lexeme_of_leaf (h : Grammar.Found (lex text) os more)
    (hbuild : SyntaxTree.build text (lex text) (Outline.node .file os).events = .ok t)
    {leaf : NodeId} {kind : TokenKind} (hleaf : t.kind? leaf = some (.token kind)) :
    ∃ before l after, ofText text = before ++ l :: after ∧ l.kind = kind ∧
      t.span leaf = (l.tokenAt (Text.size (before.flatMap Lexeme.chars))).span ∧
      t.textOf leaf = String.ofList l.chars := by
  obtain ⟨htext, hleaves⟩ := leaves_eq_tile h hbuild
  obtain ⟨node, hnode, hkind⟩ := Option.map_eq_some_iff.mp hleaf
  obtain ⟨r, rfl⟩ := SyntaxTree.exists_ofRose_of_build hbuild
  have hspan : (SyntaxTree.ofRose text r).span leaf = node.span := by
    rw [SyntaxTree.span, hnode]
    rfl
  have htoken : (⟨kind, node.span⟩ : Token) ∈ tile 0 (ofText text) := by
    rw [← hleaves, SyntaxTree.leaves_ofRose]
    refine List.mem_filterMap.mpr
      ⟨⟨node.kind, node.span⟩, SyntaxTree.mem_nodes_ofRose (Array.mem_of_getElem? hnode), ?_⟩
    rw [hkind]
    rfl
  obtain ⟨before, l, after, hsplit, heq⟩ := mem_tile htoken
  rw [Nat.zero_add] at heq
  have hplace : (SyntaxTree.ofRose text r).span leaf =
      (l.tokenAt (Text.size (before.flatMap Lexeme.chars))).span :=
    hspan.trans (congrArg Token.span heq)
  refine ⟨before, l, after, hsplit, (congrArg Token.kind heq).symm, hplace, ?_⟩
  rw [SyntaxTree.textOf, hplace, htext, slice_lexeme hsplit]

/-- Another spelling of a name or a string is one lexeme of the edited text, and the others are as
they were. -/
theorem ofText_spliced {before after : List Lexeme} {l : Lexeme} {part : String}
    (h : ofText text = before ++ l :: after) (hsound : Sound (ofText text))
    (hapart : Apart (ofText text)) (hnew : Respells l part.toList) :
    ofText (Text.splice text (l.tokenAt (Text.size (before.flatMap Lexeme.chars))).span part) =
      before ++ ⟨l.kind, part.toList⟩ :: after := by
  have htext : text = String.ofList
      (before.flatMap Lexeme.chars ++ l.chars ++ after.flatMap Lexeme.chars) := by
    rw [← String.ofList_toList (s := text), ← flatMap_chars_ofText, h, List.flatMap_append,
      List.flatMap_cons, List.append_assoc]
  have hsplice := Text.splice_ofList (before.flatMap Lexeme.chars) l.chars
    (after.flatMap Lexeme.chars) part
  rw [← htext] at hsplice
  rw [tokenAt, Lexeme.size, hsplice]
  exact ofText_respelled h hsound hapart hnew

/-! ### What a rename does -/

namespace Rename

variable {target leaf : NodeId} {name part : String}

/-- The text is how a name is written in place of a leaf that is an identifier or a string. -/
structure Writes (t : SyntaxTree) (place : NodeId) (name part : String) (kind : TokenKind) :
    Prop where
  leaf : t.kind? place = some (.token kind)
  written : (kind = .identifier ∧ identifierText (t.textOf place) name = .ok part) ∨
    (kind = .string ∧ stringText (t.textOf place) name = .ok part)

theorem of_childToken? {id : NodeId} {kind : TokenKind} (h : t.childToken? id kind = some leaf) :
    t.kind? leaf = some (.token kind) ∧ leaf ∈ t.children id := by
  have hkind := List.find?_some h
  exact ⟨by simpa [SyntaxTree.isKind] using hkind, List.mem_of_find?_eq_some h⟩

/-- The leaf is a child of the target, and an identifier just when the target is one. -/
theorem replacement_eq_ok (h : replacement t target name = .ok (leaf, part)) :
    ∃ kind, Writes t leaf name part kind ∧ leaf ∈ t.children target ∧
      kind = if t.isKind .identifierExpression target then .identifier else .string := by
  rw [replacement] at h
  cases hidentifier : t.isKind .identifierExpression target with
  | true =>
    simp only [hidentifier, if_true] at h
    split at h
    · cases h
    · next found hfound =>
      obtain ⟨new, htext, hpair⟩ := bind_eq_ok_iff.mp h
      cases Except.ok.inj hpair
      obtain ⟨hkind, hmem⟩ := of_childToken? hfound
      exact ⟨.identifier, ⟨hkind, .inl ⟨rfl, htext⟩⟩, hmem, rfl⟩
  | false =>
    simp only [hidentifier, Bool.false_eq_true, if_false] at h
    split at h
    · cases h
    · next found hfound =>
      obtain ⟨new, htext, hpair⟩ := bind_eq_ok_iff.mp h
      cases Except.ok.inj hpair
      obtain ⟨hkind, hmem⟩ := of_childToken? hfound
      exact ⟨.string, ⟨hkind, .inr ⟨rfl, htext⟩⟩, hmem, rfl⟩

theorem exists_replacement {id : NodeId} {edited : SyntaxTree}
    (h : t.rename id name = .ok edited) :
    ∃ target leaf part, target? t id = .ok target ∧
      replacement t target name = .ok (leaf, part) ∧
      t.replaceTokenText leaf part = .ok edited := by
  rw [SyntaxTree.rename] at h
  split at h
  · cases h
  obtain ⟨target, htarget, h⟩ := bind_eq_ok_iff.mp h
  obtain ⟨⟨leaf, part⟩, hreplacement, h⟩ := bind_eq_ok_iff.mp h
  refine ⟨target, leaf, part, htarget, hreplacement, ?_⟩
  cases hreplace : t.replaceTokenText leaf part with
  | error cause => simp [hreplace] at h
  | ok t' =>
    simp only [hreplace] at h
    rw [← Except.ok.inj h]

/-- A rename writes to one leaf. -/
theorem rename_eq_ok {id : NodeId} {edited : SyntaxTree} (h : t.rename id name = .ok edited) :
    ∃ leaf part kind, Writes t leaf name part kind ∧
      t.replaceTokenText leaf part = .ok edited := by
  obtain ⟨target, leaf, part, -, hreplacement, hreplace⟩ := exists_replacement h
  obtain ⟨kind, hwrites, -⟩ := replacement_eq_ok hreplacement
  exact ⟨leaf, part, kind, hwrites, hreplace⟩

/-- What is written is read as the token that it replaces. -/
theorem Writes.respells {kind : TokenKind} {l : Lexeme} (h : Writes t leaf name part kind)
    (hl : l.kind = kind) (hold : t.textOf leaf = String.ofList l.chars) :
    Respells l part.toList := by
  have hchars : l.chars = (t.textOf leaf).toList := by rw [hold, String.toList_ofList]
  rcases h.written with ⟨rfl, htext⟩ | ⟨rfl, htext⟩
  · exact respells_identifierText hl hchars htext
  · exact respells_stringText hl hchars htext

end Rename

/-! ### The same tree -/

/-- Tokens of the same kinds are the same source to the grammar. -/
theorem Grammar.Found.of_kinds {tokens tokens' : List Token} {os : List Outline} {more : List Nat}
    (h : Found tokens os more) (hkinds : tokens.map Token.kind = tokens'.map Token.kind) :
    ∃ more', Found tokens' os more' := by
  obtain ⟨os', more', h'⟩ := found tokens'
  have hvalue := (blind_source.ofTokens hkinds .statements).1
  rw [h.outline, h'.outline] at hvalue
  obtain ⟨-, rfl⟩ := Outline.node.inj hvalue
  exact ⟨more', h'⟩

theorem map_kind_moved (f : Nat → Nat) (ts : List Token) :
    (ts.map (Token.moved f)).map Token.kind = ts.map Token.kind := by
  rw [List.map_map]
  rfl

/-- A source without errors whose tokens stand elsewhere has no errors, and its tree is the one
with its spans moved. -/
theorem parse_moved {text' : String} {f : Nat → Nat} (hfound : Grammar.Found (lex text) os more)
    (hclean : (Grammar.source .statements (.ofTokens (lex text))).errors = [])
    (hbuild : SyntaxTree.build text (lex text) (Outline.node .file os).events = .ok t)
    (hlex : lex text' = (lex text).map (Token.moved f))
    (hlength : Text.byteLength text' = f (Text.byteLength text))
    (hsize : Text.byteLength text' ≤ maxOffset) (limit : Nat) :
    ∃ q, parse text' limit = .ok q ∧ q.errors = [] ∧
      q.tree = ⟨text', t.nodes.map (Node.moved f), t.root⟩ := by
  have hkinds : (lex text).map Token.kind = (lex text').map Token.kind := by
    rw [hlex, map_kind_moved]
  obtain ⟨more', hfound'⟩ := hfound.of_kinds hkinds
  obtain ⟨q, hq, -⟩ := parseTokens_ok hsize (lex text') limit
  obtain ⟨hbuild', herrors⟩ := parseTokens_eq_ok hfound' hq
  have hclean' := (Grammar.blind_source.ofTokens hkinds .statements).2 hclean
  refine ⟨q, hq, ?_, ?_⟩
  · rw [herrors, Parser.run, hclean']
    exact List.take_nil
  · have hmoved := SyntaxTree.build_moved f hlength hbuild
    rw [← hlex] at hmoved
    exact Except.ok.inj (hbuild'.symm.trans hmoved)

/-- A rename is the same as editing the text and parsing it again. -/
theorem rename_reparse {text : String} {limit : Nat} {p : Parse} {id : NodeId} {name : String}
    {edited : SyntaxTree} (hlimit : 1 ≤ limit) (hp : parse text limit = .ok p)
    (herrors : p.errors = []) (hrename : p.tree.rename id name = .ok edited) (limit' : Nat) :
    ∃ q, parse edited.text limit' = .ok q ∧ q.errors = [] ∧ q.tree = edited := by
  obtain ⟨os, more, hfound⟩ := Grammar.found (lex text)
  have hbuild := (parseTokens_eq_ok hfound hp).1
  have hclean := errors_source_eq_nil hlimit hp herrors
  have hderived := hfound.derived hclean
  have hstraight := SyntaxTree.build_straight (inOrder_lex text) hbuild
  obtain ⟨leaf, part, kind, hwrites, hreplace⟩ := Rename.rename_eq_ok hrename
  obtain ⟨hsize, rfl⟩ := SyntaxTree.replaceTokenText_eq_ok hreplace hstraight
  obtain ⟨before, l, after, hsplit, hkind, hspan, hold⟩ :=
    exists_lexeme_of_leaf hfound hbuild hwrites.leaf
  rw [hspan, (leaves_eq_tile hfound hbuild).1, ← Text.size_toList part] at hsize ⊢
  rw [length_span_tokenAt] at hsize
  have hlexemes := ofText_spliced hsplit (sound_of_derived hfound hderived hbuild)
    (apart_of_derived hfound hderived) (hwrites.respells hkind hold)
  show ∃ q, parse (Text.splice _ _ _) limit' = .ok q ∧ _
  generalize Text.splice text (l.tokenAt _).span part = text' at hlexemes ⊢
  obtain ⟨hlex, hlength⟩ := lex_edited rfl hsplit hlexemes hsize
  have hfits : Text.byteLength text' ≤ maxOffset := by
    have hbefore := byteLength_of_ofText hsplit
    have hafter : _ = _ + Text.size part.toList + _ := byteLength_of_ofText hlexemes
    omega
  exact parse_moved hfound hclean hbuild hlex hlength hfits limit'

/-- The name needs backticks, so that everything after it moves. -/
theorem rename_reparse_backticks : ∃ p edited, parse "x <- f(y)" 1 = .ok p ∧ p.errors = [] ∧
    p.tree.rename 1 "a b" = .ok edited ∧ edited.text = "`a b` <- f(y)" ∧
    ∃ q, parse edited.text 1 = .ok q ∧ q.errors = [] ∧ q.tree = edited := by
  have haccepted : (parse "x <- f(y)" 1).toOption.any (fun p => p.errors.isEmpty &&
      (p.tree.rename 1 "a b").toOption.any (·.text == "`a b` <- f(y)")) = true := by
    decide +kernel
  obtain ⟨p, hp, h⟩ := exists_of_any_toOption haccepted
  obtain ⟨hnone, hrenamed⟩ := Bool.and_eq_true_iff.mp h
  obtain ⟨edited, hrename, htext⟩ := exists_of_any_toOption hrenamed
  have herrors := List.isEmpty_iff.mp hnone
  exact ⟨p, edited, hp, herrors, hrename, eq_of_beq htext,
    rename_reparse (Nat.le_refl 1) hp herrors hrename 1⟩

end RSource
