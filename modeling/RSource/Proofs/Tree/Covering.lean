import RSource.Proofs.DocComment
import RSource.Proofs.Except
import RSource.Proofs.Lexeme.DocCover
import RSource.Proofs.Reparse
import RSource.Proofs.Tree.Ancestors
import RSource.Proofs.Tree.Tiled

/-! The node at an offset.  From the root on, the first child that contains the offset is taken, as
long as there is one.  Children tile their node, so that the way does not end before it comes to a
leaf (`isToken_of_childAt?_eq_none`), and leaves tile the text, so that it is the only one there
(`eq_of_contains`). -/

namespace RSource

/-- Of spans that tile, one contains every offset between their ends. -/
theorem Span.Tiles.exists_contains {first last offset : Nat} {ss : List Span}
    (h : Span.Tiles first last ss) (hfirst : first ≤ offset) (hlast : offset < last) :
    ∃ s ∈ ss, s.contains offset := by
  induction ss generalizing first with
  | nil => exact absurd (h ▸ hfirst) (Nat.not_le.mpr hlast)
  | cons s ss ih =>
    obtain ⟨hstart, -, hrest⟩ := h
    rcases Nat.lt_or_ge offset s.stop with hlt | hge
    · exact ⟨s, List.mem_cons_self, Span.contains_iff.mpr ⟨hstart ▸ hfirst, hlt⟩⟩
    · obtain ⟨s', hs', hcontains⟩ := ih hrest hge
      exact ⟨s', List.mem_cons_of_mem _ hs', hcontains⟩

/-- Of spans that tile, no two contain the same offset. -/
theorem Span.Tiles.pairwise_not_contains {first last : Nat} {ss : List Span}
    (h : Span.Tiles first last ss) (offset : Nat) :
    ss.Pairwise fun s s' => s.contains offset → ¬ s'.contains offset := by
  rw [List.pairwise_iff_forall_sublist]
  intro s s' hsub hs hs'
  have hle := h.stop_le_start hsub
  exact absurd (Nat.lt_of_lt_of_le (Span.contains_iff.mp hs).2 hle)
    (Nat.not_lt.mpr (Span.contains_iff.mp hs').1)

namespace SyntaxTree

/-- The first child that contains the offset. -/
def childAt? (t : SyntaxTree) (offset : Nat) (id : NodeId) : Option NodeId :=
  (t.children id).find? fun c => (t.span c).contains offset

/-- A loop that goes from a node to its first child that contains the offset, until there is none,
leaves the nodes of a list behind and ends at a node. -/
inductive Descends (t : SyntaxTree) (offset : Nat) : NodeId → List NodeId → NodeId → Prop
  | stay {id : NodeId} (h : t.childAt? offset id = none) : Descends t offset id [] id
  | step {id c d : NodeId} {path : List NodeId} (h : t.childAt? offset id = some c)
      (hc : Descends t offset c path d) : Descends t offset id (id :: path) d

variable {t : SyntaxTree} {offset : Nat} {id c d d' : NodeId} {path path' : List NodeId}

theorem contains_of_childAt? (h : t.childAt? offset id = some c) :
    (t.span c).contains offset :=
  List.find?_some (p := fun c => (t.span c).contains offset) h

namespace Descends

theorem unique (h : t.Descends offset id path d) (h' : t.Descends offset id path' d') :
    path' = path ∧ d' = d := by
  induction h generalizing path' with
  | stay hnone =>
    cases h' with
    | stay => exact ⟨rfl, rfl⟩
    | step hsome => exact absurd (hnone.symm.trans hsome) (by simp)
  | step hsome hc ih =>
    cases h' with
    | stay hnone => exact absurd (hnone.symm.trans hsome) (by simp)
    | step hsome' hc' =>
      obtain rfl := Option.some.inj (hsome.symm.trans hsome')
      obtain ⟨rfl, rfl⟩ := ih hc'
      exact ⟨rfl, rfl⟩

theorem childAt?_eq_none (h : t.Descends offset id path d) : t.childAt? offset d = none := by
  induction h with
  | stay hnone => exact hnone
  | step hsome hc ih => exact ih

/-- The loop does not leave the nodes that contain the offset. -/
theorem contains (h : t.Descends offset id path d) (hid : (t.span id).contains offset) :
    (∀ a ∈ path, (t.span a).contains offset) ∧ (t.span d).contains offset := by
  induction h with
  | stay => exact ⟨fun a ha => (nomatch ha), hid⟩
  | step hsome hc ih =>
    obtain ⟨hpath, hd⟩ := ih (contains_of_childAt? hsome)
    exact ⟨List.forall_mem_cons.mpr ⟨hid, hpath⟩, hd⟩

end Descends

mutual
/-- The loop ends where the walk down the tree of places does. -/
theorem exists_descends (offset : Nat) {parent : Option NodeId} :
    (m : Rose (NodeId × Extent)) → t.Holds parent m → ∃ path, t.Descends offset m.label.1 path
      ((m.map (·.1)).descend fun c => (t.span c).contains offset)
  | .node (id, e) cs, hm => by
    have hchildren : t.childAt? offset id =
        (cs.map (·.label.1)).find? fun c => (t.span c).contains offset :=
      congrArg (List.find? _) hm.children_eq
    rw [Rose.map, Rose.descend]
    rcases exists_descends_forest offset cs hm.2.2 with ⟨hnone, hd⟩ | ⟨c, path, d, hc, hpath, hd⟩
    · rw [hd]
      exact ⟨[], .stay (hchildren.trans hnone)⟩
    · rw [hd]
      exact ⟨id :: path, .step (hchildren.trans hc) hpath⟩

theorem exists_descends_forest (offset : Nat) {parent : NodeId} :
    (ms : List (Rose (NodeId × Extent))) → t.ForestHolds parent ms →
      ((ms.map (·.label.1)).find? (fun c => (t.span c).contains offset) = none ∧
        Rose.forestDescend? (fun c => (t.span c).contains offset)
          (Rose.forestMap (·.1) ms) = none) ∨
      ∃ c path d, (ms.map (·.label.1)).find? (fun c => (t.span c).contains offset) = some c ∧
        t.Descends offset c path d ∧
        Rose.forestDescend? (fun c => (t.span c).contains offset)
          (Rose.forestMap (·.1) ms) = some d
  | [], _ => .inl ⟨rfl, rfl⟩
  | m :: ms, ⟨hm, hms⟩ => by
    rw [List.map_cons, Rose.forestMap, Rose.forestDescend?, Rose.label_map]
    by_cases hhere : (t.span m.label.1).contains offset
    · obtain ⟨path, hpath⟩ := exists_descends offset m hm
      exact .inr ⟨_, path, _, List.find?_cons_of_pos hhere, hpath, if_pos hhere⟩
    · have hnext : (m.label.1 :: ms.map (·.label.1)).find? (fun c => (t.span c).contains offset) =
          (ms.map (·.label.1)).find? fun c => (t.span c).contains offset :=
        List.find?_cons_of_neg hhere
      rw [hnext, if_neg hhere]
      exact exists_descends_forest offset ms hms
end

theorem exists_descends_covering (text : String) (r : Rose Extent) (offset : Nat) :
    ∃ path, (ofRose text r).Descends offset (ofRose text r).root path
      ((ofRose text r).covering offset) := by
  obtain ⟨path, hpath⟩ := exists_descends offset _ (holds_ofRose text r)
  rw [covering, shape_ofRose, root_ofRose]
  exact ⟨path, hpath⟩

/-! ### What is at an offset -/

/-- Two leaves that contain the same offset are one. -/
theorem eq_of_contains {text : String} {r : Rose Extent} {first last : Nat}
    (hleaves : Consecutive first last (ofRose text r).leaves)
    (hid : (ofRose text r).isToken id) (hd : (ofRose text r).isToken d)
    (hidAt : ((ofRose text r).span id).contains offset)
    (hdAt : ((ofRose text r).span d).contains offset) : id = d := by
  rw [consecutive_iff_tiles, map_span_leaves] at hleaves
  have hpairs := List.pairwise_map.mp (hleaves.pairwise_not_contains offset)
  have hmem : ∀ {c}, (ofRose text r).isToken c → c ∈
      ((ofRose text r).preorder (ofRose text r).root).filter (ofRose text r).isToken :=
    fun hc => List.mem_filter.mpr ⟨mem_preorder_iff.mpr (lt_size_of_isToken hc), hc⟩
  have hsymm : Std.Symm fun c c' => ((ofRose text r).span c).contains offset →
      ¬ ((ofRose text r).span c').contains offset := ⟨fun _ _ h hc hc' => h hc' hc⟩
  by_contra hne
  exact hpairs.forall (hmem hid) (hmem hd) hne hidAt hdAt

variable {K : NodeKind → Prop} {stop : Nat} {log : List (Option Token)} {r : Rose Extent}
variable {text : String}

/-- A node that contains an offset that none of its children contains is a leaf. -/
theorem isToken_of_childAt?_eq_none (hlaid : Laid K false 0 stop log r)
    (hK : ∀ kind, K kind → kind.tokenKind? = none)
    (hd : ((ofRose text r).span d).contains offset)
    (hnone : (ofRose text r).childAt? offset d = none) :
    (ofRose text r).isToken d ∧ (ofRose text r).children d = [] := by
  have hnil : (ofRose text r).children d = [] := by
    by_contra hne
    obtain ⟨hfirst, hlast⟩ := Span.contains_iff.mp hd
    obtain ⟨s, hs, hat⟩ := (tiles_children_of_laid hlaid hne).exists_contains hfirst hlast
    obtain ⟨c, hc, rfl⟩ := List.mem_map.mp hs
    exact List.find?_eq_none.mp hnone c hc hat
  refine ⟨?_, hnil⟩
  have hlt : d < (ofRose text r).size := by
    by_contra hlt
    rw [span, Array.getElem?_eq_none (Nat.le_of_not_lt hlt)] at hd
    exact Span.not_contains_point 0 offset hd
  obtain ⟨m, parent, inside, first, a, b, log', r', rfl, hm, hs, -⟩ :=
    exists_standing_node hlaid hlt
  cases hheld : heldIn log m.label.1 with
  | some token =>
    have htoken : (ofRose text r).token? m.label.1 = some token :=
      (heldIn_eq_token? hlaid hK m.label.1).symm.trans hheld
    rw [token?_eq] at htoken
    obtain ⟨kind, hkind, -⟩ := Option.map_eq_some_iff.mp htoken
    rw [isToken, hkind]
    rfl
  | none =>
    -- A node without children that holds no token is empty.
    have hempty := hs.empty hm hheld hnil
    rw [(hs.spans hm).1, hempty] at hd
    exact absurd hd (Span.not_contains_point b offset)

/-- Over tokens that stand end to end and whose kinds only leaves have, the loop ends at the one leaf
that contains the offset, when there is one, and does not leave the root otherwise. -/
theorem covering_of_build {tokens : List Token} {events : List Event}
    (htokens : Consecutive 0 (Text.byteLength text) tokens)
    (hkinds : ∀ kind outer, .start kind outer ∈ events → kind.tokenKind? = none)
    (hbuild : build text tokens events = .ok t)
    (hleaves : Consecutive 0 (Text.byteLength text) t.leaves) (offset : Nat) :
    ∃ path, (∀ path' d, t.Descends offset t.root path' d ↔
        path' = path ∧ d = t.covering offset) ∧
      (offset < Text.byteLength text → t.children (t.covering offset) = [] ∧
        (∀ id ∈ path, (t.span id).contains offset) ∧
        ∀ id, (t.isToken id ∧ (t.span id).contains offset) ↔ id = t.covering offset) ∧
      (Text.byteLength text ≤ offset → path = [] ∧ t.covering offset = t.root) := by
  have hbounds := build_bounds htokens hbuild
  obtain ⟨r, stop, log, rfl, hlaid, -⟩ := build_laid htokens hbuild
  have hK : ∀ kind, (∃ outer, Event.start kind outer ∈ events) → kind.tokenKind? = none :=
    fun kind ⟨outer, hmem⟩ => hkinds kind outer hmem
  obtain ⟨path, hpath⟩ := exists_descends_covering text r offset
  refine ⟨path, fun path' d => ⟨hpath.unique, ?_⟩, fun hoffset => ?_, fun hoffset => ?_⟩
  · rintro ⟨rfl, rfl⟩
    exact hpath
  · have hstop : stop = Text.byteLength text := by
      rw [leaves_of_laid hlaid hK] at hleaves
      exact hlaid.consecutive.last_eq hleaves
    have hroot : (ofRose text r).span (ofRose text r).root = ⟨0, stop⟩ := by
      rw [root_ofRose]
      exact (Standing.spans ⟨rfl, hlaid, heldFrom_heldIn log⟩ (holds_ofRose text r)).1
    obtain ⟨hway, hend⟩ := hpath.contains
      (hroot ▸ Span.contains_iff.mpr ⟨Nat.zero_le _, hstop ▸ hoffset⟩)
    obtain ⟨htoken, hnil⟩ := isToken_of_childAt?_eq_none hlaid hK hend hpath.childAt?_eq_none
    refine ⟨hnil, hway, fun id => ⟨fun ⟨hid, hat⟩ => ?_, ?_⟩⟩
    · exact eq_of_contains hleaves hid htoken hat hend
    · rintro rfl
      exact ⟨htoken, hend⟩
  · have hstay : (ofRose text r).childAt? offset (ofRose text r).root = none := by
      refine List.find?_eq_none.mpr fun c _ hc => ?_
      exact absurd (Nat.lt_of_lt_of_le (Span.contains_iff.mp hc).2 (hbounds c).2)
        (Nat.not_lt.mpr hoffset)
    obtain ⟨rfl, hcovering⟩ := (Descends.stay hstay).unique hpath
    exact ⟨rfl, hcovering⟩

end SyntaxTree

/-- A tree that has all tokens of lexemes as its leaves has them end to end. -/
theorem Lexeme.consecutive_takeWhile_place {ls : List Lexeme} {text : String}
    (hkinds : ∀ l ∈ ls, l.kind ≠ .endOfFile)
    (hchars : ls.flatMap Lexeme.chars = text.toList) :
    Consecutive 0 (Text.byteLength text)
      ((place 0 ls).takeWhile (·.kind ≠ .endOfFile)) := by
  have htile := consecutive_tile ls 0
  rwa [hchars, Text.size_toList, Nat.zero_add, ← takeWhile_place hkinds] at htile

/-- What is parsed is built over tokens that stand end to end and are its leaves, and no event
starts a node of the kind of a token. -/
theorem exists_build_of_parse {text : String} {limit : Nat} {p : Parse}
    (hp : parse text limit = .ok p ∨ parseDoc text = .ok p) : ∃ tokens events,
      Consecutive 0 (Text.byteLength text) tokens ∧
      (∀ kind outer, .start kind outer ∈ events → kind.tokenKind? = none) ∧
      SyntaxTree.build text tokens events = .ok p.tree ∧
      Consecutive 0 (Text.byteLength text) p.tree.leaves := by
  -- Both grammars give an outline, and the events of an outline start its nodes only.
  have hstarts : ∀ {kind os}, kind.tokenKind? = none → Outline.ForestPlain os →
      ∀ k outer, .start k outer ∈ (Outline.node kind os).events → k.tokenKind? = none := by
    intro kind os hkind hos k outer hmem
    have hstart := Outline.Plain.of_mem_eventsThen (.node kind os) ⟨hkind, hos⟩ hmem
    simpa using hstart
  rcases hp with hp | hp
  · obtain ⟨os, more, hfound⟩ := Grammar.found (lex text)
    have hbuild := (parseTokens_eq_ok hfound hp).1
    have hfile : NodeKind.file.tokenKind? = none := rfl
    refine ⟨_, _, consecutive_lex text, hstarts hfile hfound.plain, hbuild, ?_⟩
    obtain ⟨t, ht, -, hleaves⟩ :=
      SyntaxTree.build_leaves text hfile hfound.plain hfound.significant hfound.inside
    obtain rfl := Except.ok.inj (ht.symm.trans hbuild)
    rw [hleaves]
    exact Lexeme.consecutive_takeWhile_place (fun _ => Lexeme.kind_ne_endOfFile_of_mem_ofText)
      (Lexeme.flatMap_chars_ofText text)
  · obtain ⟨os, es, hfound⟩ := Grammar.DocComment.found text
    have hcomment : NodeKind.roxygenComment.tokenKind? = none := rfl
    obtain ⟨t, ht, -, hleaves⟩ :=
      SyntaxTree.build_leaves text hcomment hfound.plain hfound.significant hfound.inside
    have hbuild := (parseWith_eq_ok hp).1
    rw [hfound.run] at hbuild
    obtain rfl := Except.ok.inj (ht.symm.trans hbuild)
    refine ⟨_, _, consecutive_lexDoc text, hstarts hcomment hfound.plain, hbuild, ?_⟩
    rw [hleaves]
    exact Lexeme.consecutive_takeWhile_place
      (fun l hl => ((Lexeme.Doc.cuts_ofChars text.toList).sound l hl).2)
      (Lexeme.Doc.flatMap_chars_ofChars text.toList)

/-- In a tree that is parsed, whatever the text is, the search for the node at an offset ends.  At an
offset inside the text it ends at a leaf, which is the only leaf there, and every node on the way
contains the offset, so that none of them is empty; at any other offset it ends at the root. -/
theorem covering_of_parse {text : String} {limit : Nat} {p : Parse}
    (hp : parse text limit = .ok p ∨ parseDoc text = .ok p) (offset : Nat) :
    ∃ path, (∀ path' d, p.tree.Descends offset p.tree.root path' d ↔
        path' = path ∧ d = p.tree.covering offset) ∧
      (offset < Text.byteLength text → p.tree.children (p.tree.covering offset) = [] ∧
        (∀ id ∈ path, (p.tree.span id).contains offset) ∧
        ∀ id, (p.tree.isToken id ∧ (p.tree.span id).contains offset) ↔
          id = p.tree.covering offset) ∧
      (Text.byteLength text ≤ offset → path = [] ∧ p.tree.covering offset = p.tree.root) := by
  obtain ⟨tokens, events, htokens, hkinds, hbuild, hleaves⟩ := exists_build_of_parse hp
  exact SyntaxTree.covering_of_build htokens hkinds hbuild hleaves offset

/-- An argument that is left empty stands before the comma at the same offset. -/
theorem covering_of_parse_empty : ∃ p, parse "f(,1)" 1 = .ok p ∧ p.tree.span 3 = .point 2 ∧
    p.tree.covering 2 = 4 ∧
    ∃ path, (∀ path' d, p.tree.Descends 2 p.tree.root path' d ↔
        path' = path ∧ d = p.tree.covering 2) ∧
      (2 < Text.byteLength "f(,1)" → p.tree.children (p.tree.covering 2) = [] ∧
        (∀ id ∈ path, (p.tree.span id).contains 2) ∧
        ∀ id, (p.tree.isToken id ∧ (p.tree.span id).contains 2) ↔ id = p.tree.covering 2) ∧
      (Text.byteLength "f(,1)" ≤ 2 → path = [] ∧ p.tree.covering 2 = p.tree.root) := by
  have hparse : (parse "f(,1)" 1).toOption.any (fun p =>
      p.tree.span 3 == .point 2 && p.tree.covering 2 == 4) = true := by
    decide +kernel
  obtain ⟨p, hp, hsome⟩ := exists_of_any_toOption hparse
  rw [Bool.and_eq_true, beq_iff_eq, beq_iff_eq] at hsome
  exact ⟨p, hp, hsome.1, hsome.2, covering_of_parse (.inl hp) 2⟩

end RSource
