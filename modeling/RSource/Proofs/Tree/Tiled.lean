import RSource.Proofs.Lossless
import RSource.Proofs.Renamed
import RSource.Proofs.Text.Seam
import RSource.Proofs.Tree.Bounds
import RSource.Proofs.Tree.Edited
import RSource.Proofs.Tree.Invariants

/-! Trees under a run of edits.  The tree of a text that is cut into pieces is a tree over the
numbers of the pieces, laid out over the pieces (`SyntaxTree.laidOver`).  The edit of a leaf leaves
the tree over the numbers and changes one piece, as long as no text is put into a leaf that is
empty; so what holds of the numbers holds after any run of edits. -/

namespace RSource

/-- Spans end to end from one offset to another. -/
def Span.Tiles (first last : Nat) : List Span → Prop
  | [] => first = last
  | s :: ss => s.start = first ∧ first ≤ s.stop ∧ Span.Tiles s.stop last ss

namespace Span.Tiles

variable {first last : Nat} {f : Nat → Nat}

theorem moved (hf : ∀ j k, j ≤ k → f j ≤ f k) {ss : List Span} (h : Span.Tiles first last ss) :
    Span.Tiles (f first) (f last) (ss.map (Span.moved f)) := by
  induction ss generalizing first with
  | nil => exact congrArg f h
  | cons s ss ih =>
    obtain ⟨hstart, hle, hrest⟩ := h
    exact ⟨congrArg f hstart, hf _ _ hle, ih hrest⟩

/-- The numbers from one on, each with the next. -/
theorem range' (count : Nat) : ∀ first : Nat, Span.Tiles first (first + count)
    ((List.range' first count).map fun i => ⟨i, i + 1⟩) := by
  induction count with
  | zero => exact fun first => rfl
  | succ count ih =>
    intro first
    rw [List.range'_succ, List.map_cons, ← Nat.add_assoc, Nat.add_right_comm]
    exact ⟨rfl, Nat.le_succ _, ih (first + 1)⟩

theorem le_start {s : Span} {ss : List Span} (h : Span.Tiles first last ss) (hs : s ∈ ss) :
    first ≤ s.start := by
  induction ss generalizing first with
  | nil => cases hs
  | cons s' ss ih =>
    obtain ⟨hstart, hle, hrest⟩ := h
    rcases List.mem_cons.mp hs with rfl | hs
    · exact Nat.le_of_eq hstart.symm
    · exact Nat.le_trans hle (ih hrest hs)

/-- Of two tiles the first ends before the second starts. -/
theorem stop_le_start {s s' : Span} {ss : List Span} (h : Span.Tiles first last ss)
    (hsub : [s, s'].Sublist ss) : s.stop ≤ s'.start := by
  induction ss generalizing first with
  | nil => cases hsub
  | cons s'' ss ih =>
    obtain ⟨-, -, hrest⟩ := h
    rw [List.cons_sublist_cons', List.singleton_sublist] at hsub
    rcases hsub with hsub | ⟨rfl, hs⟩
    · exact ih hrest hsub
    · exact hrest.le_start hs

end Span.Tiles

theorem consecutive_iff_tiles {first last : Nat} {ts : List Token} :
    Consecutive first last ts ↔ Span.Tiles first last (ts.map Token.span) := by
  induction ts generalizing first with
  | nil => exact Iff.rfl
  | cons t ts ih => exact and_congr_right' (and_congr_right' ih)

/-! ### What is laid out tiles -/

section

variable {K : NodeKind → Prop}

theorem ForestLaid.tiles {inside : Bool} {a b : Nat} {log : List (Option Token)}
    {cs : List (Rose Extent)} (h : ForestLaid K inside a b log cs) :
    Span.Tiles a b (cs.map (·.label.span)) := by
  induction cs generalizing a log with
  | nil => cases h; rfl
  | cons tree cs ih =>
    cases h with
    | cons htree hcs =>
      have hspan := htree.span
      refine ⟨congrArg Span.start hspan, ?_, ?_⟩
      · show a ≤ tree.label.span.stop
        rw [hspan]
        exact htree.le
      · show Span.Tiles tree.label.span.stop b _
        rw [hspan]
        exact ih hcs

/-- The children of a node tile it. -/
theorem SyntaxTree.tiles_children_of_laid {text : String} {stop : Nat} {log : List (Option Token)}
    {r : Rose Extent} (h : Laid K false 0 stop log r) {id : NodeId}
    (hid : (ofRose text r).children id ≠ []) :
    Span.Tiles ((ofRose text r).span id).start ((ofRose text r).span id).stop
      (((ofRose text r).children id).map (ofRose text r).span) := by
  by_cases hsize : id < (ofRose text r).size
  · obtain ⟨m, parent, inside, first, a, b, log', r', rfl, hm, hs, -⟩ :=
      exists_standing_node h hsize
    obtain ⟨hspan, -⟩ := hs.spans hm
    rw [hspan, hm.map_span_children]
    rcases hs.cases.2 with ⟨token, -, hnil, -⟩ | ⟨-, -, log'', cs, hchildren, hcs, -, -⟩
    · rw [hm.children_eq, hnil] at hid
      exact absurd rfl hid
    · rw [hchildren, map_span_numberAll]
      exact hcs.tiles
  · exact absurd (children_eq_nil_of_le (Nat.le_of_not_lt hsize)) hid

end

/-! ### Trees over numbers of pieces -/

open Text

theorem Rose.mem_forestPreorder_of_mem {α : Type} {a : α} {t : Rose α} {ts : List (Rose α)}
    (ht : t ∈ ts) (ha : a ∈ t.preorder) : a ∈ Rose.forestPreorder ts := by
  induction ts with
  | nil => cases ht
  | cons u ts ih =>
    rcases List.mem_cons.mp ht with rfl | ht
    · exact List.mem_append_left _ ha
    · exact List.mem_append_right _ (ih ht)

theorem Rose.Within.mem_preorder {α : Type} {s t : Rose α} (h : Rose.Within s t) :
    s.label ∈ t.preorder := by
  induction h with
  | refl => cases s; exact List.mem_cons_self
  | child hc h ih => exact List.mem_cons_of_mem _ (Rose.mem_forestPreorder_of_mem hc ih)

namespace Lexeme

/-- The lexeme with one byte, so that offsets count lexemes. -/
def unit (l : Lexeme) : Lexeme := ⟨l.kind, ['x']⟩

theorem size_units (ls : List Lexeme) :
    Text.size ((ls.map unit).flatMap Lexeme.chars) = ls.length := by
  induction ls with
  | nil => rfl
  | cons l ls ih =>
    rw [List.map_cons, List.flatMap_cons, Text.size_append, ih, List.length_cons, Nat.add_comm]
    rfl

theorem map_span_tile_units (ls : List Lexeme) (first : Nat) :
    (tile first (ls.map unit)).map Token.span =
      (List.range' first ls.length).map fun i => ⟨i, i + 1⟩ := by
  induction ls generalizing first with
  | nil => rfl
  | cons l ls ih =>
    rw [List.map_cons, tile, List.map_cons, List.length_cons, List.range'_succ, List.map_cons]
    exact congrArg _ (ih (first + 1))

/-- Lexemes are laid out by their seams. -/
theorem tile_units_moved (ls : List Lexeme) : ∀ before : List Lexeme,
    (tile before.length (ls.map unit)).map
        (Token.moved (seam ((before ++ ls).map Lexeme.chars))) =
      tile (Text.size (before.flatMap Lexeme.chars)) ls := by
  induction ls with
  | nil => intro before; rfl
  | cons l ls ih =>
    intro before
    have hpieces : (before ++ l :: ls).map Lexeme.chars =
        before.map Lexeme.chars ++ l.chars :: ls.map Lexeme.chars := by
      rw [List.map_append, List.map_cons]
    have hflat : (before.map Lexeme.chars).flatten = before.flatMap Lexeme.chars :=
      List.flatMap_def.symm
    have hstart : seam ((before ++ l :: ls).map Lexeme.chars) before.length =
        Text.size (before.flatMap Lexeme.chars) := by
      have h := seam_append_right (before.map Lexeme.chars) (l.chars :: ls.map Lexeme.chars) 0
      rwa [List.length_map, Nat.add_zero, seam_zero, Nat.add_zero, hflat, ← hpieces] at h
    have hstop : seam ((before ++ l :: ls).map Lexeme.chars) (before.length + 1) =
        Text.size (before.flatMap Lexeme.chars) + l.size := by
      have h := seam_append_right (before.map Lexeme.chars) (l.chars :: ls.map Lexeme.chars) 1
      rwa [List.length_map, seam_succ, seam_zero, Nat.add_zero, hflat, ← hpieces] at h
    have hrest := ih (before ++ [l])
    rw [List.append_assoc, List.singleton_append, List.length_append, List.length_singleton,
      List.flatMap_append, Text.size_append, List.flatMap_singleton] at hrest
    rw [List.map_cons, tile, List.map_cons, tile]
    refine congrArg₂ List.cons ?_ hrest
    show (⟨l.kind, _, seam _ (before.length + 1)⟩ : Token) = ⟨l.kind, _, _⟩
    rw [hstop, ← hstart]
    rfl

end Lexeme

open Lexeme

/-- The tokens of a text are those of its lexemes by number, laid out by their seams. -/
theorem lex_eq_moved (text : String) :
    lex text = (tile 0 ((ofText text).map unit) ++
        [(⟨.endOfFile, .point (ofText text).length⟩ : Token)]).map
      (Token.moved (seam ((ofText text).map Lexeme.chars))) := by
  have htile := tile_units_moved (ofText text) []
  rw [List.nil_append, List.length_nil] at htile
  have hend : seam ((ofText text).map Lexeme.chars) (ofText text).length =
      Text.byteLength text := by
    have h := seam_length ((ofText text).map Lexeme.chars)
    rwa [List.length_map, ← List.flatMap_def, flatMap_chars_ofText, String.ofList_toList] at h
  rw [lex_eq_tile, List.map_append, htile, List.map_singleton, ← hend]
  rfl

namespace SyntaxTree

/-- The leaves tile the text, and every node is tiled by its children. -/
structure Tiled (t : SyntaxTree) : Prop where
  leaves : Consecutive 0 (Text.byteLength t.text) t.leaves
  spelled : String.join (t.leaves.map fun token => token.text t.text) = t.text
  children : ∀ id, t.children id ≠ [] →
    Span.Tiles (t.span id).start (t.span id).stop ((t.children id).map t.span)

/-- The tree over the numbers of pieces laid out over the pieces. -/
def laidOver (u : SyntaxTree) (pieces : List (List Char)) : SyntaxTree :=
  ⟨String.ofList pieces.flatten, u.nodes.map (Node.moved (seam pieces)), u.root⟩

/-- The leaves are the numbers below `count`, one after the other. -/
structure Ruled (u : SyntaxTree) (count : Nat) : Prop where
  leaves : u.leaves.map Token.span = (List.range count).map fun i => ⟨i, i + 1⟩
  bounded : ∀ node ∈ u.nodes, node.span.Straight ∧ node.span.stop ≤ count
  reached : ∀ id < u.size, id ∈ u.preorder u.root
  children : ∀ id, u.children id ≠ [] →
    Span.Tiles (u.span id).start (u.span id).stop ((u.children id).map u.span)

variable {u : SyntaxTree} {pieces : List (List Char)} {id : NodeId} {count i : Nat}

theorem span_laidOver (u : SyntaxTree) (pieces : List (List Char)) (id : NodeId) :
    (u.laidOver pieces).span id = (u.span id).moved (seam pieces) := by
  simp only [span, laidOver, Array.getElem?_map, Option.map_map]
  cases u.nodes[id]? with
  | none => rfl
  | some node => rfl

theorem sameShape_laidOver (u : SyntaxTree) (pieces : List (List Char)) :
    SameShape u (u.laidOver pieces) :=
  sameShape_moved u _ _ u.root

theorem SameShape.workList {t u : SyntaxTree} (h : SameShape t u) : u.workList = t.workList := by
  funext bound
  induction bound with
  | zero => rfl
  | succ bound ih =>
    funext ids
    cases ids with
    | nil => rfl
    | cons id rest => rw [SyntaxTree.workList, SyntaxTree.workList, ih, h.children]

theorem SameShape.isToken {t u : SyntaxTree} (h : SameShape t u) : u.isToken = t.isToken := by
  funext id
  rw [SyntaxTree.isToken, SyntaxTree.tokenKind?, h.kind?, SyntaxTree.isToken,
    SyntaxTree.tokenKind?]

theorem leaves_laidOver (u : SyntaxTree) (pieces : List (List Char)) :
    (u.laidOver pieces).leaves = u.leaves.map (Token.moved (seam pieces)) := by
  have hpreorder : (u.laidOver pieces).preorder = u.preorder := by
    funext id
    rw [preorder, (sameShape_laidOver u pieces).workList, preorder, size, size, laidOver,
      Array.size_map]
  have htoken : (u.laidOver pieces).token? = fun id => (u.token? id).map
      (Token.moved (seam pieces)) := by
    funext id
    simp only [token?, laidOver, Array.getElem?_map]
    cases u.nodes[id]? with
    | none => rfl
    | some node =>
      simp only [Option.map_some, Option.bind_some, Option.map_map]
      rfl
  rw [leaves, hpreorder, htoken, leaves, List.map_filterMap]
  rfl

theorem token?_eq (t : SyntaxTree) (id : NodeId) :
    t.token? id = (t.tokenKind? id).map fun kind => ⟨kind, t.span id⟩ := by
  rw [token?, tokenKind?, kind?, span]
  cases t.nodes[id]? with
  | none => rfl
  | some node => rfl

/-- The leaves by their nodes. -/
theorem map_span_leaves (t : SyntaxTree) :
    t.leaves.map Token.span = ((t.preorder t.root).filter t.isToken).map t.span := by
  rw [leaves]
  induction t.preorder t.root with
  | nil => rfl
  | cons id ids ih =>
    rw [List.filterMap_cons, token?_eq, List.filter_cons, isToken]
    cases t.tokenKind? id with
    | none => exact ih
    | some kind => exact congrArg (t.span id :: ·) ih

namespace Ruled

theorem mem_leaves (hu : u.Ruled count) (h : u.isToken id = true) :
    id ∈ (u.preorder u.root).filter u.isToken :=
  List.mem_filter.mpr ⟨hu.reached id (lt_size_of_isToken h), h⟩

/-- A leaf is one number. -/
theorem exists_span (hu : u.Ruled count) (h : u.isToken id = true) :
    ∃ i < count, u.span id = ⟨i, i + 1⟩ := by
  have hmem : u.span id ∈ u.leaves.map Token.span := by
    rw [map_span_leaves]
    exact List.mem_map_of_mem (hu.mem_leaves h)
  rw [hu.leaves] at hmem
  obtain ⟨i, hi, hspan⟩ := List.mem_map.mp hmem
  exact ⟨i, List.mem_range.mp hi, hspan.symm⟩

/-- No two leaves are one number. -/
theorem eq_of_span (hu : u.Ruled count) {other : NodeId} (h : u.isToken id = true)
    (hother : u.isToken other = true) (hspan : u.span id = u.span other) : id = other := by
  have hnodup : (u.leaves.map Token.span).Nodup := by
    rw [hu.leaves]
    exact List.nodup_range.map fun i j hij => congrArg Span.start hij
  rw [map_span_leaves] at hnodup
  exact List.inj_on_of_nodup_map hnodup (hu.mem_leaves h) (hu.mem_leaves hother) hspan

/-- The text of a leaf is its piece. -/
theorem textOf_laidOver (hspan : u.span id = ⟨i, i + 1⟩) {piece : List Char}
    (hpiece : pieces[i]? = some piece) : (u.laidOver pieces).textOf id = String.ofList piece := by
  rw [textOf, span_laidOver, hspan]
  exact slice_seam hpiece

/-- The texts of the leaves are the pieces. -/
theorem map_text_leaves (hu : u.Ruled pieces.length) :
    (u.laidOver pieces).leaves.map (fun token => token.text (u.laidOver pieces).text) =
      pieces.map String.ofList := by
  have hslices := congrArg (List.map fun s =>
    Text.slice (String.ofList pieces.flatten) (s.moved (seam pieces))) hu.leaves
  rw [List.map_map, List.map_map] at hslices
  rw [leaves_laidOver, List.map_map]
  refine hslices.trans (List.ext_getElem? fun i => ?_)
  rw [List.getElem?_map, List.getElem?_map]
  cases hpiece : pieces[i]? with
  | none =>
    have hlength := List.getElem?_eq_none_iff.mp hpiece
    rw [List.getElem?_eq_none (by simpa using hlength)]
    rfl
  | some piece =>
    rw [List.getElem?_range (List.getElem?_eq_some_iff.mp hpiece).1]
    exact congrArg some (slice_seam hpiece)

theorem tiled (hu : u.Ruled pieces.length) : (u.laidOver pieces).Tiled where
  leaves := by
    have hleaves := (Span.Tiles.range' pieces.length 0).moved fun j k => seam_mono pieces
    rw [← List.range_eq_range', ← hu.leaves, seam_zero, Nat.zero_add, seam_length,
      List.map_map] at hleaves
    rw [consecutive_iff_tiles, leaves_laidOver, List.map_map]
    exact hleaves
  spelled := by
    rw [hu.map_text_leaves, ← String.toList_inj, String.toList_join, List.flatMap_map]
    simp [laidOver, List.flatMap_def]
  children id hid := by
    rw [(sameShape_laidOver u pieces).children] at hid ⊢
    have htiles := (hu.children id hid).moved fun j k => seam_mono pieces
    rw [List.map_map] at htiles
    rw [span_laidOver, show (u.laidOver pieces).span = fun c => (u.span c).moved (seam pieces) from
      funext (span_laidOver u pieces)]
    exact htiles

end Ruled

/-! ### Trees of a text -/

/-- A tree over moved tokens is moved. -/
theorem exists_of_build_moved {text text' : String} {tokens : List Token} {events : List Event}
    {t : SyntaxTree} {f : Nat → Nat} (hsize : Text.byteLength text' = f (Text.byteLength text))
    (h : build text' (tokens.map (Token.moved f)) events = .ok t) :
    ∃ u, build text tokens events = .ok u ∧ t = ⟨text', u.nodes.map (Node.moved f), u.root⟩ := by
  obtain ⟨b', r', hrun, hresult, rfl⟩ := build_eq_ok_iff.mp h
  rw [hsize] at hrun
  have hmoved := (Builder.run_moved f (Text.byteLength text) events 0 []
    ⟨0, tokens, [], []⟩).symm.trans hrun
  cases hrun' : Builder.run (Text.byteLength text) 0 [] ⟨0, tokens, [], []⟩ events with
  | error e => rw [hrun'] at hmoved; cases hmoved
  | ok b =>
    rw [hrun'] at hmoved
    obtain rfl := Except.ok.inj hmoved
    rw [Builder.result_moved] at hresult
    cases hresult' : b.result with
    | error e => rw [hresult'] at hresult; cases hresult
    | ok r =>
      rw [hresult'] at hresult
      obtain rfl := Except.ok.inj hresult
      exact ⟨ofRose text r, build_eq_ok_iff.mpr ⟨b, r, hrun', hresult', rfl⟩,
        ofRose_moved f text text' r⟩

/-- The leaves of what is laid out are the tokens of the log. -/
theorem leaves_of_laid {K : NodeKind → Prop} {text : String} {stop : Nat} {r : Rose Extent}
    {log : List (Option Token)} (h : Laid K false 0 stop log r)
    (hK : ∀ kind, K kind → kind.tokenKind? = none) :
    (ofRose text r).leaves = log.reduceOption := by
  have hheld : heldIn log = (ofRose text r).token? := funext (heldIn_eq_token? h hK)
  rw [leaves, ← hheld, preorder_ofRose, h.filterMap_held (heldFrom_heldIn log)]

/-- A tree over lexemes of one byte whose leaves are all of them is over their numbers. -/
theorem ruled_of_build {text : String} {ls : List Lexeme} {events : List Event} {u : SyntaxTree}
    (hsize : Text.byteLength text = ls.length)
    (hkinds : ∀ kind outer, .start kind outer ∈ events → kind.tokenKind? = none)
    (h : build text (tile 0 (ls.map unit) ++ [⟨.endOfFile, .point ls.length⟩]) events = .ok u)
    (hleaves : u.leaves.length = ls.length) : u.Ruled ls.length := by
  have htile := consecutive_tile (ls.map unit) 0
  rw [size_units, Nat.zero_add] at htile
  have htokens : Consecutive 0 (Text.byteLength text)
      (tile 0 (ls.map unit) ++ [(⟨.endOfFile, .point ls.length⟩ : Token)]) :=
    consecutive_append.mpr ⟨_, htile, rfl, Nat.le_refl _, hsize.symm⟩
  obtain ⟨r, stop, log, rfl, hlaid, hlog⟩ := build_laid htokens h
  have hread : (ofRose text r).leaves = log.reduceOption :=
    leaves_of_laid hlaid fun kind ⟨outer, hmem⟩ => hkinds kind outer hmem
  have hlength : (tile 0 (ls.map unit)).length = ls.length := by
    rw [length_tile, List.length_map]
  have hunits : log.reduceOption = tile 0 (ls.map unit) := by
    rw [List.prefix_iff_eq_take.mp hlog, ← hread, hleaves, ← hlength, List.take_left]
  have hstop : stop = ls.length := (hunits ▸ hlaid.consecutive).last_eq htile
  refine ⟨?_, ?_, ?_, ?_⟩
  · rw [hread, hunits, map_span_tile_units, List.range_eq_range']
  · intro node hnode
    obtain ⟨-, hstraight, hend⟩ := hlaid.bounds _ (mem_nodes_ofRose hnode)
    exact ⟨hstraight, hstop ▸ hend⟩
  · intro id hid
    obtain ⟨m, parent, hm, rfl, -⟩ := exists_within hid
    rw [preorder_ofRose]
    exact List.mem_map_of_mem hm.mem_preorder
  · exact fun id hid => tiles_children_of_laid hlaid hid

end SyntaxTree

mutual
theorem Outline.Plain.of_mem_eventsThen {kind : NodeKind} {outer : Option Nat}
    {rest : List Event} : (o : Outline) → o.Plain → .start kind outer ∈ o.eventsThen rest →
      kind.tokenKind? = none ∨ .start kind outer ∈ rest
  | .token _, _, h => by
    rcases List.mem_cons.mp h with h | h
    · cases h
    · exact .inr h
  | .node k os, ⟨hk, hos⟩, h => by
    rcases List.mem_cons.mp h with h | h
    · cases h
      exact .inl hk
    · rcases Outline.Plain.of_mem_forestEventsThen os hos h with h | h
      · exact .inl h
      · rcases List.mem_cons.mp h with h | h
        · cases h
        · exact .inr h

/-- The events of an outline start its nodes only. -/
theorem Outline.Plain.of_mem_forestEventsThen {kind : NodeKind} {outer : Option Nat}
    {rest : List Event} : (os : List Outline) → Outline.ForestPlain os →
      .start kind outer ∈ Outline.forestEventsThen rest os →
      kind.tokenKind? = none ∨ .start kind outer ∈ rest
  | [], _, h => .inr h
  | o :: os, ⟨ho, hos⟩, h => by
    rcases Outline.Plain.of_mem_eventsThen o ho h with h | h
    · exact .inl h
    · exact Outline.Plain.of_mem_forestEventsThen os hos h
end

/-- The tree of a text is a tree over the numbers of its lexemes. -/
theorem exists_over_of_parse {text : String} {limit : Nat} {p : Parse}
    (h : parse text limit = .ok p) : ∃ u : SyntaxTree,
      u.Ruled (ofText text).length ∧ p.tree = u.laidOver ((ofText text).map Lexeme.chars) := by
  obtain ⟨os, more, hfound⟩ := Grammar.found (lex text)
  have hbuild := (parseTokens_eq_ok hfound h).1
  have hfile : NodeKind.file.tokenKind? = none := rfl
  have hleaves : p.tree.leaves = tile 0 (ofText text) := by
    obtain ⟨t, ht, -, hleaves⟩ :=
      SyntaxTree.build_leaves text hfile hfound.plain hfound.significant hfound.inside
    obtain rfl := Except.ok.inj (ht.symm.trans hbuild)
    rw [hleaves, takeWhile_lex]
  have htext : String.ofList ((ofText text).map Lexeme.chars).flatten = text := by
    rw [← List.flatMap_def, flatMap_chars_ofText, String.ofList_toList]
  have hunits : Text.byteLength
      (String.ofList (((ofText text).map unit).flatMap Lexeme.chars)) = (ofText text).length := by
    rw [← Text.size_eq_byteLength, size_units]
  have hlength := seam_length ((ofText text).map Lexeme.chars)
  rw [htext, List.length_map] at hlength
  rw [lex_eq_moved text] at hbuild
  obtain ⟨u, hu, htree⟩ :=
    SyntaxTree.exists_of_build_moved (hunits.symm ▸ hlength.symm) hbuild
  have hover : p.tree = u.laidOver ((ofText text).map Lexeme.chars) := by
    rw [htree, SyntaxTree.laidOver, htext]
  refine ⟨u, SyntaxTree.ruled_of_build hunits (fun kind outer hmem => ?_) hu ?_, hover⟩
  · have hstart := Outline.Plain.of_mem_eventsThen (.node .file os) ⟨hfile, hfound.plain⟩ hmem
    simpa using hstart
  · have hcount := congrArg List.length hleaves
    rw [hover, SyntaxTree.leaves_laidOver, List.length_map, length_tile] at hcount
    exact hcount

end RSource
