import RSource.Proofs.Except
import RSource.Proofs.Tree.Tiled

/-! Runs of edits.  Each call of `replaceTokenText` that does not put a text into an empty leaf
changes one piece of the text and nothing else, and so does a run of them.  A text that is put into
an empty leaf is not the text of that leaf: the leaf moves behind it. -/

namespace RSource

namespace Span

variable {a p n x : Nat}

theorem land_before (h : x < a + p) : land ⟨a, a + p⟩ n x = x := land_of_lt h

theorem land_behind (hsize : a + n + x ≤ maxOffset) :
    land ⟨a, a + p⟩ n (a + p + x) = a + n + x := by
  have hlength : length ⟨a, a + p⟩ = p := Nat.add_sub_cancel_left a p
  have hle : (⟨a, a + p⟩ : Span).stop ≤ a + p + x := Nat.le_add_right _ _
  have hmoved : a + p + x - p + n = a + n + x := by omega
  rw [land_of_le hle (by rw [hlength, hmoved]; exact hsize), hlength, hmoved]

end Span

namespace Text

variable {pieces : List (List Char)} {piece new : List Char} {i k : Nat}

/-- The seams of a text land on those of the text with a piece replaced, unless an empty piece is
filled. -/
theorem land_seam (h : pieces[i]? = some piece) (hspare : piece ≠ [] ∨ new = [])
    (hk : k ≤ pieces.length)
    (hsize : byteLength (String.ofList pieces.flatten) - size piece + size new ≤ maxOffset) :
    Span.land ⟨seam pieces i, seam pieces (i + 1)⟩ (size new) (seam pieces k) =
      seam (pieces.set i new) k := by
  have hend := seam_mono pieces hk
  rw [← seam_length] at hsize
  obtain ⟨before, after, rfl, rfl, hstart, hstop⟩ := exists_split_of_getElem? h
  have hset : (before ++ piece :: after).set before.length new = before ++ new :: after := by
    rw [List.set_append_right _ _ (Nat.le_refl _), Nat.sub_self, List.set_cons_zero]
  rw [hset, hstart, hstop]
  rcases Nat.lt_or_ge before.length k with hlt | hle
  · -- The seam is behind the piece.
    obtain ⟨m, rfl⟩ := Nat.exists_eq_add_of_le hlt
    have hseam : ∀ p : List Char, seam (before ++ p :: after) (before.length + 1 + m) =
        size before.flatten + size p + seam after m := fun p => by
      rw [Nat.add_assoc, Nat.add_comm 1 m, seam_append_right, seam_succ, Nat.add_assoc]
    rw [Nat.succ_eq_add_one, hseam] at hend
    rw [Nat.succ_eq_add_one, hseam, hseam]
    exact Span.land_behind (by omega)
  · -- The seam is that of the piece or before it, where it stays.
    rw [seam_append_left _ _ hle, seam_append_left _ _ hle]
    have hbefore : seam before k ≤ size before.flatten := by
      have hwhole := seam_mono before hle
      rwa [seam_length, ← size_eq_byteLength] at hwhole
    rcases Nat.lt_or_ge (seam before k) (size before.flatten + size piece) with hlt | hge
    · exact Span.land_before hlt
    · -- Only an empty piece does not end behind its own seam.
      have hempty : size piece = 0 := by omega
      have hnew : new = [] := hspare.resolve_left fun hne => (size_pos hne).ne' hempty
      have hseam : seam before k = size before.flatten + size piece + 0 := by omega
      have hsize' : size before.flatten + size new + 0 ≤ maxOffset := by
        rw [seam_append_left _ _ hle] at hend
        rw [hnew, size_nil] at hsize ⊢
        omega
      rw [hseam, Span.land_behind hsize', hnew, hempty, size_nil]

end Text

namespace SyntaxTree

open Text Lexeme

variable {u t' : SyntaxTree} {pieces : List (List Char)} {piece : List Char} {leaf : NodeId}
  {part : String} {i : Nat}

theorem Ruled.straight_laidOver (hu : u.Ruled pieces.length) :
    ∀ node ∈ (u.laidOver pieces).nodes, node.span.Straight := by
  intro node hnode
  obtain ⟨node', hnode', rfl⟩ := Array.mem_map.mp hnode
  exact seam_mono pieces (hu.bounded node' hnode').1

/-- An edit replaces one piece. -/
theorem Ruled.replaceTokenText_laidOver (hu : u.Ruled pieces.length)
    (hspan : u.span leaf = ⟨i, i + 1⟩)
    (hpiece : pieces[i]? = some piece) (hspare : piece ≠ [] ∨ part = "")
    (h : (u.laidOver pieces).replaceTokenText leaf part = .ok t') :
    t' = u.laidOver (pieces.set i part.toList) := by
  obtain ⟨hsize, rfl⟩ := replaceTokenText_eq_ok h hu.straight_laidOver
  have hedit : (u.laidOver pieces).span leaf = ⟨seam pieces i, seam pieces (i + 1)⟩ := by
    rw [span_laidOver, hspan]
    rfl
  have hlength : Span.length ⟨seam pieces i, seam pieces (i + 1)⟩ = Text.size piece := by
    obtain ⟨before, after, -, -, hstart, hstop⟩ := exists_split_of_getElem? hpiece
    rw [Span.length, hstart, hstop]
    exact Nat.add_sub_cancel_left _ _
  rw [hedit, hlength, ← size_toList part] at hsize
  have hland : ∀ k ≤ pieces.length,
      Span.land ⟨seam pieces i, seam pieces (i + 1)⟩ (byteLength part) (seam pieces k) =
        seam (pieces.set i part.toList) k := fun k hk => by
    rw [← size_toList part]
    exact land_seam hpiece (hspare.imp_right fun hpart => by rw [hpart]; rfl) hk hsize
  rw [hedit, laidOver, laidOver, splice_seam hpiece, Array.map_map]
  refine congrArg (SyntaxTree.mk _ · _) (Array.map_congr_left fun node hnode => ?_)
  obtain ⟨hstraight, hstop⟩ := hu.bounded node hnode
  exact congrArg (fun s => { node with span := s })
    (congrArg₂ Span.mk (hland _ (Nat.le_trans hstraight hstop)) (hland _ hstop))

/-! ### Runs -/

/-- A call of `replaceTokenText`. -/
structure LeafEdit where
  leaf : NodeId
  text : String

/-- The tree after a call, which leaves the tree when it is refused. -/
def replace (t : SyntaxTree) (e : LeafEdit) : SyntaxTree :=
  (t.replaceTokenText e.leaf e.text).toOption.getD t

/-- The tree after one call after the other. -/
def replaceAll (t : SyntaxTree) (es : List LeafEdit) : SyntaxTree := es.foldl replace t

/-- The call is not refused and puts a text into an empty leaf. -/
def Fills (t : SyntaxTree) (e : LeafEdit) : Prop :=
  (t.replaceTokenText e.leaf e.text).isOk = true ∧ (t.span e.leaf).isEmpty = true ∧ e.text ≠ ""

/-- No call of a run puts a text into a leaf that is empty at that time. -/
def NeverFills (t : SyntaxTree) : List LeafEdit → Prop
  | [] => True
  | e :: es => ¬t.Fills e ∧ (t.replace e).NeverFills es

instance (t : SyntaxTree) (e : LeafEdit) : Decidable (t.Fills e) :=
  inferInstanceAs (Decidable (_ ∧ _ ∧ _))

/-- Whether a run fills an empty leaf is decided by following it. -/
instance decidableNeverFills : (t : SyntaxTree) → (es : List LeafEdit) →
    Decidable (t.NeverFills es)
  | _, [] => .isTrue trivial
  | t, e :: es =>
    have := decidableNeverFills (t.replace e) es
    inferInstanceAs (Decidable (_ ∧ _))

theorem isToken_of_replaceTokenText (h : u.replaceTokenText leaf part = .ok t') :
    u.isToken leaf = true := by
  rw [replaceTokenText] at h
  split at h
  · cases h
  · next hleaf => simpa using hleaf

/-- The number of an edited leaf and what is known of its piece. -/
theorem Ruled.exists_piece (hu : u.Ruled pieces.length) (h : u.isToken leaf = true) :
    ∃ i piece, u.span leaf = ⟨i, i + 1⟩ ∧ pieces[i]? = some piece ∧
      (piece = [] ↔ ((u.laidOver pieces).span leaf).isEmpty = true) := by
  obtain ⟨i, hi, hspan⟩ := hu.exists_span h
  obtain ⟨before, after, -, -, hstart, hstop⟩ :=
    exists_split_of_getElem? (List.getElem?_eq_getElem hi)
  refine ⟨i, pieces[i], hspan, List.getElem?_eq_getElem hi, ?_⟩
  rw [span_laidOver, hspan, Span.isEmpty, beq_iff_eq]
  show _ ↔ seam pieces i = seam pieces (i + 1)
  rw [hstart, hstop]
  constructor
  · intro h
    rw [h]
    rfl
  · intro h
    by_contra hne
    have := size_pos hne
    omega

/-- A call that fills no empty leaf replaces the piece of its leaf. -/
theorem Ruled.eq_laidOver (hu : u.Ruled pieces.length) {e : LeafEdit}
    (h : (u.laidOver pieces).replaceTokenText e.leaf e.text = .ok t')
    (hfill : ¬(u.laidOver pieces).Fills e) :
    ∃ i < pieces.length, u.span e.leaf = ⟨i, i + 1⟩ ∧
      t' = u.laidOver (pieces.set i e.text.toList) := by
  have htoken := isToken_of_replaceTokenText h
  rw [(sameShape_laidOver u pieces).isToken] at htoken
  obtain ⟨i, piece, hspan, hpiece, hempty⟩ := hu.exists_piece htoken
  have hspare : piece ≠ [] ∨ e.text = "" := by
    by_contra hboth
    rw [not_or, not_not] at hboth
    exact hfill ⟨by rw [h]; rfl, hempty.mp hboth.1, hboth.2⟩
  exact ⟨i, (List.getElem?_eq_some_iff.mp hpiece).1, hspan,
    hu.replaceTokenText_laidOver hspan hpiece hspare h⟩

theorem Ruled.replace_laidOver (hu : u.Ruled pieces.length) {e : LeafEdit}
    (h : ¬(u.laidOver pieces).Fills e) :
    ∃ pieces', pieces'.length = pieces.length ∧
      (u.laidOver pieces).replace e = u.laidOver pieces' := by
  rw [replace]
  cases hcall : (u.laidOver pieces).replaceTokenText e.leaf e.text with
  | error _ => exact ⟨pieces, rfl, rfl⟩
  | ok t' =>
    obtain ⟨i, -, -, rfl⟩ := hu.eq_laidOver hcall h
    exact ⟨_, List.length_set, rfl⟩

/-- A run of calls leaves the tree over the numbers. -/
theorem Ruled.replaceAll_laidOver (hu : u.Ruled pieces.length) (es : List LeafEdit)
    (h : (u.laidOver pieces).NeverFills es) :
    ∃ pieces', pieces'.length = pieces.length ∧
      (u.laidOver pieces).replaceAll es = u.laidOver pieces' := by
  induction es generalizing pieces with
  | nil => exact ⟨pieces, rfl, rfl⟩
  | cons e es ih =>
    obtain ⟨pieces', hlength, hreplace⟩ := hu.replace_laidOver h.1
    have hrest := h.2
    rw [hreplace] at hrest
    obtain ⟨pieces'', hlength', hrun⟩ := ih (hlength.symm ▸ hu) hrest
    refine ⟨pieces'', hlength'.trans hlength, ?_⟩
    rw [← hrun, replaceAll, List.foldl_cons, hreplace]
    rfl

theorem textOf_of_isEmpty {t : SyntaxTree} {id : NodeId} (h : (t.span id).isEmpty = true) :
    t.textOf id = "" := by
  have hends : (t.span id).start = (t.span id).stop := beq_iff_eq.mp h
  rw [textOf, Text.slice, Text.slice?]
  split
  · rw [Option.getD_some, hends, String.Pos.Raw.extract, if_pos (Nat.le_refl _)]
  · rfl

/-- A leaf that is filled stays empty. -/
theorem Ruled.textOf_filled (hu : u.Ruled pieces.length)
    (h : (u.laidOver pieces).replaceTokenText leaf part = .ok t')
    (hempty : ((u.laidOver pieces).span leaf).isEmpty = true) : t'.textOf leaf = "" := by
  obtain ⟨-, rfl⟩ := replaceTokenText_eq_ok h hu.straight_laidOver
  refine textOf_of_isEmpty ?_
  rw [span] at hempty ⊢
  rw [Array.getElem?_map]
  cases hnode : (u.laidOver pieces).nodes[leaf]? with
  | none => rfl
  | some node =>
    rw [hnode] at hempty
    have hends : node.span.start = node.span.stop := beq_iff_eq.mp hempty
    refine beq_iff_eq.mpr ?_
    show Span.land _ _ node.span.start = Span.land _ _ node.span.stop
    rw [hends]

/-- What a call does to the texts of the leaves. -/
theorem Ruled.textOf_replaced (hu : u.Ruled pieces.length) {e : LeafEdit}
    (h : (u.laidOver pieces).replaceTokenText e.leaf e.text = .ok t') :
    (t'.textOf e.leaf = e.text ↔ ¬(u.laidOver pieces).Fills e) ∧
      (¬(u.laidOver pieces).Fills e → ∀ id, u.isToken id = true → id ≠ e.leaf →
        t'.textOf id = (u.laidOver pieces).textOf id) := by
  by_cases hfill : (u.laidOver pieces).Fills e
  · have hnone := hu.textOf_filled h hfill.2.1
    refine ⟨⟨fun htext => absurd (htext.symm.trans hnone) hfill.2.2, fun hnot => absurd hfill hnot⟩,
      fun hnot => absurd hfill hnot⟩
  · have htoken := isToken_of_replaceTokenText h
    rw [(sameShape_laidOver u pieces).isToken] at htoken
    obtain ⟨i, hi, hspan, rfl⟩ := hu.eq_laidOver h hfill
    refine ⟨iff_of_true ?_ hfill, fun _ id hid hne => ?_⟩
    · rw [textOf_laidOver hspan (List.getElem?_set_self hi), String.ofList_toList]
    · obtain ⟨j, hj, hspan'⟩ := hu.exists_span hid
      have hij : i ≠ j := by
        rintro rfl
        exact hne (hu.eq_of_span hid htoken (hspan'.trans hspan.symm))
      have hpiece := List.getElem?_eq_getElem hj
      rw [textOf_laidOver hspan' hpiece,
        textOf_laidOver hspan' ((List.getElem?_set_ne hij).trans hpiece)]

theorem SameShape.symm {t u : SyntaxTree} (h : SameShape t u) : SameShape u t :=
  ⟨h.kind?.symm, h.children.symm, h.parent?.symm⟩

theorem SameShape.trans {t u v : SyntaxTree} (h : SameShape t u) (h' : SameShape u v) :
    SameShape t v :=
  ⟨h'.kind?.trans h.kind?, h'.children.trans h.children, h'.parent?.trans h.parent?⟩

/-- A call on a leaf is accepted as long as the text is not too long. -/
theorem replaceTokenText_isOk {t : SyntaxTree} {e : LeafEdit} (h : t.isToken e.leaf = true)
    (hsize : byteLength t.text - (t.span e.leaf).length + byteLength e.text ≤ maxOffset) :
    ∃ t', t.replaceTokenText e.leaf e.text = .ok t' := by
  rw [replaceTokenText, h, Bool.not_true, if_neg Bool.false_ne_true, if_neg (by omega)]
  exact ⟨_, rfl⟩

end SyntaxTree

open SyntaxTree

/-- After any run of calls that puts no text into an empty leaf, the nodes of a parsed text have
their kinds, parents and children, the leaves tile the text, and the children of each node tile it.
A next call makes its text the text of its leaf if and only if it puts no text into an empty leaf,
and then it leaves the texts of all other leaves. -/
theorem replaceAll_of_parse {text : String} {limit : Nat} {p : Parse}
    (h : parse text limit = .ok p) (es : List LeafEdit) (hes : p.tree.NeverFills es) :
    SameShape p.tree (p.tree.replaceAll es) ∧ (p.tree.replaceAll es).root = p.tree.root ∧
      (p.tree.replaceAll es).size = p.tree.size ∧ (p.tree.replaceAll es).Tiled ∧
      ∀ e : LeafEdit, (p.tree.replaceAll es).isToken e.leaf = true →
        Text.byteLength (p.tree.replaceAll es).text -
            ((p.tree.replaceAll es).span e.leaf).length + Text.byteLength e.text ≤ maxOffset →
        ∃ t', (p.tree.replaceAll es).replaceTokenText e.leaf e.text = .ok t' ∧
          (t'.textOf e.leaf = e.text ↔ ¬(p.tree.replaceAll es).Fills e) ∧
          (¬(p.tree.replaceAll es).Fills e → ∀ id, p.tree.isToken id = true → id ≠ e.leaf →
            t'.textOf id = (p.tree.replaceAll es).textOf id) := by
  obtain ⟨u, hu, htree⟩ := exists_over_of_parse h
  generalize hpieces : (Lexeme.ofText text).map Lexeme.chars = pieces at htree
  have hlength : pieces.length = (Lexeme.ofText text).length := by
    rw [← hpieces, List.length_map]
  rw [htree] at hes ⊢
  obtain ⟨pieces', hlength', hrun⟩ := (hlength.symm ▸ hu).replaceAll_laidOver es hes
  have hu' : u.Ruled pieces'.length := hlength'.trans hlength ▸ hu
  have hshape := (sameShape_laidOver u pieces).symm.trans (sameShape_laidOver u pieces')
  rw [hrun]
  refine ⟨hshape, rfl, ?_, hu'.tiled, fun e htoken hsize => ?_⟩
  · rw [size, size, laidOver, laidOver, Array.size_map, Array.size_map]
  · obtain ⟨t', ht'⟩ := replaceTokenText_isOk htoken hsize
    rw [(sameShape_laidOver u pieces).isToken]
    exact ⟨t', ht', hu'.textOf_replaced ht'⟩

/-- The name is taken away, and so is the operator later; the number is written anew twice. -/
def assignmentEdits : List LeafEdit := [⟨0, ""⟩, ⟨6, "日本"⟩, ⟨3, ""⟩, ⟨0, ""⟩, ⟨6, "2"⟩]

theorem replaceAll_of_parse_assignment : ∃ p, parse "x <- 1" 10 = .ok p ∧
    p.tree.NeverFills assignmentEdits ∧ (p.tree.replaceAll assignmentEdits).text = "  2" ∧
    SameShape p.tree (p.tree.replaceAll assignmentEdits) ∧
    (p.tree.replaceAll assignmentEdits).Tiled := by
  have hrun : (parse "x <- 1" 10).toOption.any (fun p =>
      decide (p.tree.NeverFills assignmentEdits) &&
        (p.tree.replaceAll assignmentEdits).text == "  2") = true := by
    decide +kernel
  obtain ⟨p, hp, hrun⟩ := exists_of_any_toOption hrun
  rw [Bool.and_eq_true, decide_eq_true_iff, beq_iff_eq] at hrun
  obtain ⟨hshape, -, -, htiled, -⟩ := replaceAll_of_parse hp assignmentEdits hrun.1
  exact ⟨p, hp, hrun.1, hrun.2, hshape, htiled⟩

/-- A text that is put into an empty leaf is in no leaf: the name is taken away, and what is written
in its place stands before it. -/
theorem replaceAll_filled : ∃ p, parse "x" 10 = .ok p ∧
    ∃ t, (p.tree.replaceAll [⟨0, ""⟩]).replaceTokenText 0 "y" = .ok t ∧
      t.text = "y" ∧ t.textOf 0 = "" ∧ ¬t.Tiled := by
  have hrun : (parse "x" 10).toOption.any (fun p =>
      ((p.tree.replaceAll [⟨0, ""⟩]).replaceTokenText 0 "y").toOption.any fun t =>
        t.text == "y" && (t.textOf 0 == "" && t.leaves == [⟨.identifier, ⟨1, 1⟩⟩])) = true := by
    decide +kernel
  obtain ⟨p, hp, hrun⟩ := exists_of_any_toOption hrun
  obtain ⟨t, ht, hrun⟩ := exists_of_any_toOption hrun
  rw [Bool.and_eq_true, Bool.and_eq_true, beq_iff_eq, beq_iff_eq, beq_iff_eq] at hrun
  obtain ⟨htext, htextOf, hleaves⟩ := hrun
  refine ⟨p, hp, t, ht, htext, htextOf, fun htiled => ?_⟩
  have hfirst := htiled.leaves
  rw [hleaves] at hfirst
  exact absurd hfirst.1 (by decide)

end RSource
