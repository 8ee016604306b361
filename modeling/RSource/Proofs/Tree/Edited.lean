import RSource.Proofs.Lexeme.Tiling
import RSource.Proofs.Tree.Moved
import RSource.Tree.Basic

/-! Trees after an edit.  Replacing the text of a leaf moves every offset of the tree by one map, and
the same map takes the tokens of the text to those of the edited text. -/

namespace RSource

namespace Span

variable {edit s : Span} {n x : Nat}

/-- Where an offset lands once `n` bytes stand in place of those of `edit`. -/
def land (edit : Span) (n x : Nat) : Nat := if edit.stop ≤ x then shift edit n x else x

theorem land_of_lt (h : x < edit.stop) : land edit n x = x := if_neg (by omega)

theorem land_of_le (h : edit.stop ≤ x) (hsize : x - edit.length + n ≤ maxOffset) :
    land edit n x = x - edit.length + n := by
  have hlength : edit.length ≤ x := by
    rw [length]
    omega
  have hmoved : (x : Int) - edit.length + n = ((x - edit.length + n : Nat) : Int) := by omega
  have hsize' : ((x - edit.length + n : Nat) : Int) ≤ (maxOffset : Int) := by omega
  rw [land, if_pos h]
  show (if (x : Int) - edit.length + n ≤ maxOffset then _ else _) = _
  rw [hmoved, if_pos hsize', Int.toNat_natCast]

/-- A span that does not end before it starts is moved by both ends. -/
theorem adjustForEdit_eq_moved (h : s.Straight) (edit : Span) (n : Nat) :
    s.adjustForEdit edit n = s.moved (land edit n) := by
  have hle : s.start ≤ s.stop := h
  unfold adjustForEdit moved land
  by_cases hstart : edit.stop ≤ s.start
  · rw [if_pos hstart, if_pos hstart, if_pos (by omega)]
  · by_cases hstop : edit.stop ≤ s.stop
    · rw [if_neg hstart, if_pos hstop, if_neg hstart, if_pos hstop]
    · rw [if_neg hstart, if_neg hstop, if_neg hstart, if_neg hstop]

end Span

namespace SyntaxTree

/-- What a tree is after an edit. -/
theorem replaceTokenText_eq_ok {t edited : SyntaxTree} {leaf : NodeId} {part : String}
    (h : t.replaceTokenText leaf part = .ok edited)
    (hstraight : ∀ node ∈ t.nodes, node.span.Straight) :
    Text.byteLength t.text - (t.span leaf).length + Text.byteLength part ≤ maxOffset ∧
      edited = ⟨Text.splice t.text (t.span leaf) part,
        t.nodes.map (Node.moved ((t.span leaf).land (Text.byteLength part))), t.root⟩ := by
  rw [replaceTokenText] at h
  split at h
  · cases h
  simp only at h
  split at h
  · cases h
  · next hsize =>
    refine ⟨by omega, ?_⟩
    rw [← Except.ok.inj h]
    congr 1
    refine Array.map_congr_left fun node hnode => ?_
    rw [Span.adjustForEdit_eq_moved (hstraight node hnode)]
    rfl

end SyntaxTree

namespace Lexeme

variable {ls before after : List Lexeme} {l : Lexeme} {f : Nat → Nat}

@[simp] theorem length_span_tokenAt (offset : Nat) (l : Lexeme) :
    (l.tokenAt offset).span.length = l.size :=
  Nat.add_sub_cancel_left _ _

/-- Lexemes laid elsewhere. -/
theorem tile_moved (ls : List Lexeme) : ∀ offset offset' : Nat,
    (∀ x ≤ Text.size (ls.flatMap Lexeme.chars), f (offset + x) = offset' + x) →
    (tile offset ls).map (Token.moved f) = tile offset' ls := by
  induction ls with
  | nil => intro _ _ _; rfl
  | cons l ls ih =>
    intro offset offset' h
    rw [List.flatMap_cons, Text.size_append] at h
    have hstart : f offset = offset' := h 0 (by omega)
    have hstop : f (offset + l.size) = offset' + l.size := h l.size (Nat.le_add_right _ _)
    have hrest := ih (offset + l.size) (offset' + l.size) fun x hx => by
      rw [Nat.add_assoc, h (l.size + x) (by unfold size; omega), Nat.add_assoc]
    rw [tile, List.map_cons, hrest, tile]
    show (⟨l.kind, f offset, f (offset + l.size)⟩ : Token) :: _ = _
    rw [hstart, hstop]
    rfl

/-- The tokens of lexemes stand in order, and so do others after them. -/
theorem inOrder_tile {rest : List Span} (hrest : InOrder rest) (ls : List Lexeme) :
    ∀ offset : Nat, (∀ s ∈ rest, offset + Text.size (ls.flatMap Lexeme.chars) ≤ s.start) →
    InOrder ((tile offset ls).map Token.span ++ rest) ∧
      ∀ s ∈ (tile offset ls).map Token.span ++ rest, offset ≤ s.start := by
  induction ls with
  | nil => exact fun offset h => ⟨hrest, by simpa [tile] using h⟩
  | cons l ls ih =>
    intro offset h
    rw [List.flatMap_cons, Text.size_append] at h
    obtain ⟨⟨hpairs, hstraight⟩, hstarts⟩ := ih (offset + l.size) fun s hs => by
      have := h s hs
      unfold size
      omega
    rw [tile, List.map_cons, List.cons_append]
    refine ⟨⟨List.pairwise_cons.mpr ⟨hstarts, hpairs⟩, ?_⟩, ?_⟩
    · exact List.forall_mem_cons.mpr ⟨Nat.le_add_right _ _, hstraight⟩
    · exact List.forall_mem_cons.mpr ⟨Nat.le_refl _, fun s hs =>
        Nat.le_trans (Nat.le_add_right _ _) (hstarts s hs)⟩

end Lexeme

open Lexeme

/-- The tokens of a text stand in order. -/
theorem inOrder_lex (text : String) :
    InOrder ((lex text).map Token.span ++ [.point (Text.byteLength text)]) := by
  have hend : InOrder [Span.point (Text.byteLength text), .point (Text.byteLength text)] := by
    simp [InOrder, Span.Before, Span.Straight, Span.point]
  have htile := (inOrder_tile hend (ofText text) 0 fun s hs => by
    rw [flatMap_chars_ofText, Text.size_toList]
    simp only [List.mem_cons, List.not_mem_nil, or_false, or_self] at hs
    rw [hs]
    show 0 + Text.byteLength text ≤ Text.byteLength text
    omega).1
  rw [lex_eq_tile, List.map_append, List.append_assoc]
  exact htile

theorem byteLength_of_ofText {text : String} {before after : List Lexeme} {l : Lexeme}
    (h : ofText text = before ++ l :: after) :
    Text.byteLength text = Text.size (before.flatMap Lexeme.chars) + l.size +
      Text.size (after.flatMap Lexeme.chars) := by
  rw [← Text.size_toList, ← flatMap_chars_ofText, h, List.flatMap_append, List.flatMap_cons,
    Text.size_append, Text.size_append, ← Nat.add_assoc]
  rfl

/-- The tokens of a text in which one lexeme has other characters are the old ones, moved. -/
theorem lex_edited {text text' : String} {before after : List Lexeme} {l : Lexeme}
    {new : List Char} {start : Nat} (hstart : start = Text.size (before.flatMap Lexeme.chars))
    (h : ofText text = before ++ l :: after)
    (h' : ofText text' = before ++ ⟨l.kind, new⟩ :: after)
    (hsize : Text.byteLength text - l.size + Text.size new ≤ maxOffset) :
    lex text' =
        (lex text).map (Token.moved ((l.tokenAt start).span.land (Text.size new))) ∧
      Text.byteLength text' =
        (l.tokenAt start).span.land (Text.size new) (Text.byteLength text) := by
  have hmem : l ∈ ofText text := by simp [h]
  have hpos : 0 < l.size := Text.size_pos (chars_ne_nil_of_mem_ofText hmem)
  have hlength := byteLength_of_ofText h
  have hlength' : Text.byteLength text' =
      _ + Text.size new + Text.size (after.flatMap Lexeme.chars) := byteLength_of_ofText h'
  rw [← hstart] at hlength hlength'
  have hedit := length_span_tokenAt start l
  generalize hf : (l.tokenAt start).span.land (Text.size new) = f
  have hbefore : ∀ x ≤ start, f x = x := by
    intro x hx
    rw [← hf]
    refine Span.land_of_lt ?_
    show x < start + l.size
    omega
  have hafter : ∀ x ≤ Text.size (after.flatMap Lexeme.chars),
      f (start + l.size + x) = start + Text.size new + x := by
    intro x hx
    have hle : (l.tokenAt start).span.stop ≤ start + l.size + x := Nat.le_add_right _ _
    rw [← hf, Span.land_of_le hle (by rw [hedit]; omega), hedit]
    omega
  have hend : Text.byteLength text' = f (Text.byteLength text) := by
    rw [hlength', hlength, hafter _ (Nat.le_refl _)]
  have hfirst : (tile 0 before).map (Token.moved f) = tile 0 before :=
    tile_moved before 0 0 fun x hx => hbefore _ (by omega)
  have htoken : (l.tokenAt start).moved f = (⟨l.kind, new⟩ : Lexeme).tokenAt start := by
    show (⟨l.kind, f start, f (start + l.size)⟩ : Token) = ⟨l.kind, start, start + Text.size new⟩
    rw [hbefore start (Nat.le_refl _), ← Nat.add_zero (start + l.size), hafter 0 (Nat.zero_le _)]
    rfl
  have hlast : (tile (start + l.size) after).map (Token.moved f) =
      tile (start + Text.size new) after := tile_moved after _ _ hafter
  have hpoint : Token.moved f ⟨.endOfFile, .point (Text.byteLength text)⟩ =
      ⟨.endOfFile, .point (Text.byteLength text')⟩ := by
    rw [hend]
    rfl
  refine ⟨?_, hend⟩
  rw [lex_eq_tile, lex_eq_tile, h, h', tile_append, tile_append, tile, tile, Nat.zero_add,
    ← hstart, List.map_append, List.map_append, List.map_cons, hfirst, htoken, hlast,
    List.map_singleton, hpoint]
  rfl

end RSource
