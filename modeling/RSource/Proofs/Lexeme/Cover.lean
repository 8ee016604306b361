import RSource.Proofs.Lexeme.Tiling
import RSource.Proofs.Token.Consecutive

/-! The tokens of a text cover it: they stand end to end, their ends lie between characters, and only
the end of the file is empty. -/

namespace RSource

namespace Lexeme

variable {ls : List Lexeme} {t : Token}

theorem consecutive_tile (ls : List Lexeme) (offset : Nat) :
    Consecutive offset (offset + Text.size (ls.flatMap Lexeme.chars)) (tile offset ls) := by
  induction ls generalizing offset with
  | nil => rfl
  | cons l ls ih =>
    have hrest := ih (offset + l.size)
    rw [List.flatMap_cons, Text.size_append, ← Nat.add_assoc]
    exact ⟨rfl, Nat.le_add_right _ _, hrest⟩

theorem consecutive_place (offset : Nat) (ls : List Lexeme) :
    Consecutive offset (offset + Text.size (ls.flatMap Lexeme.chars)) (place offset ls) := by
  rw [place_eq_tile, consecutive_append]
  exact ⟨_, consecutive_tile ls offset, rfl, Nat.le_refl _, rfl⟩

theorem lt_of_mem_tile (hne : ∀ l ∈ ls, l.chars ≠ []) {offset : Nat} (h : t ∈ tile offset ls) :
    t.span.start < t.span.stop := by
  induction ls generalizing offset with
  | nil => cases h
  | cons l ls ih =>
    rcases List.mem_cons.mp h with rfl | h
    · have := Text.size_pos (hne l List.mem_cons_self)
      show offset < offset + Text.size l.chars
      omega
    · exact ih (fun m hm => hne m (List.mem_cons_of_mem _ hm)) h

/-- Lexemes of a text are cut between its characters. -/
theorem isBoundary_of_mem_tile (ls : List Lexeme) : ∀ before after : List Char,
    ∀ t ∈ tile (Text.size before) ls, ∀ offset ∈ [t.span.start, t.span.stop],
      Text.isBoundary (String.ofList (before ++ ls.flatMap Lexeme.chars ++ after)) offset =
        true := by
  induction ls with
  | nil => intro _ _ t ht; cases ht
  | cons l ls ih =>
    intro before after t ht offset hoffset
    have hstart := Text.isBoundary_ofList before (l.chars ++ ls.flatMap Lexeme.chars ++ after)
    have hstop := Text.isBoundary_ofList (before ++ l.chars) (ls.flatMap Lexeme.chars ++ after)
    have hrest := ih (before ++ l.chars) after
    simp only [Text.size_append, List.append_assoc] at hstart hstop hrest
    rw [List.flatMap_cons, List.append_assoc, List.append_assoc]
    rcases List.mem_cons.mp ht with rfl | ht
    · simp only [List.mem_cons, List.not_mem_nil, or_false] at hoffset
      rcases hoffset with rfl | rfl
      · exact hstart
      · exact hstop
    · exact hrest t ht offset hoffset

end Lexeme

open Lexeme

theorem consecutive_lex (text : String) : Consecutive 0 (Text.byteLength text) (lex text) := by
  have hplace := consecutive_place 0 (ofText text)
  rwa [flatMap_chars_ofText, Text.size_toList, Nat.zero_add] at hplace

theorem length_lex_le (text : String) : (lex text).length ≤ Text.byteLength text + 1 := by
  have htile := consecutive_tile (ofText text) 0
  rw [flatMap_chars_ofText, Text.size_toList, Nat.zero_add] at htile
  have hle := htile.add_length_le fun t ht =>
    lt_of_mem_tile (fun l hl => chars_ne_nil_of_mem_ofText hl) ht
  rw [lex_eq_tile, List.length_append, List.length_singleton]
  omega

theorem isBoundary_of_mem_place {ls : List Lexeme} {text : String}
    (h : ls.flatMap Lexeme.chars = text.toList) {t : Token} (ht : t ∈ place 0 ls) :
    ∀ offset ∈ [t.span.start, t.span.stop], Text.isBoundary text offset = true := by
  rw [place_eq_tile, h] at ht
  rcases List.mem_append.mp ht with ht | ht
  · have hcut := isBoundary_of_mem_tile ls [] [] t ht
    rwa [List.nil_append, List.append_nil, h, String.ofList_toList] at hcut
  · have hend := Text.isBoundary_ofList text.toList []
    rw [List.append_nil, String.ofList_toList] at hend
    obtain rfl := List.mem_singleton.mp ht
    rw [Nat.zero_add]
    simpa [Span.point] using hend

theorem isBoundary_lex {text : String} {t : Token} (h : t ∈ lex text) :
    ∀ offset ∈ [t.span.start, t.span.stop], Text.isBoundary text offset = true := by
  rw [lex_eq_place] at h
  exact isBoundary_of_mem_place (flatMap_chars_ofText text) h

theorem text_endOfFile (text : String) :
    (⟨.endOfFile, .point (Text.byteLength text)⟩ : Token).text text = "" := by
  have hend := Text.slice_ofList text.toList [] []
  rwa [List.append_nil, List.append_nil, String.ofList_toList, Text.size_toList] at hend

/-- The tokens of a text tile it.  They stand end to end from its start to its end and are cut
between characters; the last is the one end of file and the only one that is empty, and the texts of
all are the text. -/
theorem lex_tiles (text : String) :
    Consecutive 0 (Text.byteLength text) (lex text) ∧
    (∀ t ∈ lex text, ∀ offset ∈ [t.span.start, t.span.stop], Text.isBoundary text offset = true) ∧
    (∃ tokens, lex text = tokens ++ [⟨.endOfFile, .point (Text.byteLength text)⟩] ∧
      ∀ t ∈ tokens, t.kind ≠ .endOfFile ∧ t.span.start < t.span.stop) ∧
    String.join ((lex text).map (·.text text)) = text := by
  refine ⟨consecutive_lex text, fun t => isBoundary_lex, ?_, ?_⟩
  · refine ⟨tile 0 (ofText text), lex_eq_tile text, fun t ht => ⟨?_, ?_⟩⟩
    · obtain ⟨l, hl, hkind⟩ := kind_of_mem_tile ht
      exact hkind ▸ kind_ne_endOfFile_of_mem_ofText hl
    · exact lt_of_mem_tile (fun l hl => chars_ne_nil_of_mem_ofText hl) ht
  · have hjoin := join_text_lex text
    rw [takeWhile_lex] at hjoin
    rw [lex_eq_tile, List.map_append, List.map_singleton, text_endOfFile, ← String.toList_inj,
      String.toList_join, List.flatMap_append, ← String.toList_join, hjoin, List.flatMap_singleton]
    exact List.append_nil _

end RSource
