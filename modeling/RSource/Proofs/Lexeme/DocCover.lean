import RSource.Proofs.Lexeme.DocScanned

/-! The tokens of doc comments cover the text, and no token but a line end goes on to the next
line. -/

namespace RSource

namespace Lexeme.Doc

variable {ls : List Lexeme} {left cs : List Char}

theorem newline_not_mem_of_cuts (h : Cuts ls left cs) (hcs : '\n' ∉ cs) :
    ∀ l ∈ ls, '\n' ∉ l.chars := by
  intro l hl hmem
  refine hcs ?_
  rw [← h.chars]
  exact List.mem_append_left _ (List.mem_flatMap.mpr ⟨l, hl, hmem⟩)

theorem newline_not_mem_lineWithEnd (hcs : '\n' ∉ cs) (ended : Bool) :
    ∀ l ∈ lineWithEnd cs ended, l.kind ≠ .docNewline → '\n' ∉ l.chars := by
  intro l hl hkind
  rw [lineWithEnd] at hl
  rcases List.mem_append.mp hl with hl | hl
  · refine newline_not_mem_of_cuts (cuts_line _ []) ?_ l hl
    rw [List.append_nil]
    split
    · exact fun hmem => hcs (List.dropLast_subset _ hmem)
    · exact hcs
  · split at hl
    · obtain rfl := List.mem_singleton.mp hl
      exact absurd rfl hkind
    · split at hl
      · obtain rfl := List.mem_singleton.mp hl
        decide
      · cases hl

theorem newline_not_mem_linesFrom (cs : List Char) : ∀ current, '\n' ∉ current →
    ∀ l ∈ linesFrom current cs, l.kind ≠ .docNewline → '\n' ∉ l.chars := by
  induction cs with
  | nil =>
    intro current hcurrent
    exact newline_not_mem_lineWithEnd (by rwa [List.mem_reverse]) false
  | cons c cs ih =>
    intro current hcurrent l hl
    rw [linesFrom] at hl
    split at hl
    · rcases List.mem_append.mp hl with hl | hl
      · exact newline_not_mem_lineWithEnd (by rwa [List.mem_reverse]) true l hl
      · exact ih [] (List.not_mem_nil) l hl
    · next hc =>
      refine ih (c :: current) ?_ l hl
      rw [List.mem_cons, not_or]
      exact ⟨Ne.symm hc, hcurrent⟩

theorem flatMap_chars_ofChars (cs : List Char) : (ofChars cs).flatMap Lexeme.chars = cs := by
  simpa using (cuts_ofChars cs).chars

end Lexeme.Doc

open Lexeme

theorem lexDoc_eq_tile (text : String) : lexDoc text = tile 0 (Doc.ofChars text.toList) ++
    [⟨.endOfFile, .point (Text.byteLength text)⟩] := by
  rw [lexDoc, place_eq_tile, Doc.flatMap_chars_ofChars, Text.size_toList, Nat.zero_add]

theorem consecutive_lexDoc (text : String) :
    Consecutive 0 (Text.byteLength text) (lexDoc text) := by
  have hplace := consecutive_place 0 (Doc.ofChars text.toList)
  rwa [Doc.flatMap_chars_ofChars, Text.size_toList, Nat.zero_add] at hplace

theorem newline_not_mem_lexDoc {text : String} {t : Token} (ht : t ∈ lexDoc text)
    (hkind : t.kind ≠ .docNewline) : '\n' ∉ (t.text text).toList := by
  have hchars := Doc.flatMap_chars_ofChars text.toList
  rw [lexDoc_eq_tile] at ht
  rcases List.mem_append.mp ht with ht | ht
  · obtain ⟨before, l, after, hls, rfl⟩ := mem_tile ht
    have hl := Doc.newline_not_mem_linesFrom text.toList [] List.not_mem_nil l
      (by rw [← Doc.ofChars, hls]; simp) hkind
    rw [hls] at hchars
    rwa [Nat.zero_add, Token.text, Text.slice, slice?_of_chars hchars, Option.getD_some,
      String.toList_ofList]
  · obtain rfl := List.mem_singleton.mp ht
    rw [text_endOfFile]
    exact List.not_mem_nil

theorem map_capped_lexDoc {text : String} (h : Text.byteLength text ≤ maxOffset) :
    (lexDoc text).map Token.capped = lexDoc text := by
  have hcapped : ∀ t ∈ lexDoc text, t.capped = id t := by
    intro t ht
    obtain ⟨hstart, hstop⟩ := (consecutive_lexDoc text).bounds ht
    rw [Token.capped, Nat.min_eq_left (by omega), Nat.min_eq_left (by omega)]
    rfl
  rw [List.map_congr_left hcapped, List.map_id]

/-- The tokens of a block of doc comment lines tile it.  The scanner by byte positions takes no
slice that is none, no byte past the end and, in each loop, no more turns than there are bytes; it
gives the tokens of the text, with their offsets as far as offsets go.  They stand end to end from
the start of the text to its end and are cut between characters; the last is the one end of file and
the only one that is empty, and only line ends hold a line feed. -/
theorem lexDoc_tiles (text : String) :
    DocScan.scan text = .ok ((lexDoc text).map Token.capped) ∧
    (Text.byteLength text ≤ maxOffset → DocScan.scan text = .ok (lexDoc text)) ∧
    Consecutive 0 (Text.byteLength text) (lexDoc text) ∧
    (∀ t ∈ lexDoc text, ∀ offset ∈ [t.span.start, t.span.stop],
      Text.isBoundary text offset = true) ∧
    (∃ tokens, lexDoc text = tokens ++ [⟨.endOfFile, .point (Text.byteLength text)⟩] ∧
      ∀ t ∈ tokens, t.kind ≠ .endOfFile ∧ t.span.start < t.span.stop) ∧
    ∀ t ∈ lexDoc text, t.kind ≠ .docNewline → '\n' ∉ (t.text text).toList := by
  have hsound := (Doc.cuts_ofChars text.toList).sound
  refine ⟨DocScan.scan_eq text, fun hsize => ?_, consecutive_lexDoc text, fun t ht => ?_, ?_,
    fun t => newline_not_mem_lexDoc⟩
  · rw [DocScan.scan_eq, map_capped_lexDoc hsize]
  · exact isBoundary_of_mem_place (Doc.flatMap_chars_ofChars text.toList) ht
  · refine ⟨tile 0 (Doc.ofChars text.toList), lexDoc_eq_tile text, fun t ht => ⟨?_, ?_⟩⟩
    · obtain ⟨l, hl, hkind⟩ := kind_of_mem_tile ht
      exact hkind ▸ (hsound l hl).2
    · exact lt_of_mem_tile (fun l hl => (hsound l hl).1) ht

end RSource
