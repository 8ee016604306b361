import Mathlib.Data.Prod.Lex
import RSource.Proofs.Text.Lines
import RSource.Proofs.Text.Utf8

/-! The table of line starts against a plain count.  The line of an offset is told by the bytes `\n`
before it and the column by the characters behind the last of them; so positions come in the order
of the offsets.  The text of a line is what stands between its start and the start of the next one,
without its line end, and there is one for each line and for no other number. -/

namespace RSource

namespace Utf8

variable {c : Char} {b : UInt8}

/-- Outside ASCII no byte of a character is a byte of ASCII. -/
theorem le_of_mem_encodeChar (hc : 0x80 ≤ c.toNat) (hb : b ∈ encodeChar c) : 0x80 ≤ b.toNat := by
  have hvalid := toNat_cases c
  rcases Nat.lt_or_ge c.toNat 0x800 with htwo | htwo
  · rw [encodeChar_two hc htwo] at hb
    simp only [List.mem_cons, List.not_mem_nil, or_false] at hb
    rcases hb with rfl | rfl <;> rw [toNat_byte (by omega)] <;> omega
  rcases Nat.lt_or_ge c.toNat 0x10000 with hthree | hthree
  · rw [encodeChar_three htwo hthree] at hb
    simp only [List.mem_cons, List.not_mem_nil, or_false] at hb
    rcases hb with rfl | rfl | rfl <;> rw [toNat_byte (by omega)] <;> omega
  · rw [encodeChar_four hthree] at hb
    simp only [List.mem_cons, List.not_mem_nil, or_false] at hb
    rcases hb with rfl | rfl | rfl | rfl <;> rw [toNat_byte (by omega)] <;> omega

/-- The byte of a line feed. -/
def lineFeed : UInt8 := 0x0A

theorem count_lineFeed_encodeChar (c : Char) :
    (encodeChar c).count lineFeed = if c = '\n' then 1 else 0 := by
  split
  · next hc => rw [hc]; decide
  · next hc =>
    rw [List.count_eq_zero]
    intro hmem
    rcases Nat.lt_or_ge c.toNat 0x80 with hascii | hwide
    · rw [encodeChar_one hascii, List.mem_singleton] at hmem
      have hnat := congrArg UInt8.toNat hmem
      rw [toNat_byte (by omega)] at hnat
      exact hc (Char.toNat_inj.mp hnat.symm)
    · exact absurd (le_of_mem_encodeChar hwide hmem) (by decide)

/-- A byte `\n` is a line feed, wherever it stands. -/
theorem count_lineFeed (cs : List Char) :
    (cs.flatMap encodeChar).count lineFeed = cs.count '\n' := by
  induction cs with
  | nil => rfl
  | cons c cs ih =>
    rw [List.flatMap_cons, List.count_append, ih, count_lineFeed_encodeChar, List.count_cons,
      Nat.add_comm]
    simp only [beq_iff_eq]

theorem take_encode (before after : List Char) :
    (encode (String.ofList (before ++ after))).take (Text.size before) =
      before.flatMap encodeChar := by
  rw [encode, String.toList_ofList, List.flatMap_append, List.take_left' (by
    rw [length_flatMap_encodeChar])]

end Utf8

namespace Text

variable {cs front line rest : List Char} {text : String} {offset later number : Nat}

/-! ### Positions -/

/-- The position of an offset by counting: the line feeds among the bytes before it, and the
characters behind the last of them. -/
def countedPosition (text : String) (offset : Nat) : Nat × Nat :=
  (((Utf8.encode text).take offset).count Utf8.lineFeed + 1,
    (lastLine (slice text ⟨0, offset⟩).toList).length + 1)

theorem countedPosition_ofList (before after : List Char) :
    countedPosition (String.ofList (before ++ after)) (size before) =
      (before.count '\n' + 1, (lastLine before).length + 1) := by
  have hslice := slice_ofList [] before after
  rw [List.nil_append, size_nil, Nat.zero_add] at hslice
  rw [countedPosition, Utf8.take_encode, Utf8.count_lineFeed, hslice, String.toList_ofList]

theorem position_eq (h : isBoundary text offset = true) (hsize : offset < maxOffset) :
    (LineTable.ofText text).position text offset = countedPosition text offset := by
  obtain ⟨before, after, rfl, rfl⟩ := exists_of_isBoundary h
  rw [countedPosition_ofList]
  exact positionIn_ofList before after hsize

section

variable (h : isBoundary text offset = true) (hlater : isBoundary text later = true)
  (hsize : offset < maxOffset) (hlaterSize : later < maxOffset)
include h hlater hsize hlaterSize

/-- Positions come in the order of the offsets. -/
theorem lt_iff_position_lt : offset < later ↔
    Prod.Lex (· < ·) (· < ·) (positionIn text offset) (positionIn text later) := by
  rw [Prod.lex_def]
  refine ⟨positionIn_lt h hlater hlaterSize, fun hlt => ?_⟩
  by_contra hle
  rcases Nat.lt_or_eq_of_le (Nat.not_lt.mp hle) with hgt | rfl
  · have hback := positionIn_lt hlater h hsize hgt
    omega
  · omega

theorem eq_of_position_eq (heq : positionIn text offset = positionIn text later) :
    offset = later := by
  have hforth := (lt_iff_position_lt h hlater hsize hlaterSize).mp
  have hback := (lt_iff_position_lt hlater h hlaterSize hsize).mp
  rw [Prod.lex_def, heq] at hforth
  rw [Prod.lex_def, heq] at hback
  omega

end

/-! ### The texts of lines -/

/-- Between `front` and `rest` stands the line with a number, up to the start of the next line or
the end of the text. -/
structure IsLine (text : String) (number : Nat) (front line rest : List Char) : Prop where
  text : text = String.ofList (front ++ line ++ rest)
  number : number = front.count '\n' + 1
  starts : front = [] ∨ ∃ above, front = above ++ ['\n']
  ends : ('\n' ∉ line ∧ rest = []) ∨ ∃ body, line = body ++ ['\n'] ∧ '\n' ∉ body

theorem lineStartsFrom_eq_nil (h : '\n' ∉ cs) (offset : Nat) : lineStartsFrom offset cs = [] := by
  rw [← List.length_eq_zero_iff, length_lineStartsFrom, List.count_eq_zero.mpr h]

namespace IsLine

variable (h : IsLine text number front line rest)
include h

theorem byteLength_eq : byteLength text = size front + size line + size rest := by
  rw [h.text, ← size_eq_byteLength, size_append, size_append]

theorem starts_eq : (LineTable.ofText text).starts[number - 1]? =
    some (UInt32.ofNatClamp (size front)) := by
  have hstart := getElem?_lineStarts h.starts (List.count_nil : [].count '\n' = 0)
  rw [List.append_nil] at hstart
  rw [h.text, List.append_assoc, LineTable.getElem?_starts, h.number, Nat.add_sub_cancel,
    if_pos (Nat.lt_succ_self _), hstart, Option.map_some]

variable (hsize : byteLength text ≤ maxOffset)
include hsize

theorem stop_eq : (((LineTable.ofText text).starts[number]?).map UInt32.toNat).getD
    (byteLength text) = size front + size line := by
  have hlength := h.byteLength_eq
  rw [hlength] at hsize ⊢
  rw [h.text, List.append_assoc, LineTable.getElem?_starts, h.number, if_neg (Nat.lt_irrefl _),
    Nat.sub_self]
  rcases h.ends with ⟨hnone, rfl⟩ | ⟨body, rfl, hnone⟩
  · rw [List.append_nil, lineStartsFrom_eq_nil hnone, List.getElem?_nil, Option.map_none,
      Option.map_none, Option.getD_none, size_nil, Nat.add_zero]
  · have hbody : size (body ++ ['\n']) = size body + 1 := by rw [size_append]; rfl
    have hstop : (UInt32.ofNatClamp (size front + size body + 1)).toNat =
        size front + size body + 1 := by
      rw [toNat_ofNatClamp, Nat.min_eq_left (by omega)]
    rw [List.append_assoc, lineStartsFrom_append, lineStartsFrom_eq_nil hnone, hbody]
    exact hstop

theorem lineText?_eq : (LineTable.ofText text).lineText? text number =
    some (String.ofList (trimEndChars (fun c => c = '\n' || c = '\r') line)) := by
  have hlength := h.byteLength_eq
  have hcovered := slice?_ofList front line rest
  rw [← h.text] at hcovered
  have hsome : number ≠ 0 := by rw [h.number]; exact Nat.succ_ne_zero _
  rw [LineTable.lineText?, if_neg hsome, h.starts_eq, h.stop_eq hsize, Option.bind_eq_bind,
    Option.bind_some, toNat_ofNatClamp, Nat.min_eq_left (by omega)]
  dsimp only
  rw [hcovered, Option.bind_eq_bind, Option.bind_some, trimEnd, String.toList_ofList]
  rfl

end IsLine

/-- The lines before one of the first ones. -/
theorem exists_front {n : Nat} (h : n ≤ cs.count '\n') : ∃ front back, cs = front ++ back ∧
    front.count '\n' = n ∧ (front = [] ∨ ∃ above, front = above ++ ['\n']) := by
  induction n with
  | zero => exact ⟨[], cs, rfl, rfl, .inl rfl⟩
  | succ n ih =>
    obtain ⟨front, back, rfl, hcount, -⟩ := ih (by omega)
    rw [List.count_append] at h
    have hmore : '\n' ∈ back := List.count_pos_iff.mp (by omega)
    obtain ⟨body, rest, rfl, hnone⟩ := List.eq_append_cons_of_mem hmore
    refine ⟨front ++ body ++ ['\n'], rest, by simp, ?_, .inr ⟨_, rfl⟩⟩
    rw [List.count_append, List.count_append, hcount, List.count_eq_zero.mpr hnone]
    rfl

theorem exists_isLine (hfirst : 1 ≤ number) (hlast : number ≤ (LineTable.ofText text).count) :
    ∃ front line rest, IsLine text number front line rest := by
  rw [LineTable.count_ofText] at hlast
  have hle : number - 1 ≤ text.toList.count '\n' := by omega
  obtain ⟨front, back, htext, hcount, hstarts⟩ := exists_front hle
  have htext : text = String.ofList (front ++ back) := by
    rw [← htext, String.ofList_toList]
  have hnumber : number = front.count '\n' + 1 := by omega
  by_cases hmore : '\n' ∈ back
  · obtain ⟨body, rest, rfl, hnone⟩ := List.eq_append_cons_of_mem hmore
    exact ⟨front, body ++ ['\n'], rest, by rw [htext]; simp, hnumber, hstarts,
      .inr ⟨body, rfl, hnone⟩⟩
  · exact ⟨front, back, [], by rw [htext, List.append_nil], hnumber, hstarts, .inl ⟨hmore, rfl⟩⟩

theorem lineText?_eq_none (h : number = 0 ∨ (LineTable.ofText text).count < number) :
    (LineTable.ofText text).lineText? text number = none := by
  rw [LineTable.lineText?]
  rcases h with rfl | h
  · rfl
  · rw [if_neg (by omega), Array.getElem?_eq_none (by rw [LineTable.count] at h; omega)]
    rfl

/-- The table of the lines of a text agrees with counting.  Between characters, below the largest
offset, it gives the counted position, so that positions come in the order of the offsets and no two
offsets have the same.  If the text ends at an offset, it gives for each line from the first to the
last, and for no other number, the line without its line end. -/
theorem lines_counted (text : String) :
    (∀ offset < maxOffset, isBoundary text offset = true →
      (LineTable.ofText text).position text offset = countedPosition text offset ∧
      ∀ later < maxOffset, isBoundary text later = true →
        (offset < later ↔ Prod.Lex (· < ·) (· < ·) ((LineTable.ofText text).position text offset)
          ((LineTable.ofText text).position text later)) ∧
        ((LineTable.ofText text).position text offset =
          (LineTable.ofText text).position text later → offset = later)) ∧
    (byteLength text ≤ maxOffset → ∀ number,
      ((LineTable.ofText text).lineText? text number = none ↔
        ¬ (1 ≤ number ∧ number ≤ (LineTable.ofText text).count)) ∧
      (1 ≤ number ∧ number ≤ (LineTable.ofText text).count →
        ∃ front line rest, IsLine text number front line rest) ∧
      ∀ front line rest, IsLine text number front line rest →
        (LineTable.ofText text).lineText? text number =
          some (String.ofList (trimEndChars (fun c => c = '\n' || c = '\r') line))) := by
  refine ⟨fun offset hoffset h => ⟨position_eq h hoffset, fun later hlater h' =>
    ⟨lt_iff_position_lt h h' hoffset hlater, eq_of_position_eq h h' hoffset hlater⟩⟩,
    fun hsize number => ⟨?_, ?_, ?_⟩⟩
  · refine ⟨fun hnone hwithin => ?_, fun hout => lineText?_eq_none (by omega)⟩
    obtain ⟨front, line, rest, h⟩ := exists_isLine hwithin.1 hwithin.2
    rw [h.lineText?_eq hsize] at hnone
    cases hnone
  · exact fun hwithin => exists_isLine hwithin.1 hwithin.2
  · exact fun front line rest h => h.lineText?_eq hsize

/-- A text with two bytes for its first character, and a line end of two characters. -/
theorem lines_counted_returned : isBoundary "é\r\nb" 2 = true ∧ isBoundary "é\r\nb" 5 = true ∧
    byteLength "é\r\nb" < maxOffset ∧
    countedPosition "é\r\nb" 2 = (1, 2) ∧ countedPosition "é\r\nb" 5 = (2, 2) ∧
    (LineTable.ofText "é\r\nb").position "é\r\nb" 2 = countedPosition "é\r\nb" 2 ∧
    Prod.Lex (· < ·) (· < ·) ((LineTable.ofText "é\r\nb").position "é\r\nb" 2)
      ((LineTable.ofText "é\r\nb").position "é\r\nb" 5) ∧
    IsLine "é\r\nb" 1 [] ['é', '\r', '\n'] ['b'] ∧
    (LineTable.ofText "é\r\nb").lineText? "é\r\nb" 1 = some "é" := by
  have hfirst : isBoundary "é\r\nb" 2 = true := by decide
  have hlast : isBoundary "é\r\nb" 5 = true := by decide
  have hsize : byteLength "é\r\nb" < maxOffset := by decide
  have hline : IsLine "é\r\nb" 1 [] ['é', '\r', '\n'] ['b'] :=
    ⟨by decide, rfl, .inl rfl, .inr ⟨['é', '\r'], rfl, by decide⟩⟩
  obtain ⟨hpositions, hlines⟩ := lines_counted "é\r\nb"
  obtain ⟨hposition, horder⟩ := hpositions 2 (by decide) hfirst
  exact ⟨hfirst, hlast, hsize, by decide, by decide, hposition,
    (horder 5 (by decide) hlast).1.mp (by decide), hline,
    ((hlines (Nat.le_of_lt hsize) 1).2.2 _ _ _ hline).trans (by decide)⟩

end Text

end RSource
