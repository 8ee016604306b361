import RSource.Proofs.Text.Piece
import RSource.Proofs.Text.Utf8

/-! Windows of a text.  The characters between two boundaries are its slice, and the bytes there are
theirs.  A window is cut in two after any of its characters. -/

namespace RSource

namespace Utf8

variable {c d : Char}

/-- The byte of an ASCII character. -/
def ascii (c : Char) : UInt8 := UInt8.ofNat c.toNat

theorem toNat_ascii (hd : d.toNat < 0x80) : (ascii d).toNat = d.toNat := toNat_byte (by omega)

/-- The first byte of a character. -/
def lead (c : Char) : UInt8 := UInt8.ofNat (leadByte c.toNat)

theorem toNat_lead (c : Char) : (lead c).toNat = leadByte c.toNat := toNat_byte (leadByte_lt c)

theorem lead_eq_ascii_iff (hd : d.toNat < 0x80) : lead c = ascii d ↔ c = d := by
  rw [← UInt8.toNat_inj, toNat_lead, toNat_ascii hd]
  refine ⟨fun h => Char.toNat_inj.mp ?_, fun h => ?_⟩
  · simp only [leadByte] at h
    repeat' split at h
    all_goals omega
  · rw [h, leadByte, if_pos hd]

theorem lastByte_eq_ascii_iff (hd : d.toNat < 0x80) :
    UInt8.ofNat (lastByte c.toNat) = ascii d ↔ c = d := by
  rw [← UInt8.toNat_inj, toNat_byte (lastByte_lt _), toNat_ascii hd]
  refine ⟨fun h => Char.toNat_inj.mp ?_, fun h => ?_⟩
  · simp only [lastByte] at h
    split at h
    all_goals omega
  · rw [h, lastByte, if_pos hd]

theorem encode_ofList (cs : List Char) : encode (String.ofList cs) = cs.flatMap encodeChar := by
  rw [encode, String.toList_ofList]

end Utf8

namespace Text

/-- The characters stand between the two offsets. -/
def Window (text : String) (start stop : Nat) (cs : List Char) : Prop :=
  ∃ before after, text = String.ofList (before ++ cs ++ after) ∧ start = size before ∧
    stop = start + size cs

variable {text : String} {start stop : Nat} {c : Char} {cs xs ys : List Char}

namespace Window

theorem whole (cs : List Char) : Window (String.ofList cs) 0 (size cs) cs :=
  ⟨[], [], by simp, rfl, (Nat.zero_add _).symm⟩

theorem ofText (text : String) : Window text 0 (byteLength text) text.toList := by
  have hwhole := whole text.toList
  rwa [String.ofList_toList, size_toList] at hwhole

theorem stop_eq (h : Window text start stop cs) : stop = start + size cs := by
  obtain ⟨_, _, _, _, hstop⟩ := h
  exact hstop

theorem left (h : Window text start stop (xs ++ ys)) :
    Window text start (start + size xs) xs := by
  obtain ⟨before, after, htext, hstart, -⟩ := h
  exact ⟨before, ys ++ after, by simpa using htext, hstart, rfl⟩

theorem right (h : Window text start stop (xs ++ ys)) :
    Window text (start + size xs) stop ys := by
  obtain ⟨before, after, htext, rfl, rfl⟩ := h
  refine ⟨before ++ xs, after, by simpa using htext, (size_append _ _).symm, ?_⟩
  rw [size_append, Nat.add_assoc]

theorem tail (h : Window text start stop (c :: cs)) :
    Window text (start + c.utf8Size) stop cs :=
  right (show Window text start stop ([c] ++ cs) from h)

theorem drop (h : Window text start stop cs) (n : Nat) :
    Window text (start + size (cs.take n)) stop (cs.drop n) :=
  right (by rwa [List.take_append_drop])

theorem takeWhile (h : Window text start stop cs) (p : Char → Bool) :
    Window text start (start + size (cs.takeWhile p)) (cs.takeWhile p) := by
  rw [← List.takeWhile_append_dropWhile (p := p) (l := cs)] at h
  exact h.left

theorem dropWhile (h : Window text start stop cs) (p : Char → Bool) :
    Window text (start + size (cs.takeWhile p)) stop (cs.dropWhile p) :=
  right (by rwa [List.takeWhile_append_dropWhile])

/-- What stands between the window's start and the end of the text. -/
theorem exists_rest (h : Window text start stop cs) :
    ∃ after, Window text start (byteLength text) (cs ++ after) := by
  obtain ⟨before, after, rfl, rfl, -⟩ := h
  refine ⟨after, before, [], by simp, rfl, ?_⟩
  rw [← size_eq_byteLength, List.append_assoc, size_append]

theorem slice? (h : Window text start stop cs) :
    Text.slice? text ⟨start, stop⟩ = some (String.ofList cs) := by
  obtain ⟨before, after, rfl, rfl, rfl⟩ := h
  exact slice?_ofList before cs after

theorem size_le (h : Window text start stop cs) : stop ≤ byteLength text := by
  obtain ⟨before, after, rfl, rfl, rfl⟩ := h
  rw [← size_eq_byteLength, size_append, size_append]
  exact Nat.le_add_right _ _

/-! ### Bytes -/

theorem getElem?_encode (h : Window text start stop cs) {n : Nat}
    (hn : n < (cs.flatMap Utf8.encodeChar).length) :
    (Utf8.encode text)[start + n]? = (cs.flatMap Utf8.encodeChar)[n]? := by
  obtain ⟨before, after, rfl, rfl, -⟩ := h
  rw [Utf8.encode_ofList, List.flatMap_append, List.flatMap_append, List.append_assoc,
    ← Utf8.length_flatMap_encodeChar, List.getElem?_append_right (Nat.le_add_right _ _),
    Nat.add_sub_cancel_left, List.getElem?_append_left hn]

/-- The byte at the start of a window is the first of its first character. -/
theorem firstByte (h : Window text start stop (c :: cs)) :
    (Utf8.encode text)[start]? = some (Utf8.lead c) := by
  have hc : 0 < (Utf8.encodeChar c).length := by
    rw [Utf8.length_encodeChar]
    exact c.utf8Size_pos
  have hbyte := h.getElem?_encode (n := 0) (by rw [List.flatMap_cons, List.length_append]; omega)
  rwa [List.flatMap_cons, List.getElem?_append_left hc, ← List.head?_eq_getElem?,
    Utf8.head?_encodeChar] at hbyte

/-- The byte before the end of a window is the last of its last character. -/
theorem lastByte (h : Window text start stop (cs ++ [c])) :
    (Utf8.encode text)[stop - 1]? = some (UInt8.ofNat (Utf8.lastByte c.toNat)) := by
  have hlast := h.right
  have hc : 0 < (Utf8.encodeChar c).length := by
    rw [Utf8.length_encodeChar]
    exact c.utf8Size_pos
  have hstop : stop - 1 = start + size cs + ((Utf8.encodeChar c).length - 1) := by
    have hsize := hlast.stop_eq
    rw [size_cons, size_nil, ← Utf8.length_encodeChar] at hsize
    omega
  have hbyte := hlast.getElem?_encode (n := (Utf8.encodeChar c).length - 1)
    (by rw [List.flatMap_singleton]; omega)
  rw [hstop, hbyte, List.flatMap_singleton, ← List.getLast?_eq_getElem?,
    Utf8.getLast?_encodeChar]

end Window

theorem length_le_size (cs : List Char) : cs.length ≤ size cs := by
  induction cs with
  | nil => exact Nat.le_refl _
  | cons c cs ih =>
    have hc := c.utf8Size_pos
    rw [List.length_cons, size_cons]
    omega

theorem utf8Size_of_ascii (h : c.toNat < 0x80) : c.utf8Size = 1 := by
  rw [← Utf8.length_encodeChar, Utf8.encodeChar_one h, List.length_singleton]

end Text

end RSource
