import Mathlib.Data.List.TakeWhile
import RSource.Proofs.Text.Window
import RSource.Text.Lines

/-! Lines and columns of offsets between characters.  The line counts the line feeds before the
offset and the column the characters behind the last of them, so that a later offset has a later
position.  Both fit in 32 bits below `maxOffset`, where a line start that stands at `maxOffset` for
a later one is not reached either. -/

namespace RSource.Text

variable {cs : List Char} {offset : Nat} {text : String}

/-! ### Numbers in 32 bits -/

theorem toNat_ofNatClamp (n : Nat) : (UInt32.ofNatClamp n).toNat = min n maxOffset := by
  by_cases h : n < UInt32.size
  · have hle : n ≤ maxOffset := Nat.le_of_lt_succ h
    rw [UInt32.toNat_ofNatClamp_of_lt h, Nat.min_eq_left hle]
  · have hle : maxOffset ≤ n := Nat.le_of_succ_le (Nat.not_lt.mp h)
    rw [UInt32.toNat_ofNatClamp_of_le (Nat.not_lt.mp h), Nat.min_eq_right hle]
    rfl

theorem toNat_ordinal {n : Nat} (h : n < maxOffset) : (ordinal n).toNat = n + 1 := by
  rw [ordinal, if_pos (Nat.le_of_lt h), UInt32.toNat_add, toNat_ofNatClamp,
    Nat.min_eq_left (Nat.le_of_lt h)]
  exact Nat.mod_eq_of_lt (Nat.succ_lt_succ h)

theorem ordinal_sub_one {n : Nat} (h : n ≤ maxOffset) : ordinal n - 1 = UInt32.ofNatClamp n := by
  rw [ordinal, if_pos h, UInt32.add_sub_cancel]

/-! ### Lines -/

theorem lineStartsFrom_append (xs ys : List Char) : ∀ offset,
    lineStartsFrom offset (xs ++ ys) =
      lineStartsFrom offset xs ++ lineStartsFrom (offset + size xs) ys := by
  induction xs with
  | nil => exact fun _ => rfl
  | cons x xs ih =>
    intro offset
    simp only [List.cons_append, lineStartsFrom, ih, size_cons, ← Nat.add_assoc]
    split
    · rfl
    · rfl

theorem length_lineStartsFrom (cs : List Char) : ∀ offset,
    (lineStartsFrom offset cs).length = cs.count '\n' := by
  induction cs with
  | nil => exact fun _ => rfl
  | cons c cs ih =>
    intro offset
    simp only [lineStartsFrom]
    split
    · next hc => rw [List.length_cons, ih, hc, List.count_cons_self]
    · next hc => rw [ih, List.count_cons_of_ne hc]

theorem count_le_size (cs : List Char) : cs.count '\n' ≤ size cs :=
  List.count_le_length.trans (length_le_size cs)

theorem mem_lineStartsFrom (cs : List Char) : ∀ offset, ∀ s ∈ lineStartsFrom offset cs,
    offset < s ∧ s ≤ offset + size cs := by
  induction cs with
  | nil => exact fun _ s hs => by cases hs
  | cons c cs ih =>
    intro offset s hs
    have hpos := c.utf8Size_pos
    have hrest : s ∈ lineStartsFrom (offset + c.utf8Size) cs →
        offset < s ∧ s ≤ offset + (c.utf8Size + size cs) := fun hs => by
      have := ih _ s hs
      omega
    simp only [lineStartsFrom] at hs
    split at hs
    · rcases List.mem_cons.mp hs with rfl | hs
      · rw [size_cons]
        omega
      · exact hrest hs
    · exact hrest hs

/-- What stands behind the last line feed. -/
def lastLine (cs : List Char) : List Char := (cs.reverse.takeWhile (· ≠ '\n')).reverse

theorem exists_lastLine (cs : List Char) : ∃ front, cs = front ++ lastLine cs ∧
    (front = [] ∨ ∃ above, front = above ++ ['\n']) ∧ (lastLine cs).count '\n' = 0 := by
  have hsplit := List.takeWhile_append_dropWhile (p := (· ≠ '\n')) (l := cs.reverse)
  refine ⟨(cs.reverse.dropWhile (· ≠ '\n')).reverse, ?_, ?_, ?_⟩
  · rw [lastLine, ← List.reverse_append, hsplit, List.reverse_reverse]
  · have hstop := List.head?_dropWhile_not (· ≠ '\n') cs.reverse
    cases hrest : cs.reverse.dropWhile (· ≠ '\n') with
    | nil => exact .inl rfl
    | cons x above =>
      rw [hrest] at hstop
      obtain rfl : x = '\n' := by simpa using hstop
      exact .inr ⟨above.reverse, by rw [List.reverse_cons]⟩
  · rw [List.count_eq_zero, lastLine, List.mem_reverse]
    intro hmem
    simpa using List.mem_takeWhile_imp hmem

theorem lastLine_append (cs : List Char) {more : List Char} (h : '\n' ∉ more) :
    lastLine (cs ++ more) = lastLine cs ++ more := by
  have hall : ∀ c ∈ more.reverse, decide (c ≠ '\n') = true := fun c hc => by
    rw [decide_eq_true_iff]
    rintro rfl
    exact h (List.mem_reverse.mp hc)
  rw [lastLine, List.reverse_append, List.takeWhile_append_of_pos hall, List.reverse_append,
    List.reverse_reverse, lastLine]

/-- The line of an offset starts in front of its last line. -/
theorem getElem?_lineStarts {front line : List Char}
    (hfront : front = [] ∨ ∃ above, front = above ++ ['\n']) (hline : line.count '\n' = 0) :
    (0 :: lineStartsFrom 0 (front ++ line))[(front ++ line).count '\n']? = some (size front) := by
  have hnone : lineStartsFrom (0 + size front) line = [] := by
    rw [← List.length_eq_zero_iff, length_lineStartsFrom, hline]
  rw [lineStartsFrom_append, hnone, List.append_nil, List.count_append, hline, Nat.add_zero]
  rcases hfront with rfl | ⟨above, rfl⟩
  · rfl
  · rw [lineStartsFrom_append, List.count_append, Nat.zero_add, ← length_lineStartsFrom above 0,
      size_append]
    show (0 :: (lineStartsFrom 0 above ++ [size above + 1]))[(lineStartsFrom 0 above).length + 1]? =
      some (size above + 1)
    rw [List.getElem?_cons_succ, List.getElem?_concat_length]

namespace LineTable

/-- Halving finds where a table passes an offset. -/
theorem bisect_eq {t : LineTable} {k low high : Nat}
    (hbefore : ∀ i < k, (t.starts[i]?).any (·.toNat ≤ offset) = true)
    (hafter : ∀ i, k ≤ i → (t.starts[i]?).any (·.toNat ≤ offset) = false) (hlow : low ≤ k)
    (hhigh : k ≤ high) : t.bisect offset low high = k := by
  fun_induction bisect t offset low high with
  | case1 low high hlt middle hle ih =>
    refine ih ?_ hhigh
    by_contra hk
    rw [hafter middle (by omega)] at hle
    cases hle
  | case2 low high hlt middle hgt ih =>
    refine ih hlow ?_
    by_contra hk
    exact hgt (hbefore middle (by omega))
  | case3 low high hge => omega

variable (before after : List Char)

/-- The lines of a text are those that start in its first part, then the others. -/
theorem getElem?_starts (i : Nat) : (ofText (String.ofList (before ++ after))).starts[i]? =
    (if i < before.count '\n' + 1 then (0 :: lineStartsFrom 0 before)[i]?
      else (lineStartsFrom (size before) after)[i - (before.count '\n' + 1)]?).map
      UInt32.ofNatClamp := by
  rw [ofText, String.toList_ofList, lineStartsFrom_append, Nat.zero_add, List.getElem?_toArray,
    List.getElem?_map, ← List.cons_append, List.getElem?_append, List.length_cons,
    length_lineStartsFrom]

theorem count_ofText (text : String) : (ofText text).count = text.toList.count '\n' + 1 := by
  rw [count, ofText, List.size_toArray, List.length_map, List.length_cons, length_lineStartsFrom]

variable (h : size before < maxOffset)
include h

theorem lineAt_ofList : (ofText (String.ofList (before ++ after))).lineAt (size before) =
    ordinal (before.count '\n') := by
  have hcount : before.count '\n' + 1 ≤ (ofText (String.ofList (before ++ after))).count := by
    rw [count_ofText, String.toList_ofList, List.count_append]
    omega
  rw [lineAt, bisect_eq (fun i hi => ?_) (fun i hi => ?_) (Nat.zero_le _) hcount,
    Nat.add_sub_cancel]
  · have hlength : i < (0 :: lineStartsFrom 0 before).length := by
      rwa [List.length_cons, length_lineStartsFrom]
    rw [getElem?_starts, if_pos hi, List.getElem?_eq_getElem hlength, Option.map_some,
      Option.any_some, decide_eq_true_iff, toNat_ofNatClamp]
    rcases List.mem_cons.mp (List.getElem_mem hlength) with h | h
    · omega
    · have := mem_lineStartsFrom before 0 _ h
      omega
  · rw [getElem?_starts, if_neg (by omega)]
    cases hs : (lineStartsFrom (size before) after)[i - (before.count '\n' + 1)]? with
    | none => rfl
    | some s =>
      have := mem_lineStartsFrom after (size before) s (List.mem_of_getElem? hs)
      rw [Option.map_some, Option.any_some, decide_eq_false_iff_not, toNat_ofNatClamp]
      omega

theorem startOf_ofList {front line : List Char} (hbefore : before = front ++ line)
    (hfront : front = [] ∨ ∃ above, front = above ++ ['\n']) (hline : line.count '\n' = 0) :
    ((ofText (String.ofList (before ++ after))).startOf (ordinal (before.count '\n'))).toNat =
      size front := by
  have hcount := count_le_size before
  have hsize : size front ≤ maxOffset := by
    rw [hbefore, size_append] at h
    omega
  rw [startOf, ordinal_sub_one (by omega), toNat_ofNatClamp, Nat.min_eq_left (by omega),
    getElem?_starts, if_pos (Nat.lt_succ_self _), hbefore, getElem?_lineStarts hfront hline,
    Option.map_some, Option.getD_some, toNat_ofNatClamp, Nat.min_eq_left hsize]

end LineTable

/-! ### Positions -/

/-- The position behind some characters is told by them alone. -/
theorem positionIn_ofList (before after : List Char) (h : size before < maxOffset) :
    positionIn (String.ofList (before ++ after)) (size before) =
      (before.count '\n' + 1, (lastLine before).length + 1) := by
  obtain ⟨front, hbefore, hfront, hline⟩ := exists_lastLine before
  have hcount := count_le_size before
  have hlength := length_le_size (lastLine before)
  have hlast : size (lastLine before) ≤ size before := by
    rw [hbefore, size_append, ← hbefore]
    exact Nat.le_add_left _ _
  have hcovered := slice?_ofList front (lastLine before) after
  rw [← hbefore, ← size_append, ← hbefore] at hcovered
  have hstop : min (size before) (byteLength (String.ofList (before ++ after))) = size before := by
    rw [← size_eq_byteLength, size_append]
    omega
  rw [positionIn, LineTable.position, LineTable.lineAt_ofList before after h,
    LineTable.startOf_ofList before after h hbefore hfront hline, hstop, hcovered,
    Option.map_some, Option.getD_some, String.length_ofList, toNat_ordinal (by omega),
    toNat_ordinal (by omega)]

theorem exists_of_isBoundary (h : isBoundary text offset = true) :
    ∃ before after, text = String.ofList (before ++ after) ∧ offset = size before := by
  rw [isBoundary, String.Pos.Raw.isValid_eq_true_iff, String.Pos.Raw.isValid_iff_exists_append] at h
  obtain ⟨s, s', rfl, hoffset⟩ := h
  refine ⟨s.toList, s'.toList, ?_, ?_⟩
  · rw [String.ofList_append, String.ofList_toList, String.ofList_toList]
  · rw [size_toList]
    exact congrArg String.Pos.Raw.byteIdx hoffset

theorem le_of_isBoundary (h : isBoundary text offset = true) : offset ≤ byteLength text := by
  obtain ⟨before, after, rfl, rfl⟩ := exists_of_isBoundary h
  rw [← size_eq_byteLength, size_append]
  exact Nat.le_add_right _ _

/-- A later offset has a later position, on its line or on a later one. -/
theorem positionIn_lt {later : Nat} (h : isBoundary text offset = true)
    (hlater : isBoundary text later = true) (hsize : later < maxOffset) (hlt : offset < later) :
    (positionIn text offset).1 < (positionIn text later).1 ∨
      (positionIn text offset).1 = (positionIn text later).1 ∧
        (positionIn text offset).2 < (positionIn text later).2 := by
  obtain ⟨before, after, rfl, rfl⟩ := exists_of_isBoundary h
  obtain ⟨before', after', htext, rfl⟩ := exists_of_isBoundary hlater
  obtain ⟨more, rfl, rfl⟩ : ∃ more, before' = before ++ more ∧ after = more ++ after' := by
    rcases List.append_eq_append_iff.mp (String.ofList_injective htext) with
      ⟨more, hbefore, hafter⟩ | ⟨more, hbefore, -⟩
    · exact ⟨more, hbefore, hafter⟩
    · rw [hbefore, size_append] at hlt
      omega
  have hmore : 0 < more.length := by
    rw [List.length_pos_iff]
    rintro rfl
    rw [List.append_nil] at hlt
    exact Nat.lt_irrefl _ hlt
  rw [positionIn_ofList _ _ (Nat.lt_trans hlt hsize), ← List.append_assoc,
    positionIn_ofList _ _ hsize, List.count_append]
  by_cases hfeed : '\n' ∈ more
  · have := List.count_pos_iff.mpr hfeed
    exact .inl (by omega)
  · refine .inr ⟨by rw [List.count_eq_zero.mpr hfeed, Nat.add_zero], ?_⟩
    rw [lastLine_append before hfeed, List.length_append]
    omega

end RSource.Text
