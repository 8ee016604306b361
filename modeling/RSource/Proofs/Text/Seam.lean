import RSource.Proofs.Text.Piece

/-! Texts made of pieces.  A seam is where a piece starts; the piece between two seams is a slice,
and replacing it is replacing the slice. -/

namespace RSource.Text

variable {pieces : List (List Char)} {piece new : List Char} {i k : Nat}

/-- The offset at which the piece with number `k` starts. -/
def seam (pieces : List (List Char)) (k : Nat) : Nat := size (pieces.take k).flatten

@[simp] theorem seam_zero (pieces : List (List Char)) : seam pieces 0 = 0 := rfl

@[simp] theorem seam_succ (piece : List Char) (pieces : List (List Char)) (k : Nat) :
    seam (piece :: pieces) (k + 1) = size piece + seam pieces k := by
  rw [seam, List.take_succ_cons, List.flatten_cons, size_append, seam]

theorem seam_length (pieces : List (List Char)) :
    seam pieces pieces.length = byteLength (String.ofList pieces.flatten) := by
  rw [seam, List.take_length, size_eq_byteLength]

theorem seam_mono (pieces : List (List Char)) {j k : Nat} (h : j ≤ k) :
    seam pieces j ≤ seam pieces k := by
  induction pieces generalizing j k with
  | nil => rw [seam, seam, List.take_nil, List.take_nil]
  | cons piece pieces ih =>
    cases j with
    | zero => exact Nat.zero_le _
    | succ j =>
      cases k with
      | zero => omega
      | succ k =>
        rw [seam_succ, seam_succ]
        exact Nat.add_le_add_left (ih (Nat.le_of_succ_le_succ h)) _

theorem seam_append_left (before after : List (List Char)) (h : k ≤ before.length) :
    seam (before ++ after) k = seam before k := by
  rw [seam, List.take_append_of_le_length h, seam]

theorem seam_append_right (before after : List (List Char)) (k : Nat) :
    seam (before ++ after) (before.length + k) = size before.flatten + seam after k := by
  rw [seam, List.take_length_add_append, List.flatten_append, size_append, seam]

/-- The seams of a piece are the ends of its characters. -/
theorem exists_split_of_getElem? (h : pieces[i]? = some piece) :
    ∃ before after, pieces = before ++ piece :: after ∧ before.length = i ∧
      seam pieces i = size before.flatten ∧
      seam pieces (i + 1) = size before.flatten + size piece := by
  obtain ⟨hi, hpiece⟩ := List.getElem?_eq_some_iff.mp h
  have hsplit : pieces = pieces.take i ++ piece :: pieces.drop (i + 1) := by
    rw [← hpiece, ← List.drop_eq_getElem_cons hi, List.take_append_drop]
  have hlength : (pieces.take i).length = i := List.length_take_of_le (Nat.le_of_lt hi)
  refine ⟨pieces.take i, pieces.drop (i + 1), hsplit, hlength, rfl, ?_⟩
  have hright := seam_append_right (pieces.take i) (piece :: pieces.drop (i + 1)) 1
  rwa [← hsplit, hlength, seam_succ, seam_zero, Nat.add_zero] at hright

theorem slice_seam (h : pieces[i]? = some piece) :
    slice (String.ofList pieces.flatten) ⟨seam pieces i, seam pieces (i + 1)⟩ =
      String.ofList piece := by
  obtain ⟨before, after, rfl, -, hstart, hstop⟩ := exists_split_of_getElem? h
  rw [hstart, hstop, List.flatten_append, List.flatten_cons, ← List.append_assoc]
  exact slice_ofList before.flatten piece after.flatten

/-- What stands between two seams. -/
theorem slice_seams (pieces : List (List Char)) {j k : Nat} (h : j ≤ k) :
    slice (String.ofList pieces.flatten) ⟨seam pieces j, seam pieces k⟩ =
      String.ofList ((pieces.take k).drop j).flatten := by
  have hfront : pieces.take k = pieces.take j ++ (pieces.take k).drop j := by
    have hsplit := List.take_append_drop j (pieces.take k)
    rwa [List.take_take, Nat.min_eq_left h, eq_comm] at hsplit
  have hstop : seam pieces k =
      size (pieces.take j).flatten + size ((pieces.take k).drop j).flatten := by
    rw [seam, ← size_append, ← List.flatten_append, ← hfront]
  have hwhole : pieces.flatten = (pieces.take j).flatten ++ ((pieces.take k).drop j).flatten ++
      (pieces.drop k).flatten := by
    rw [← List.flatten_append, ← hfront, ← List.flatten_append, List.take_append_drop]
  rw [hstop, hwhole]
  exact slice_ofList _ _ _

theorem splice_seam (h : pieces[i]? = some piece) (part : String) :
    splice (String.ofList pieces.flatten) ⟨seam pieces i, seam pieces (i + 1)⟩ part =
      String.ofList (pieces.set i part.toList).flatten := by
  obtain ⟨before, after, rfl, hlength, hstart, hstop⟩ := exists_split_of_getElem? h
  rw [hstart, hstop, List.flatten_append, List.flatten_cons, ← List.append_assoc, splice_ofList,
    List.set_append_right _ _ (Nat.le_of_eq hlength), hlength, Nat.sub_self, List.set_cons_zero,
    List.flatten_append, List.flatten_cons, List.append_assoc]

end RSource.Text
