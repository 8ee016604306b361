import Mathlib.Data.String.Basic
import RSource.Text.Slice

/-! Pieces of a text that is given as characters in three parts: the middle is the slice between the
sizes, and replacing it leaves the other two.  Any slice has only characters of the text. -/

namespace RSource.Text

theorem size_eq_utf8Len (cs : List Char) : size cs = String.utf8Len cs := by
  rw [size_eq_byteLength, byteLength, String.utf8ByteSize_ofList]

variable (before middle after : List Char)

theorem isBoundary_ofList : isBoundary (String.ofList (before ++ after)) (size before) = true := by
  rw [isBoundary, String.Pos.Raw.isValid_eq_true_iff, String.Pos.Raw.isValid_iff_exists_append]
  refine ⟨String.ofList before, String.ofList after, String.ofList_append.symm ▸ rfl, ?_⟩
  simp [size_eq_utf8Len]

theorem slice?_ofList :
    slice? (String.ofList (before ++ middle ++ after)) ⟨size before, size before + size middle⟩ =
      some (String.ofList middle) := by
  have hstart : isBoundary (String.ofList (before ++ middle ++ after)) (size before) = true := by
    rw [List.append_assoc]
    exact isBoundary_ofList before _
  have hstop : isBoundary (String.ofList (before ++ middle ++ after))
      (size before + size middle) = true := by
    rw [← size_append]
    exact isBoundary_ofList _ after
  rw [slice?, if_pos ⟨Nat.le_add_right _ _, hstart, hstop⟩, size_eq_utf8Len, size_eq_utf8Len]
  exact congrArg some (String.extract_of_valid before middle after)

theorem slice_ofList :
    slice (String.ofList (before ++ middle ++ after)) ⟨size before, size before + size middle⟩ =
      String.ofList middle := by
  rw [slice, slice?_ofList, Option.getD_some]

theorem splice_ofList (part : String) :
    splice (String.ofList (before ++ middle ++ after)) ⟨size before, size before + size middle⟩
        part =
      String.ofList (before ++ part.toList ++ after) := by
  have hfirst := slice_ofList [] before (middle ++ after)
  have hlast := slice_ofList (before ++ middle) after []
  have hlength : byteLength (String.ofList (before ++ middle ++ after)) =
      size before + size middle + size after := by
    rw [← size_eq_byteLength, size_append, size_append]
  simp only [List.nil_append, size_nil, Nat.zero_add, List.append_nil, size_append,
    ← List.append_assoc] at hfirst hlast
  rw [splice, hfirst, hlength, hlast, String.ofList_append, String.ofList_append,
    String.ofList_toList]

/-! ### Any slice -/

theorem size_le_of_sublist {cs ds : List Char} (h : cs.Sublist ds) : size cs ≤ size ds := by
  induction h with
  | slnil => exact Nat.le_refl _
  | cons d _ ih => exact Nat.le_trans ih (Nat.le_add_left _ _)
  | cons_cons d _ ih => exact Nat.add_le_add_left ih _

theorem extract_go₂_sublist (cs : List Char) (i e : String.Pos.Raw) :
    (String.Pos.Raw.extract.go₂ cs i e).Sublist cs := by
  induction cs generalizing i with
  | nil => exact .slnil
  | cons c cs ih =>
    rw [String.Pos.Raw.extract.go₂]
    split
    · exact List.nil_sublist _
    · exact (ih _).cons_cons c

theorem extract_go₁_sublist (cs : List Char) (i b e : String.Pos.Raw) :
    (String.Pos.Raw.extract.go₁ cs i b e).Sublist cs := by
  induction cs generalizing i with
  | nil => exact .slnil
  | cons c cs ih =>
    rw [String.Pos.Raw.extract.go₁]
    split
    · exact extract_go₂_sublist _ _ _
    · exact (ih _).cons c

theorem slice?_sublist {text part : String} {s : Span} (h : slice? text s = some part) :
    part.toList.Sublist text.toList := by
  rw [slice?] at h
  split at h
  · obtain rfl := Option.some.inj h
    rw [String.Pos.Raw.extract]
    split
    · exact List.nil_sublist _
    · rw [String.toList_ofList]
      exact extract_go₁_sublist _ _ _ _
  · cases h

theorem slice_sublist (text : String) (s : Span) :
    (slice text s).toList.Sublist text.toList := by
  rw [slice]
  cases h : slice? text s with
  | none => exact List.nil_sublist _
  | some part => exact slice?_sublist h

end RSource.Text
