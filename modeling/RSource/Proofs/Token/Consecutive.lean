import RSource.Token.Basic

/-! Tokens that stand end to end. -/

namespace RSource

/-- Every token starts where the one before it ends; the first starts at `first` and the last ends
at `last`. -/
def Consecutive (first last : Nat) : List Token → Prop
  | [] => first = last
  | t :: ts => t.span.start = first ∧ first ≤ t.span.stop ∧ Consecutive t.span.stop last ts

variable {first last last' : Nat} {ts us : List Token}

theorem consecutive_append : Consecutive first last (ts ++ us) ↔
    ∃ mid, Consecutive first mid ts ∧ Consecutive mid last us := by
  induction ts generalizing first with
  | nil => exact ⟨fun h => ⟨first, rfl, h⟩, fun ⟨_, h, h'⟩ => h ▸ h'⟩
  | cons t ts ih =>
    rw [List.cons_append, Consecutive, ih]
    constructor
    · rintro ⟨hstart, hstop, mid, h, h'⟩
      exact ⟨mid, ⟨hstart, hstop, h⟩, h'⟩
    · rintro ⟨mid, ⟨hstart, hstop, h⟩, h'⟩
      exact ⟨hstart, hstop, mid, h, h'⟩

namespace Consecutive

theorem le (h : Consecutive first last ts) : first ≤ last := by
  induction ts generalizing first with
  | nil => exact Nat.le_of_eq h
  | cons t ts ih => exact Nat.le_trans h.2.1 (ih h.2.2)

theorem bounds (h : Consecutive first last ts) {t : Token} (ht : t ∈ ts) :
    t.span.start ≤ t.span.stop ∧ t.span.stop ≤ last := by
  induction ts generalizing first with
  | nil => cases ht
  | cons u us ih =>
    obtain ⟨hstart, hstop, hrest⟩ := h
    rcases List.mem_cons.mp ht with rfl | ht
    · exact ⟨Nat.le_trans (Nat.le_of_eq hstart) hstop, hrest.le⟩
    · exact ih hrest ht

theorem last_eq (h : Consecutive first last ts) (h' : Consecutive first last' ts) :
    last = last' := by
  induction ts generalizing first with
  | nil => exact h.symm.trans h'
  | cons t ts ih => exact ih h.2.2 h'.2.2

/-- Tokens that are not empty are no more than the bytes they cover. -/
theorem add_length_le (h : Consecutive first last ts)
    (hne : ∀ t ∈ ts, t.span.start < t.span.stop) : first + ts.length ≤ last := by
  induction ts generalizing first with
  | nil => exact Nat.le_of_eq h
  | cons t ts ih =>
    obtain ⟨ht, hts⟩ := List.forall_mem_cons.mp hne
    have hrest := ih h.2.2 hts
    have hstart := h.1
    rw [List.length_cons]
    omega

end Consecutive

end RSource
