import Mathlib.Tactic.Tauto
import RSource.Stub.NameTable

/-! The table of names when a file is given stubs in the place of old ones: the file then has the
names of the new stubs, and those it had besides the old ones. -/

namespace RSource

theorem StubTree.mentions_iff {t : StubTree} {name : String} :
    t.mentions name = true ↔ ∃ s ∈ t.stubs.toList, s.name = name := by
  simp only [mentions, ← Array.any_toList, List.any_eq_true, beq_iff_eq]

theorem StubTree.mentions_empty (name : String) : StubTree.empty.mentions name = false := by
  simp [mentions, empty]

namespace NameTable

variable {t : NameTable} {id i : FileId} {is : List FileId} {name : String} {old new : StubTree}
variable {P : NameTable → Prop}

theorem pairwise_insertId (h : is.Pairwise (· < ·)) : (insertId id is).Pairwise (· < ·) := by
  induction is with
  | nil => exact List.pairwise_singleton _ _
  | cons j js ih =>
    obtain ⟨hj, hjs⟩ := List.pairwise_cons.mp h
    simp only [insertId]
    split
    · next hlt =>
      refine List.pairwise_cons.mpr ⟨?_, h⟩
      intro k hk
      rcases List.mem_cons.mp hk with rfl | hk
      · exact hlt
      · exact Nat.lt_trans hlt (hj k hk)
    · split
      · exact h
      · next hnot hne =>
        refine List.pairwise_cons.mpr ⟨?_, ih hjs⟩
        intro k hk
        rcases mem_insertId.mp hk with rfl | hk
        · exact Nat.lt_of_le_of_ne (Nat.le_of_not_lt hnot) (Ne.symm hne)
        · exact hj k hk

theorem mem_filesOf_linked (ss : List Stub) (t : NameTable) :
    i ∈ (ss.foldl (fun t s => t.link id s.name) t).filesOf name ↔
      (i = id ∧ ∃ s ∈ ss, s.name = name) ∨ i ∈ t.filesOf name := by
  induction ss generalizing t with
  | nil => simp
  | cons s ss ih =>
    rw [List.foldl_cons, ih, filesOf_link]
    by_cases hname : s.name = name
    · simp only [hname, if_true, mem_insertId, List.mem_cons, exists_eq_or_imp, true_or]
      tauto
    · simp [hname]

theorem mem_filesOf_unlinked (ss : List Stub) (t : NameTable) :
    i ∈ (ss.foldl (fun t s => if new.mentions s.name then t else t.unlink id s.name)
        t).filesOf name ↔
      i ∈ t.filesOf name ∧
        ¬ (i = id ∧ (∃ s ∈ ss, s.name = name) ∧ new.mentions name = false) := by
  induction ss generalizing t with
  | nil => simp
  | cons s ss ih =>
    rw [List.foldl_cons, ih]
    -- Other stubs of `ss` may have the name of `s`; unlinking it twice is unlinking it once.
    by_cases hname : s.name = name
    · subst hname
      cases hnew : new.mentions s.name with
      | true => simp
      | false =>
        simp only [Bool.false_eq_true, if_false, filesOf_unlink, if_true, List.mem_filter,
          List.mem_cons, exists_eq_or_imp, true_or, bne_iff_ne]
        tauto
    · split
      · simp [hname]
      · simp [filesOf_unlink, hname]

/-- What links and unlinks keep is kept when stubs are replaced. -/
theorem replace_keeps (hlink : ∀ t name, P t → P (t.link id name))
    (hunlink : ∀ t name, P t → P (t.unlink id name)) (h : P t) : P (t.replace id old new) := by
  rw [replace, ← Array.foldl_toList, ← Array.foldl_toList]
  -- All new names are linked before any old one is unlinked.
  have hlinked : P (new.stubs.toList.foldl (fun t s => t.link id s.name) t) := by
    induction new.stubs.toList generalizing t with
    | nil => exact h
    | cons s ss ih => exact ih (hlink t s.name h)
  generalize new.stubs.toList.foldl (fun t s => t.link id s.name) t = linked at hlinked
  induction old.stubs.toList generalizing linked with
  | nil => exact hlinked
  | cons s ss ih =>
    refine ih _ ?_
    show P (if new.mentions s.name then linked else linked.unlink id s.name)
    split
    · exact hlinked
    · exact hunlink linked s.name hlinked

theorem pairwise_filesOf_replace (h : ∀ name, (t.filesOf name).Pairwise (· < ·)) (name : String) :
    ((t.replace id old new).filesOf name).Pairwise (· < ·) := by
  refine replace_keeps (P := fun t => ∀ name, (t.filesOf name).Pairwise (· < ·)) ?_ ?_ h name
  · intro t n ht name
    rw [filesOf_link]
    split
    · exact pairwise_insertId (ht name)
    · exact ht name
  · intro t n ht name
    rw [filesOf_unlink]
    split
    · exact (ht name).filter _
    · exact ht name

/-- When the file had the names of the old stubs, it has those of the new ones. -/
theorem mem_filesOf_replace (h : id ∈ t.filesOf name ↔ old.mentions name = true) :
    i ∈ (t.replace id old new).filesOf name ↔
      if i = id then new.mentions name = true else i ∈ t.filesOf name := by
  rw [replace, ← Array.foldl_toList, ← Array.foldl_toList, mem_filesOf_unlinked,
    mem_filesOf_linked, ← StubTree.mentions_iff, ← StubTree.mentions_iff]
  by_cases hi : i = id
  · subst hi
    rw [if_pos rfl, h]
    cases old.mentions name <;> cases new.mentions name <;> simp
  · simp [hi]

end NameTable

end RSource
