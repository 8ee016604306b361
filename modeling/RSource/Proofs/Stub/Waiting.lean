import RSource.Proofs.Stub.History

/-! Files whose source has changed.  An indexed file is put in the queue again and waits there until
something is done with it.  A file that is not indexed is left as it is: when it waits already it
goes on waiting, but when the queue has given it out it does not come back. -/

namespace RSource.StubIndex

variable {x y : StubIndex} {id : FileId} {op : Operation}

/-- The operation is none that indexes or removes the file, and takes nothing from the queue. -/
def Operation.Spares (id : FileId) : Operation → Prop
  | .register _ | .invalidate _ => True
  | .index i _ _ | .commit i _ | .remove i => i ≠ id
  | .next | .drain => False

instance (id : FileId) (op : Operation) : Decidable (op.Spares id) := by
  cases op <;> rw [Operation.Spares] <;> infer_instance

theorem mem_drain_iff : id ∈ x.drain.1 ↔ id ∈ x.queue ∧ x.state? id = some .unindexed := by
  rw [drain, List.mem_eraseDups, List.mem_filter, decide_eq_true_eq]

/-! ### The file -/

theorem state?_invalidate (h : x.invalidate id = .ok y) : y.state? id = some .unindexed := by
  rw [state?, file?_invalidate h, if_pos rfl, Option.map_map]
  cases hfile : x.file? id with
  | none =>
    rw [invalidate, hfile] at h
    cases h
  | some file => rfl

theorem state?_apply (hop : op.Spares id) (h : x.state? id = some .unindexed) :
    (op.apply x).state? id = some .unindexed := by
  -- Only `register` and `invalidate` may be about the file, and neither indexes it.
  have hother : op.file? ≠ some id → (op.apply x).state? id = some .unindexed := fun hne => by
    rw [state?, file?_apply x hne]
    exact h
  cases op with
  | register i =>
    by_cases hi : i = id
    · subst hi
      obtain ⟨file, hfile, hstate⟩ := Option.map_eq_some_iff.mp h
      rw [Operation.apply, state?, file?_register, if_pos rfl, hfile]
      exact congrArg some hstate
    · exact hother fun h => hi (Option.some.inj h)
  | invalidate i =>
    by_cases hi : i = id
    · subst hi
      rw [Operation.apply]
      cases hy : x.invalidate i with
      | ok y => exact state?_invalidate hy
      | error e => exact h
    · exact hother fun h => hi (Option.some.inj h)
  | index i text limit => exact hother fun h => hop (Option.some.inj h)
  | commit i stubs => exact hother fun h => hop (Option.some.inj h)
  | remove i => exact hother fun h => hop (Option.some.inj h)
  | next => exact hop.elim
  | drain => exact hop.elim

/-! ### The queue -/

theorem mem_queue_register (x : StubIndex) (i : FileId) :
    id ∈ (x.register i).queue ↔ id ∈ x.queue ∨ (id = i ∧ x.state? id = none) := by
  rw [register]
  split
  · next hsome =>
    refine ⟨.inl, fun h => h.elim (fun h => h) ?_⟩
    rintro ⟨rfl, hnone⟩
    rw [Option.map_eq_none_iff.mp hnone] at hsome
    cases hsome
  · next hnone =>
    rw [List.mem_append, List.mem_singleton]
    refine or_congr_right ⟨?_, And.left⟩
    rintro rfl
    exact ⟨rfl, Option.map_eq_none_iff.mpr (Option.not_isSome_iff_eq_none.mp hnone)⟩

theorem mem_queue_invalidate {i : FileId} (h : x.invalidate i = .ok y) :
    id ∈ y.queue ↔ id ∈ x.queue ∨ (id = i ∧ x.state? id = some .indexed) := by
  rw [invalidate] at h
  split at h
  · cases h
  next file hfile =>
  have hstate : x.state? i = some file.state := congrArg (Option.map _) hfile
  split at h
  · next hindexed =>
    obtain rfl := Except.ok.inj h
    rw [List.mem_append, List.mem_singleton]
    refine or_congr_right ⟨?_, And.left⟩
    rintro rfl
    exact ⟨rfl, hindexed ▸ hstate⟩
  · next hunindexed =>
    obtain rfl := Except.ok.inj h
    refine ⟨.inl, fun h => h.elim (fun h => h) ?_⟩
    rintro ⟨rfl, hindexed⟩
    rw [hstate, hunindexed] at hindexed
    cases hindexed

theorem mem_queue_apply (hop : op.Spares id) (h : x.state? id = some .unindexed) :
    id ∈ (op.apply x).queue ↔ id ∈ x.queue := by
  have hregister (i : FileId) : id ∈ (x.register i).queue ↔ id ∈ x.queue := by
    rw [mem_queue_register, h]
    simp
  cases op with
  | register i => exact hregister i
  | invalidate i =>
    rw [Operation.apply]
    cases hy : x.invalidate i with
    | ok y =>
      simp only [mem_queue_invalidate hy, h]
      simp
    | error e => exact Iff.rfl
  | index i text limit =>
    rw [index_eq]
    cases StubTree.ofSource text limit with
    | ok stubs => exact hregister i
    | error e => exact hregister i
  | commit i stubs => exact hregister i
  | remove i => exact Iff.rfl
  | next => exact hop.elim
  | drain => exact hop.elim

theorem waiting_foldl {ops : List Operation} (hops : ∀ op ∈ ops, op.Spares id)
    (h : x.state? id = some .unindexed) :
    (ops.foldl Operation.apply x).state? id = some .unindexed ∧
      (id ∈ (ops.foldl Operation.apply x).queue ↔ id ∈ x.queue) := by
  induction ops generalizing x with
  | nil => exact ⟨h, Iff.rfl⟩
  | cons op ops ih =>
    obtain ⟨hop, hops⟩ := List.forall_mem_cons.mp hops
    obtain ⟨hstate, hqueue⟩ := ih hops (state?_apply hop h)
    exact ⟨hstate, hqueue.trans (mem_queue_apply hop h)⟩

/-- A file whose source has changed is not indexed until something is done with it.  The queue gives
it out just when it was indexed before the change, or was waiting already. -/
theorem drain_after_invalidate (h : x.invalidate id = .ok y) {ops : List Operation}
    (hops : ∀ op ∈ ops, op.Spares id) :
    (ops.foldl Operation.apply y).state? id = some .unindexed ∧
      (id ∈ (ops.foldl Operation.apply y).drain.1 ↔
        x.state? id = some .indexed ∨ id ∈ x.queue) := by
  obtain ⟨hstate, hqueue⟩ := waiting_foldl hops (state?_invalidate h)
  refine ⟨hstate, ?_⟩
  rw [mem_drain_iff, hqueue, mem_queue_invalidate h]
  simp [hstate, or_comm]

/-- What waits goes on waiting, although it is not put in the queue a second time. -/
theorem drain_after_invalidate_waiting : ∃ y, (run [.register 1]).invalidate 1 = .ok y ∧
    (∀ op ∈ [Operation.register 2, .invalidate 1], op.Spares 1) ∧
    1 ∈ ([Operation.register 2, .invalidate 1].foldl Operation.apply y).drain.1 := by
  have hops : ∀ op ∈ [Operation.register 2, .invalidate 1], op.Spares 1 := by decide
  have hy : (run [.register 1]).invalidate 1 = .ok (run [.register 1]) := rfl
  exact ⟨_, hy, hops, (drain_after_invalidate hy hops).2.mpr (.inr (by decide))⟩

/-- A change after the queue has given the file out is lost: the file is not indexed, and the queue
does not give it out again. -/
theorem invalidate_after_drain : ¬∀ (history ops : List Operation) (id : FileId) (y : StubIndex),
    (run history).invalidate id = .ok y → (∀ op ∈ ops, op.Spares id) →
      (ops.foldl Operation.apply y).state? id = some .unindexed ∧
        id ∈ (ops.foldl Operation.apply y).drain.1 := by
  intro h
  have hwaits := (h [.register 1, .drain] [] 1 _ rfl (fun _ h => (nomatch h))).2
  exact absurd hwaits (by decide)

end RSource.StubIndex
