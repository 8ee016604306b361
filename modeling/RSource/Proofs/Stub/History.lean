import Mathlib.Data.List.Induction
import RSource.Proofs.Stub.Sound

/-! Indexes after any operations.  What a file has is settled by the operations on that file, and
queries find it there. -/

namespace RSource

namespace StubIndex

variable {id : FileId} {p : Stub → Bool}

/-- A call that may change an index. -/
inductive Operation where
  | register (id : FileId)
  | index (id : FileId) (text : String) (limit : Nat)
  | commit (id : FileId) (stubs : StubTree)
  | invalidate (id : FileId)
  | remove (id : FileId)
  | next
  | drain

/-- The file an operation is on. -/
def Operation.file? : Operation → Option FileId
  | .register id | .index id _ _ | .commit id _ | .invalidate id | .remove id => some id
  | .next | .drain => none

/-- The index after an operation, which may have failed. -/
def Operation.apply (x : StubIndex) : Operation → StubIndex
  | .register id => x.register id
  | .index id text limit =>
    match x.indexSource id text limit with
    | .ok y => y
    | .error _ => x.abandon id
  | .commit id stubs => x.commit id stubs
  | .invalidate id =>
    match x.invalidate id with
    | .ok y => y
    | .error _ => x
  | .remove id => x.remove id
  | .next => x.next.2
  | .drain => x.drain.2

/-- The index after operations on an empty one. -/
def run (ops : List Operation) : StubIndex := ops.foldl Operation.apply empty

/-- What a file has after an operation on it: no stubs once it is registered, those of its last
commit, and nothing once it is removed. -/
def Operation.stubsAfter (old : Option StubTree) : Operation → Option StubTree
  | .register _ => some (old.getD .empty)
  | .index _ text limit =>
    match StubTree.ofSource text limit with
    | .ok stubs => some stubs
    | .error _ => some (old.getD .empty)
  | .commit _ stubs => some stubs
  | .invalidate _ => old
  | .remove _ => none
  | .next => old
  | .drain => old

/-- The stubs a file was last given, if it is registered, told by the operations on it alone. -/
def latest (id : FileId) (ops : List Operation) : Option StubTree :=
  (ops.filter (·.file? = some id)).foldl Operation.stubsAfter none

theorem index_eq (x : StubIndex) (id : FileId) (text : String) (limit : Nat) :
    Operation.apply x (.index id text limit) =
      match StubTree.ofSource text limit with
      | .ok stubs => x.commit id stubs
      | .error _ => x.abandon id := by
  rw [Operation.apply, indexSource]
  cases StubTree.ofSource text limit <;> rfl

/-- An operation leaves the other files as they are. -/
theorem file?_apply (x : StubIndex) {op : Operation} (h : op.file? ≠ some id) :
    (op.apply x).file? id = x.file? id := by
  cases op with
  | register i => exact (file?_register x i id).trans (if_neg fun hi => h (congrArg some hi))
  | index i text limit =>
    have hi : ¬ i = id := fun hi => h (congrArg some hi)
    rw [index_eq]
    cases StubTree.ofSource text limit with
    | ok stubs => exact (file?_commit x i id stubs).trans (if_neg hi)
    | error e => exact (file?_abandon x i id).trans (if_neg hi)
  | commit i stubs =>
    exact (file?_commit x i id stubs).trans (if_neg fun hi => h (congrArg some hi))
  | invalidate i =>
    rw [Operation.apply]
    cases hy : x.invalidate i with
    | ok y => exact (file?_invalidate hy id).trans (if_neg fun hi => h (congrArg some hi))
    | error e => rfl
  | remove i => exact (file?_remove x i id).trans (if_neg fun hi => h (congrArg some hi))
  | next => rfl
  | drain => rfl

theorem stubs?_apply_of_ne (x : StubIndex) {op : Operation} (h : op.file? ≠ some id) :
    (op.apply x).stubs? id = x.stubs? id := by
  rw [stubs?, file?_apply x h, stubs?]

theorem committed_apply_of_ne (x : StubIndex) {op : Operation} (h : op.file? ≠ some id) :
    (op.apply x).committed id = x.committed id := by
  rw [committed, stubs?_apply_of_ne x h, committed]

theorem stubs?_apply (x : StubIndex) {op : Operation} (h : op.file? = some id) :
    (op.apply x).stubs? id = op.stubsAfter (x.stubs? id) := by
  cases op with
  | register i =>
    obtain rfl := Option.some.inj h
    rw [Operation.apply, stubs?, file?_register, if_pos rfl, stubs?]
    cases x.file? i <;> rfl
  | index i text limit =>
    obtain rfl := Option.some.inj h
    rw [index_eq, Operation.stubsAfter]
    cases StubTree.ofSource text limit with
    | ok stubs => simp only [stubs?, file?_commit, if_true, Option.map_some]
    | error e => simp only [stubs?, file?_abandon, if_true, Option.map_some, committed]
  | commit i stubs =>
    obtain rfl := Option.some.inj h
    rw [Operation.apply, stubs?, file?_commit, if_pos rfl]
    rfl
  | invalidate i =>
    obtain rfl := Option.some.inj h
    rw [Operation.apply]
    cases hy : x.invalidate i with
    | ok y =>
      rw [stubs?, file?_invalidate hy, if_pos rfl, Option.map_map]
      rfl
    | error e => rfl
  | remove i =>
    obtain rfl := Option.some.inj h
    rw [Operation.apply, stubs?, file?_remove, if_pos rfl]
    rfl
  | next => cases h
  | drain => cases h

theorem run_concat (ops : List Operation) (op : Operation) :
    run (ops ++ [op]) = op.apply (run ops) := by
  rw [run, List.foldl_concat, run]

theorem stubs?_run (ops : List Operation) (id : FileId) : (run ops).stubs? id = latest id ops := by
  induction ops using List.reverseRecOn with
  | nil => rfl
  | append_singleton ops op ih =>
    rw [run_concat, latest, List.filter_append]
    -- The last operation is on the file and ends its history, or it leaves the file alone.
    by_cases h : op.file? = some id
    · rw [List.filter_singleton, decide_eq_true h, List.foldl_append, stubs?_apply _ h, ih]
      rfl
    · rw [List.filter_singleton, decide_eq_false h, stubs?_apply_of_ne _ h, ih, cond_false,
        List.append_nil, latest]

theorem Sound.apply (h : x.Sound) (op : Operation) : (op.apply x).Sound := by
  cases op with
  | register id => exact h.register id
  | index id text limit =>
    rw [index_eq]
    cases StubTree.ofSource text limit with
    | ok stubs => exact h.commit id stubs
    | error e => exact h.abandon id
  | commit id stubs => exact h.commit id stubs
  | invalidate id =>
    rw [Operation.apply]
    cases hy : x.invalidate id with
    | ok y => exact h.invalidate hy
    | error e => exact h
  | remove id => exact h.remove id
  | next => exact ⟨h.ids, h.sorted, h.mem⟩
  | drain => exact ⟨h.ids, h.sorted, h.mem⟩

theorem sound_run (ops : List Operation) : (run ops).Sound := by
  induction ops using List.reverseRecOn with
  | nil => exact sound_empty
  | append_singleton ops op ih =>
    rw [run_concat]
    exact ih.apply op

/-! ### Queries -/

/-- The stubs of a file that satisfy `p`, among those the file was last given. -/
def scan (ops : List Operation) (p : Stub → Bool) (id : FileId) : List Hit :=
  (((latest id ops).getD .empty).select p).map fun (place, stub) => ⟨id, place, stub⟩

theorem hitsIn_run (ops : List Operation) (p : Stub → Bool) : (run ops).hitsIn p = scan ops p := by
  funext id
  rw [hitsIn, committed, stubs?_run, scan]

/-- The state, the stubs and the answers of one file are the same in two indexes. -/
structure SameFor (id : FileId) (x y : StubIndex) : Prop where
  state : x.state? id = y.state? id
  stubs : x.stubs? id = y.stubs? id
  find : ∀ name p, (x.find name p).filter (·.file == id) = (y.find name p).filter (·.file == id)
  topLevel : x.topLevel.filter (·.file == id) = y.topLevel.filter (·.file == id)

theorem sameFor_apply {x : StubIndex} (h : x.Sound) {op : Operation} (hop : op.file? ≠ some id) :
    SameFor id (op.apply x) x := by
  have hcommitted := committed_apply_of_ne x hop
  have hhits : ∀ p, (op.apply x).hitsIn p id = x.hitsIn p id := by
    intro p
    rw [hitsIn, hcommitted, hitsIn]
  refine ⟨?_, stubs?_apply_of_ne x hop, fun name p => ?_, ?_⟩
  · rw [state?, file?_apply x hop, state?]
  · rw [find_eq_scan (h.apply op), find_eq_scan h, filter_scan (h.apply op), filter_scan h, hhits]
  · rw [topLevel, topLevel, filter_scan (h.apply op), filter_scan h, hhits]

/-- After any operations every registered file has what it was last given, queries by name find it
file by file in order, and an operation on a file changes nothing for another. -/
theorem run_queries (ops : List Operation) :
    (∀ id, (run ops).stubs? id = latest id ops) ∧
    (run ops).ids.Pairwise (· < ·) ∧
    (∀ id, id ∈ (run ops).ids ↔ (latest id ops).isSome = true) ∧
    (∀ name, (run ops).findAssignments name = (run ops).ids.flatMap
      (scan ops fun stub => stub.name == name && stub.declaration.isAssignment)) ∧
    (∀ name, (run ops).findParameters name = (run ops).ids.flatMap
      (scan ops fun stub => stub.name == name && !stub.declaration.isAssignment)) ∧
    ∀ op id, op.file? ≠ some id → SameFor id (run (ops ++ [op])) (run ops) := by
  have hsound := sound_run ops
  refine ⟨stubs?_run ops, hsound.ids, fun id => ?_, fun name => ?_, fun name => ?_,
    fun op id hop => ?_⟩
  · rw [mem_ids_iff, stubs?_run]
  · rw [findAssignments, find_eq_scan hsound, hitsIn_run]
  · rw [findParameters, find_eq_scan hsound, hitsIn_run]
  · rw [run_concat]
    exact sameFor_apply hsound hop

/-- Stubs of assignments to names. -/
def assigning (names : List String) : StubTree :=
  ⟨(names.map fun name => ⟨.assignment name false true false, none, .point 0⟩).toArray⟩

/-- A name in several files and twice in one, a file that loses it and one that is removed and comes
back. -/
def entangled : List Operation :=
  [.commit 2 (assigning ["f", "g", "f"]), .register 5, .commit 1 (assigning ["f"]), .remove 2,
    .commit 3 (assigning ["f", "f"]), .register 2, .commit 3 (assigning ["g"]),
    .commit 2 (assigning ["g", "f"]), .invalidate 1, .next]

theorem run_queries_entangled :
    (run entangled).findAssignments "f" =
      [⟨1, 0, ⟨.assignment "f" false true false, none, .point 0⟩⟩,
        ⟨2, 1, ⟨.assignment "f" false true false, none, .point 0⟩⟩] ∧
    (Operation.remove 1).file? ≠ some 2 ∧
    SameFor 2 (run (entangled ++ [.remove 1])) (run entangled) := by
  obtain ⟨-, -, -, hassignments, -, hsame⟩ := run_queries entangled
  have hother : (Operation.remove 1).file? ≠ some 2 := by decide
  refine ⟨?_, hother, hsame (.remove 1) 2 hother⟩
  rw [hassignments]
  decide +kernel

end StubIndex

end RSource
