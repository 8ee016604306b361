import Mathlib.Data.List.Sort
import RSource.Proofs.Stub.Names
import RSource.Stub.Index

/-! What every change of an index keeps: the table of names lists a file under a name just when the
stubs of the file mention the name.  So a query by name finds what a scan of all files finds. -/

namespace RSource

namespace StubIndex

variable {x y : StubIndex} {id j : FileId} {stubs : StubTree} {p : Stub → Bool} {name : String}

/-! ### Files -/

theorem find?_put (file : IndexedFile) (fs : List IndexedFile) (j : FileId) :
    (put file fs).find? (·.id == j) = if file.id = j then some file else fs.find? (·.id == j) := by
  induction fs with
  | nil =>
    rw [put, List.find?_singleton]
    by_cases hj : file.id = j <;> simp [hj]
  | cons f fs ih =>
    simp only [put]
    split
    · by_cases hj : file.id = j <;> simp [hj]
    · split
      · next hid => by_cases hj : file.id = j <;> simp [← hid, hj]
      · next hid =>
        by_cases hf : f.id = j
        · have hj : ¬ file.id = j := fun h => hid (h.trans hf.symm)
          simp [hf, hj]
        · simp [hf, ih]

theorem ids_put (file : IndexedFile) (fs : List IndexedFile) :
    (put file fs).map IndexedFile.id = NameTable.insertId file.id (fs.map IndexedFile.id) := by
  induction fs with
  | nil => rfl
  | cons f fs ih =>
    simp only [put, List.map_cons, NameTable.insertId]
    split
    · rfl
    · split
      · next hid => rw [List.map_cons, hid]
      · rw [List.map_cons, ih]

theorem id_of_file? {file : IndexedFile} (h : x.file? id = some file) : file.id = id := by
  have hid := List.find?_some h
  simpa using hid

theorem mem_ids_iff : id ∈ x.ids ↔ (x.stubs? id).isSome = true := by
  simp [ids, stubs?, file?]

theorem committed_of_not_mem_ids (h : id ∉ x.ids) : x.committed id = .empty := by
  rw [mem_ids_iff, Option.not_isSome_iff_eq_none] at h
  rw [committed, h, Option.getD_none]

/-! ### What an operation does to the files -/

theorem file?_register (x : StubIndex) (id j : FileId) :
    (x.register id).file? j =
      if id = j then some ((x.file? id).getD ⟨id, .unindexed, .empty⟩) else x.file? j := by
  rw [register]
  split
  · next hsome =>
    obtain ⟨file, hfile⟩ := Option.isSome_iff_exists.mp hsome
    by_cases hj : id = j
    · rw [if_pos hj, ← hj, hfile, Option.getD_some]
    · rw [if_neg hj]
  · next hnone =>
    rw [file?, find?_put, Option.not_isSome_iff_eq_none.mp hnone, Option.getD_none]
    rfl

theorem committed_register (x : StubIndex) (id j : FileId) :
    (x.register id).committed j = x.committed j := by
  rw [committed, stubs?, file?_register]
  by_cases hj : id = j
  · subst hj
    rw [if_pos rfl, committed, stubs?]
    cases x.file? id <;> rfl
  · rw [if_neg hj]
    rfl

/-- A file that is put after it is registered is put among the others. -/
theorem file?_put_register (x : StubIndex) (file : IndexedFile) (names : NameTable)
    (queue : List FileId) (j : FileId) :
    (StubIndex.mk (put file (x.register file.id).files) names queue).file? j =
      if file.id = j then some file else x.file? j := by
  rw [file?, find?_put]
  by_cases hj : file.id = j
  · rw [if_pos hj, if_pos hj]
  · rw [if_neg hj, if_neg hj]
    exact (file?_register x file.id j).trans (if_neg hj)

theorem file?_commit (x : StubIndex) (id j : FileId) (stubs : StubTree) :
    (x.commit id stubs).file? j = if id = j then some ⟨id, .indexed, stubs⟩ else x.file? j :=
  file?_put_register x ⟨id, .indexed, stubs⟩ _ _ j

theorem file?_abandon (x : StubIndex) (id j : FileId) :
    (x.abandon id).file? j =
      if id = j then some ⟨id, .unindexed, x.committed id⟩ else x.file? j := by
  rw [← committed_register x id id]
  exact file?_put_register x ⟨id, .unindexed, (x.register id).committed id⟩ _ _ j

theorem file?_invalidate (h : x.invalidate id = .ok y) (j : FileId) :
    y.file? j =
      if id = j then (x.file? id).map ({ · with state := .unindexed }) else x.file? j := by
  rw [invalidate] at h
  cases hfile : x.file? id with
  | none => simp [hfile] at h
  | some file =>
    obtain ⟨fileId, state, stubs⟩ := file
    obtain rfl : fileId = id := id_of_file? hfile
    simp only [hfile] at h
    cases state with
    | indexed =>
      obtain rfl := Except.ok.inj h
      exact find?_put _ _ _
    | unindexed =>
      obtain rfl := Except.ok.inj h
      by_cases hj : fileId = j
      · rw [if_pos hj, ← hj, hfile]
        rfl
      · rw [if_neg hj]

theorem stubs?_commit (x : StubIndex) (id j : FileId) (stubs : StubTree) :
    (x.commit id stubs).stubs? j = if id = j then some stubs else x.stubs? j := by
  rw [stubs?, file?_commit, stubs?]
  split <;> rfl

theorem stubs?_invalidate (h : x.invalidate id = .ok y) (i : FileId) :
    y.stubs? i = x.stubs? i := by
  rw [stubs?, file?_invalidate h, stubs?]
  split
  · next heq =>
    rw [heq, Option.map_map]
    rfl
  · rfl

theorem file?_remove (x : StubIndex) (id j : FileId) :
    (x.remove id).file? j = if id = j then none else x.file? j := by
  rw [remove, file?, List.find?_filter]
  by_cases hj : id = j
  · simp [hj]
  · rw [if_neg hj, file?]
    congr 1
    funext file
    by_cases hfile : file.id = j
    · simp [hfile, Ne.symm hj]
    · simp [hfile]

/-! ### The table of names -/

/-- The files stand in order, and the table lists a file under a name just when its stubs mention
the name. -/
structure Sound (x : StubIndex) : Prop where
  ids : x.ids.Pairwise (· < ·)
  sorted : ∀ name, (x.names.filesOf name).Pairwise (· < ·)
  mem : ∀ name id, id ∈ x.names.filesOf name ↔ (x.committed id).mentions name = true

theorem sound_empty : empty.Sound :=
  ⟨.nil, fun name => (NameTable.filesOf_empty name).symm ▸ .nil, fun name id => by
    simp [empty, committed, stubs?, file?, StubTree.mentions_empty]⟩

theorem pairwise_ids_put (h : x.ids.Pairwise (· < ·)) (file : IndexedFile) :
    ((put file x.files).map IndexedFile.id).Pairwise (· < ·) := by
  rw [ids_put]
  exact NameTable.pairwise_insertId h

theorem pairwise_ids_register (h : x.ids.Pairwise (· < ·)) (id : FileId) :
    (x.register id).ids.Pairwise (· < ·) := by
  rw [register]
  split
  · exact h
  · exact pairwise_ids_put h _

theorem names_register (x : StubIndex) (id : FileId) : (x.register id).names = x.names := by
  rw [register]
  split <;> rfl

/-- Nothing is to be shown of the table when no file gets other stubs. -/
theorem Sound.of_names_eq (h : x.Sound) (hids : y.ids.Pairwise (· < ·)) (hnames : y.names = x.names)
    (hcommitted : ∀ id, y.committed id = x.committed id) : y.Sound := by
  refine ⟨hids, fun name => ?_, fun name id => ?_⟩
  · rw [hnames]
    exact h.sorted name
  · rw [hnames, hcommitted]
    exact h.mem name id

/-- When the stubs of a file change, its names are replaced. -/
theorem Sound.of_replace (h : x.Sound) (hids : y.ids.Pairwise (· < ·)) (id : FileId)
    (hnames : y.names = x.names.replace id (x.committed id) (y.committed id))
    (hcommitted : ∀ j, id ≠ j → y.committed j = x.committed j) : y.Sound := by
  refine ⟨hids, fun name => ?_, fun name j => ?_⟩
  · rw [hnames]
    exact NameTable.pairwise_filesOf_replace h.sorted name
  · rw [hnames, NameTable.mem_filesOf_replace (h.mem name id)]
    split
    · next hj => rw [hj]
    · next hj => rw [hcommitted j (Ne.symm hj), h.mem name j]

theorem Sound.register (h : x.Sound) (id : FileId) : (x.register id).Sound :=
  h.of_names_eq (pairwise_ids_register h.ids id) (names_register x id) (committed_register x id)

theorem committed_of_file?_eq_ite {file : Option IndexedFile}
    (h : ∀ j, y.file? j = if id = j then file else x.file? j) :
    y.committed id = (file.map IndexedFile.stubs).getD .empty ∧
      ∀ j, id ≠ j → y.committed j = x.committed j := by
  refine ⟨?_, fun j hj => ?_⟩
  · rw [committed, stubs?, h, if_pos rfl]
  · rw [committed, stubs?, h, if_neg hj, committed, stubs?]

theorem Sound.commit (h : x.Sound) (id : FileId) (stubs : StubTree) :
    (x.commit id stubs).Sound := by
  obtain ⟨hid, hother⟩ := committed_of_file?_eq_ite fun j => file?_commit x id j stubs
  refine h.of_replace (pairwise_ids_put (pairwise_ids_register h.ids id) _) id ?_ hother
  rw [hid]
  show (x.register id).names.replace id ((x.register id).committed id) stubs = _
  rw [names_register, committed_register]
  rfl

theorem Sound.abandon (h : x.Sound) (id : FileId) : (x.abandon id).Sound := by
  obtain ⟨hid, hother⟩ := committed_of_file?_eq_ite fun j => file?_abandon x id j
  refine h.of_names_eq (pairwise_ids_put (pairwise_ids_register h.ids id) _)
    (names_register x id) fun j => ?_
  by_cases hj : id = j
  · exact hj ▸ hid
  · exact hother j hj

theorem Sound.invalidate (h : x.Sound) (hy : x.invalidate id = .ok y) : y.Sound := by
  obtain ⟨hid, hother⟩ := committed_of_file?_eq_ite (file?_invalidate hy)
  have hids : y.ids.Pairwise (· < ·) ∧ y.names = x.names := by
    rw [StubIndex.invalidate] at hy
    split at hy
    · cases hy
    · split at hy
      · obtain rfl := Except.ok.inj hy
        exact ⟨pairwise_ids_put h.ids _, rfl⟩
      · obtain rfl := Except.ok.inj hy
        exact ⟨h.ids, rfl⟩
  refine h.of_names_eq hids.1 hids.2 fun j => ?_
  by_cases hj : id = j
  · subst hj
    rw [hid, Option.map_map]
    rfl
  · exact hother j hj

theorem Sound.remove (h : x.Sound) (id : FileId) : (x.remove id).Sound := by
  obtain ⟨hid, hother⟩ := committed_of_file?_eq_ite fun j => file?_remove x id j
  refine h.of_replace ?_ id ?_ hother
  · exact h.ids.sublist (List.filter_sublist.map _)
  · rw [hid]
    rfl

/-! ### Queries -/

theorem filesOf_eq (h : x.Sound) (name : String) :
    x.names.filesOf name = x.ids.filter fun id => (x.committed id).mentions name := by
  refine List.Pairwise.eq_of_mem_iff (h.sorted name) (h.ids.filter _) fun id => ?_
  rw [h.mem, List.mem_filter]
  -- A file that is not registered has no stubs, so that it mentions no name.
  refine ⟨fun hmentions => ⟨?_, hmentions⟩, And.right⟩
  by_contra hid
  rw [committed_of_not_mem_ids hid, StubTree.mentions_empty] at hmentions
  cases hmentions

theorem hitsIn_eq_nil (h : (x.committed id).mentions name = false) :
    x.hitsIn (fun stub => stub.name == name && p stub) id = [] := by
  rw [hitsIn, List.map_eq_nil_iff, StubTree.select, List.filter_eq_nil_iff]
  rintro ⟨place, stub⟩ hstub hkeep
  have hmem : stub ∈ (x.committed id).stubs.toList := by
    obtain ⟨⟨s, i⟩, hs, heq⟩ := List.mem_map.mp hstub
    obtain ⟨rfl, rfl⟩ := Prod.mk.inj heq
    exact (List.mem_zipIdx hs).2.2 ▸ List.getElem_mem _
  have hname : stub.name = name := by simpa using (Bool.and_eq_true_iff.mp hkeep).1
  rw [StubTree.mentions_iff.mpr ⟨stub, hmem, hname⟩] at h
  cases h

/-- What a query finds is what the file has there. -/
theorem getElem?_of_mem_find {hit : Hit}
    (h : hit ∈ x.find name p) : (x.committed hit.file).stubs[hit.id]? = some hit.stub := by
  obtain ⟨file, -, hmem⟩ := List.mem_flatMap.mp h
  obtain ⟨⟨place, stub⟩, hselect, rfl⟩ := List.mem_map.mp hmem
  obtain ⟨hentry, -⟩ := List.mem_filter.mp hselect
  obtain ⟨⟨stub, place⟩, hindex, ⟨⟩⟩ := List.mem_map.mp hentry
  rw [List.mk_mem_zipIdx_iff_getElem?] at hindex
  simpa using hindex

/-- A query by name finds what a scan of the files in order finds. -/
theorem find_eq_scan (h : x.Sound) (name : String) (p : Stub → Bool) :
    x.find name p = x.ids.flatMap (x.hitsIn fun stub => stub.name == name && p stub) := by
  rw [find, filesOf_eq h]
  induction x.ids with
  | nil => rfl
  | cons id ids ih =>
    rw [List.flatMap_cons, List.filter_cons]
    split
    · rw [List.flatMap_cons, ih]
    · next hnot => rw [ih, hitsIn_eq_nil (Bool.eq_false_of_not_eq_true hnot), List.nil_append]

theorem filter_hitsIn (x : StubIndex) (p : Stub → Bool) (id j : FileId) :
    (x.hitsIn p id).filter (·.file == j) = if id = j then x.hitsIn p j else [] := by
  by_cases hj : id = j
  · subst hj
    rw [if_pos rfl, List.filter_eq_self]
    intro hit hhit
    obtain ⟨s, -, rfl⟩ := List.mem_map.mp hhit
    exact beq_self_eq_true id
  · rw [if_neg hj, List.filter_eq_nil_iff]
    intro hit hhit
    obtain ⟨s, -, rfl⟩ := List.mem_map.mp hhit
    simpa using hj

/-- What a scan finds in one file is settled by the stubs of that file. -/
theorem filter_scan (h : x.Sound) (p : Stub → Bool) (j : FileId) :
    (x.ids.flatMap (x.hitsIn p)).filter (·.file == j) = x.hitsIn p j := by
  -- The numbers increase, so that a scan comes to the file once.
  have hfound : ∀ ids : List FileId, ids.Pairwise (· < ·) →
      ids.flatMap (fun id => if id = j then x.hitsIn p j else []) =
        if j ∈ ids then x.hitsIn p j else [] := by
    intro ids hids
    induction ids with
    | nil => rfl
    | cons id ids ih =>
      obtain ⟨hlt, hids⟩ := List.pairwise_cons.mp hids
      rw [List.flatMap_cons, ih hids]
      by_cases hid : id = j
      · have hnot : j ∉ ids := fun hj => Nat.lt_irrefl j (hid ▸ hlt j hj)
        simp [hid, hnot]
      · simp [hid, Ne.symm hid]
  rw [List.filter_flatMap]
  simp only [filter_hitsIn]
  rw [hfound x.ids h.ids]
  split
  · rfl
  · next hj =>
    rw [hitsIn, committed_of_not_mem_ids hj]
    rfl

end StubIndex

end RSource
