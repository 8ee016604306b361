import RSource.Proofs.Stub.Stored
import RSource.Store.Basic

/-! Entries of a store as bytes.  An entry is read back from what it is written as, and bytes hold
the stubs of a source just when everything in them is in order: the entry can be read, it names the
source, it has the hash, and its stubs can be read. -/

namespace RSource.StoreEntry

variable {bytes : Bytes} {source : String} {hash : ContentHash} {stubs : StubTree} {e : StoreEntry}

/-- The lengths of an entry can be written. -/
structure Fits (e : StoreEntry) : Prop where
  source : Text.byteLength e.source < Bytes.capacity 8
  stubs : e.stubs.length < Bytes.capacity 8

theorem undoes_reader : Reader.Undoes reader write Fits := by
  have hhash (h : ContentHash) : h.value.toNat < Bytes.capacity 8 := UInt64.toNat_lt h.value
  intro bytes e rest
  simp only [reader, Reader.run_bind_eq_ok_iff, Reader.run_pure_eq_ok_iff,
    Reader.undoes_text.run_eq_ok_iff, (Reader.undoes_number 8).run_eq_ok_iff,
    Reader.undoes_bytes.run_eq_ok_iff]
  constructor
  · rintro ⟨source, _, ⟨hsource, rfl⟩, n, _, ⟨hn, rfl⟩, stubs, _, ⟨hstubs, rfl⟩, rfl, rfl⟩
    refine ⟨⟨hsource, hstubs⟩, ?_⟩
    have hvalue : (UInt64.ofNat n).toNat = n := by
      rw [UInt64.toNat_ofNat']
      exact Nat.mod_eq_of_lt hn
    simp only [write, hvalue, List.append_assoc]
  · rintro ⟨⟨hsource, hstubs⟩, rfl⟩
    refine ⟨e.source, _, ⟨hsource, by simp only [write, List.append_assoc]⟩, _, _,
      ⟨hhash e.hash, rfl⟩, e.stubs, rest, ⟨hstubs, rfl⟩, ?_, rfl⟩
    rw [UInt64.ofNat_toNat]

theorem read_write (h : e.Fits) : read e.write = .ok e := by
  have hrun := undoes_reader.run_eq_ok_iff.mpr ⟨h, (List.append_nil e.write).symm⟩
  rw [read, hrun]

/-! ### What bytes are good for -/

/-- The bytes hold stubs of a text of the source. -/
def Valid (bytes : Bytes) (source : String) (hash : ContentHash) (stubs : StubTree) : Prop :=
  ∃ e, read bytes = .ok e ∧ e.source = source ∧ e.hash = hash ∧ StubTree.decode e.stubs = .ok stubs

/-- The bytes are no entry, or one of the text of the source without stubs in it. -/
def Corrupt (bytes : Bytes) (source : String) (hash : ContentHash) : Prop :=
  (∃ cause, read bytes = .error cause) ∨
    ∃ e cause, read bytes = .ok e ∧ e.source = source ∧ e.hash = hash ∧
      StubTree.decode e.stubs = .error cause

theorem stubsFor_of_valid (h : Valid bytes source hash stubs) :
    stubsFor bytes source hash = .ok (some stubs) := by
  obtain ⟨e, hread, rfl, rfl, hdecode⟩ := h
  simp only [stubsFor, hread, bind, Except.bind, ne_eq, not_true_eq_false, or_self, if_false,
    hdecode]
  rfl

theorem stubsFor_of_corrupt (h : Corrupt bytes source hash) :
    ∃ cause, stubsFor bytes source hash = .error cause := by
  rcases h with ⟨cause, hread⟩ | ⟨e, cause, hread, rfl, rfl, hdecode⟩
  · exact ⟨cause, by rw [stubsFor, hread]; rfl⟩
  · refine ⟨cause, ?_⟩
    simp only [stubsFor, hread, bind, Except.bind, ne_eq, not_true_eq_false, or_self, if_false,
      hdecode]

theorem stubsFor_of_not (hvalid : ∀ stubs, ¬Valid bytes source hash stubs)
    (hcorrupt : ¬Corrupt bytes source hash) : stubsFor bytes source hash = .ok none := by
  cases hread : read bytes with
  | error cause => exact absurd (.inl ⟨cause, hread⟩) hcorrupt
  | ok e =>
    have hother : e.source ≠ source ∨ e.hash ≠ hash := by
      by_contra hsame
      obtain ⟨hsource, hhash⟩ := not_or.mp hsame
      rw [not_not] at hsource hhash
      cases hdecode : StubTree.decode e.stubs with
      | ok stubs => exact hvalid stubs ⟨e, hread, hsource, hhash, hdecode⟩
      | error cause => exact hcorrupt (.inr ⟨e, cause, hread, hsource, hhash, hdecode⟩)
    simp only [stubsFor, hread, bind, Except.bind, if_pos hother]
    rfl

theorem not_corrupt_of_valid (h : Valid bytes source hash stubs) : ¬Corrupt bytes source hash := by
  intro hcorrupt
  obtain ⟨cause, herror⟩ := stubsFor_of_corrupt hcorrupt
  rw [stubsFor_of_valid h] at herror
  cases herror

theorem stubsFor_eq_some_iff :
    stubsFor bytes source hash = .ok (some stubs) ↔ Valid bytes source hash stubs := by
  refine ⟨fun h => ?_, stubsFor_of_valid⟩
  by_cases hcorrupt : Corrupt bytes source hash
  · obtain ⟨cause, herror⟩ := stubsFor_of_corrupt hcorrupt
    rw [herror] at h
    cases h
  · by_contra hnot
    rw [stubsFor_of_not (fun u hu => ?_) hcorrupt] at h
    · cases h
    · rw [stubsFor_of_valid hu] at h
      obtain rfl := Option.some.inj (Except.ok.inj h)
      exact hnot hu

/-- The entry of stubs holds them. -/
theorem valid_ofStubs (hsource : Text.byteLength source < Bytes.capacity 8)
    (hlength : stubs.encode.length < Bytes.capacity 8)
    (hdecode : StubTree.decode stubs.encode = .ok stubs) :
    Valid (ofStubs source hash stubs).write source hash stubs :=
  ⟨_, read_write ⟨hsource, hlength⟩, rfl, rfl, hdecode⟩

/-- What is written for stubs is good for nothing else. -/
theorem eq_of_valid_ofStubs {name : String} {hash' : ContentHash} {u : StubTree}
    (hsource : Text.byteLength source < Bytes.capacity 8)
    (hlength : stubs.encode.length < Bytes.capacity 8)
    (hdecode : StubTree.decode stubs.encode = .ok stubs)
    (h : Valid (ofStubs source hash stubs).write name hash' u) :
    name = source ∧ hash' = hash ∧ u = stubs := by
  obtain ⟨e, hread, rfl, rfl, hu⟩ := h
  rw [read_write ⟨hsource, hlength⟩] at hread
  obtain rfl := Except.ok.inj hread
  exact ⟨rfl, rfl, Except.ok.inj (hu.symm.trans hdecode)⟩

end RSource.StoreEntry
