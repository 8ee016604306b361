import Mathlib.Data.List.Forall2
import RSource.Proofs.Bytes.Reader
import RSource.Stub.Stored

/-! Stored stubs.  Reading is an exact check: it accepts the written records of well-formed stubs
and nothing else, and gives these stubs back. -/

namespace RSource

theorem TokenKind.index_of_ofIndex? {index : Nat} {kind : TokenKind}
    (h : ofIndex? index = some kind) : kind.index = index := by
  have hall : ∀ i (hi : i < all.length), all[i].index = i := by decide
  obtain ⟨hi, rfl⟩ := List.getElem?_eq_some_iff.mp h
  exact hall index hi

theorem NodeKind.tag_of_ofTag? {tag : Nat} {kind : NodeKind} (h : ofTag? tag = some kind) :
    kind.tag = tag := by
  rw [ofTag?] at h
  split at h
  · next hle =>
    obtain ⟨token, htoken, rfl⟩ := Option.map_eq_some_iff.mp h
    rw [NodeKind.tag, TokenKind.index_of_ofIndex? htoken, Nat.add_sub_cancel' hle]
  · obtain ⟨entry, hfind, rfl⟩ := Option.map_eq_some_iff.mp h
    have htag := List.find?_some hfind
    rw [beq_iff_eq] at htag
    exact (tag_productions entry (List.mem_of_find?_eq_some hfind)).1.trans htag

/-- The stub may come after these: its parent is one of them, an assignment if the stub is a
parameter, and its span does not end before it starts. -/
structure Stub.Follows (s : Stub) (before : Array Stub) : Prop where
  parent : ∀ p ∈ s.parent, p < before.size
  owner : s.declaration.isAssignment = false →
    ∃ p ∈ s.parent, ∃ owner ∈ before[p]?, owner.declaration.isAssignment = true
  span : s.span.start ≤ s.span.stop

theorem Stub.Follows.push {s : Stub} {before : Array Stub} (h : s.Follows before) (u : Stub) :
    s.Follows (before.push u) := by
  refine ⟨fun p hp => ?_, fun hd => ?_, h.span⟩
  · rw [Array.size_push]
    exact Nat.lt_succ_of_lt (h.parent p hp)
  · obtain ⟨p, hp, owner, howner, ha⟩ := h.owner hd
    refine ⟨p, hp, owner, ?_, ha⟩
    rw [Array.getElem?_push, if_neg (Nat.ne_of_lt (h.parent p hp))]
    exact howner

namespace StubRecord

/-- Every field is small enough for its place. -/
structure Fits (r : StubRecord) : Prop where
  kind : ∀ tag ∈ r.kind, tag < Bytes.capacity 2
  name : ∀ name ∈ r.name, Text.byteLength name < Bytes.capacity 8
  flags : ∀ bits ∈ r.flags, bits < Bytes.capacity 1
  parent : ∀ parent ∈ r.parent, ∀ id ∈ parent, id < Bytes.capacity 4
  start : ∀ n ∈ r.start, n < Bytes.capacity 4
  stop : ∀ n ∈ r.stop, n < Bytes.capacity 4

theorem undoes_read : Reader.Undoes read write Fits := by
  intro bytes r rest
  simp only [read, Reader.run_bind_eq_ok_iff, Reader.run_pure_eq_ok_iff,
    (Reader.undoes_option (Reader.undoes_number _)).run_eq_ok_iff,
    (Reader.undoes_option Reader.undoes_text).run_eq_ok_iff,
    (Reader.undoes_option (Reader.undoes_option (Reader.undoes_number _))).run_eq_ok_iff]
  constructor
  · rintro ⟨kind, _, ⟨hkind, rfl⟩, name, _, ⟨hname, rfl⟩, flags, _, ⟨hflags, rfl⟩,
      parent, _, ⟨hparent, rfl⟩, start, _, ⟨hstart, rfl⟩, stop, _, ⟨hstop, rfl⟩, rfl, rfl⟩
    exact ⟨⟨hkind, hname, hflags, hparent, hstart, hstop⟩, by simp only [write, List.append_assoc]⟩
  · rintro ⟨⟨hkind, hname, hflags, hparent, hstart, hstop⟩, rfl⟩
    exact ⟨_, _, ⟨hkind, by simp only [write, List.append_assoc]⟩, _, _, ⟨hname, rfl⟩,
      _, _, ⟨hflags, rfl⟩, _, _, ⟨hparent, rfl⟩, _, _, ⟨hstart, rfl⟩, _, _, ⟨hstop, rfl⟩, rfl, rfl⟩

/-- The record has every field that the stub needs, and the stub has what they say. -/
structure Carries (r : StubRecord) (s : Stub) : Prop where
  name : r.name = some s.name
  parent : r.parent = some s.parent
  start : r.start = some s.span.start
  stop : r.stop = some s.span.stop
  declaration :
    match s.declaration with
    | .assignment _ isFunction isTopLevel isRight =>
      r.kind = some (NodeKind.tag .assignmentStatement) ∧
        r.flags = some (flagBits isFunction isTopLevel isRight)
    | .parameter _ => r.kind = some (NodeKind.tag .parameter)

theorem carries_ofStub (s : Stub) : (ofStub s).Carries s := by
  obtain ⟨declaration, parent, span⟩ := s
  cases declaration with
  | assignment name isFunction isTopLevel isRight => exact ⟨rfl, rfl, rfl, rfl, rfl, rfl⟩
  | parameter name => exact ⟨rfl, rfl, rfl, rfl, rfl⟩

theorem exists_carries {records : List StubRecord} {stubs : List Stub}
    (h : List.Forall₂ Carries records stubs) {s : Stub} (hs : s ∈ stubs) :
    ∃ r ∈ records, r.Carries s := by
  induction h with
  | nil => cases hs
  | cons hr _ ih =>
    rcases List.mem_cons.mp hs with rfl | hs
    · exact ⟨_, List.mem_cons_self, hr⟩
    · obtain ⟨r, hmem, hcarries⟩ := ih hs
      exact ⟨r, List.mem_cons_of_mem _ hmem, hcarries⟩

theorem require_eq_ok_iff {α : Type} {field : Option α} {error : RecordError} {a : α} :
    require field error = .ok a ↔ field = some a := by
  cases field with
  | none => exact ⟨fun h => (nomatch h), fun h => (nomatch h)⟩
  | some b =>
    rw [require, Except.ok.injEq, Option.some.injEq]

theorem flagBits_testBit : ∀ bits < 8,
    flagBits (bits.testBit 0) (bits.testBit 1) (bits.testBit 2) = bits := by
  decide

theorem testBit_flagBits (isFunction isTopLevel isRight : Bool) :
    let bits := flagBits isFunction isTopLevel isRight
    bits < 8 ∧ bits.testBit 0 = isFunction ∧ bits.testBit 1 = isTopLevel ∧
      bits.testBit 2 = isRight := by
  cases isFunction <;> cases isTopLevel <;> cases isRight <;> decide

theorem declaration_eq_ok_iff {r : StubRecord} {before : Array Stub} {kind : NodeKind}
    {name : String} {parent : Option StubId} {d : Declaration} :
    r.declaration before kind name parent = .ok d ↔
      (kind = .assignmentStatement ∧ ∃ isFunction isTopLevel isRight,
        r.flags = some (flagBits isFunction isTopLevel isRight) ∧
        d = .assignment name isFunction isTopLevel isRight) ∨
      (kind = .parameter ∧ d = .parameter name ∧
        ∃ p ∈ parent, ∃ owner ∈ before[p]?, owner.declaration.isAssignment = true) := by
  constructor
  · intro h
    unfold declaration at h
    split at h
    · obtain ⟨bits, hflags, h⟩ := bind_eq_ok_iff.mp h
      split at h
      · next hbits =>
        refine .inl ⟨rfl, _, _, _, ?_, (Except.ok.inj h).symm⟩
        rw [flagBits_testBit bits hbits, require_eq_ok_iff.mp hflags]
      · cases h
    · split at h
      · next hany =>
        obtain ⟨owner, howner, hassignment⟩ := (Option.any_eq_true _ _).mp hany
        obtain ⟨p, hp, hbefore⟩ := Option.bind_eq_some_iff.mp howner
        exact .inr ⟨rfl, (Except.ok.inj h).symm, p, hp, owner, hbefore, hassignment⟩
      · cases h
    · cases h
  · rintro (⟨rfl, isFunction, isTopLevel, isRight, hflags, rfl⟩ |
      ⟨rfl, rfl, p, hp, owner, howner, hassignment⟩)
    · obtain ⟨hbits, h0, h1, h2⟩ := testBit_flagBits isFunction isTopLevel isRight
      refine bind_eq_ok_iff.mpr ⟨_, require_eq_ok_iff.mpr hflags, ?_⟩
      rw [if_pos hbits, h0, h1, h2]
      rfl
    · refine if_pos ((Option.any_eq_true _ _).mpr ⟨owner, ?_, hassignment⟩)
      exact Option.bind_eq_some_iff.mpr ⟨p, hp, howner⟩

theorem toStub_eq_ok_iff {r : StubRecord} {before : Array Stub} {s : Stub} :
    r.toStub before = .ok s ↔ r.Carries s ∧ s.Follows before := by
  have hlater (parent : Option StubId) : ¬parent.any (before.size ≤ ·) = true ↔
      ∀ p ∈ parent, p < before.size := by
    cases parent <;> simp
  simp only [toStub, bind_eq_ok_iff, require_eq_ok_iff, throw_or_eq_ok_iff, declaration_eq_ok_iff,
    hlater]
  constructor
  · rintro ⟨tag, hkind, kind, htag, name, hname, parent, hparent, hbefore, start, hstart, stop,
      hstop, hspan, d, hd, h⟩
    obtain rfl := Except.ok.inj h
    rw [← NodeKind.tag_of_ofTag? htag] at hkind
    have hspan := Nat.le_of_not_lt hspan
    rcases hd with ⟨rfl, isFunction, isTopLevel, isRight, hflags, rfl⟩ | ⟨rfl, rfl, howner⟩
    · exact ⟨⟨hname, hparent, hstart, hstop, hkind, hflags⟩, hbefore, fun h => (nomatch h), hspan⟩
    · exact ⟨⟨hname, hparent, hstart, hstop, hkind⟩, hbefore, fun _ => howner, hspan⟩
  · obtain ⟨d, parent, span⟩ := s
    rintro ⟨⟨hname, hparent, hstart, hstop, hd⟩, hbefore, howner, hspan⟩
    have hspan := Nat.not_lt_of_le hspan
    cases d with
    | assignment name isFunction isTopLevel isRight =>
      exact ⟨_, hd.1, _, NodeKind.ofTag?_tag _, name, hname, parent, hparent, hbefore, _, hstart, _,
        hstop, hspan, _, .inl ⟨rfl, _, _, _, hd.2, rfl⟩, rfl⟩
    | parameter name =>
      exact ⟨_, hd, _, NodeKind.ofTag?_tag _, name, hname, parent, hparent, hbefore, _, hstart, _,
        hstop, hspan, _, .inr ⟨rfl, rfl, howner rfl⟩, rfl⟩

end StubRecord

theorem StoredError.message_eq (e : StoredError) :
    e.message = "corrupt stub data: " ++ e.reason := by
  unfold StoredError.message
  exact congrArg ("corrupt stub data: " ++ ·) rfl

namespace StubTree

/-- Parents stand before their children, parameters under assignments, and no span ends before it
starts. -/
structure WellFormed (t : StubTree) : Prop where
  parent : ∀ (i : StubId) (s : Stub), t.stubs[i]? = some s → ∀ p ∈ s.parent, p < i
  owner : ∀ (i : StubId) (s : Stub), t.stubs[i]? = some s → s.declaration.isAssignment = false →
    ∃ p ∈ s.parent, ∃ owner ∈ t.stubs[p]?, owner.declaration.isAssignment = true
  span : ∀ (i : StubId) (s : Stub), t.stubs[i]? = some s → s.span.start ≤ s.span.stop

theorem wellFormed_empty : empty.WellFormed :=
  ⟨fun _ _ h => (nomatch h), fun _ _ h => (nomatch h), fun _ _ h => (nomatch h)⟩

theorem wellFormed_push_iff {before : Array Stub} {s : Stub} :
    WellFormed ⟨before.push s⟩ ↔ WellFormed ⟨before⟩ ∧ s.Follows before := by
  have hlast : (before.push s)[before.size]? = some s := Array.getElem?_push_size
  have hkeep {i : Nat} {u : Stub} (h : before[i]? = some u) : (before.push s)[i]? = some u := by
    have hi := (Array.getElem?_eq_some_iff.mp h).1
    rw [Array.getElem?_push, if_neg (Nat.ne_of_lt hi), h]
  have hcases {i : Nat} {u : Stub} (h : (before.push s)[i]? = some u) :
      (i = before.size ∧ u = s) ∨ before[i]? = some u := by
    rw [Array.getElem?_push] at h
    split at h
    · next hi => exact .inl ⟨hi, (Option.some.inj h).symm⟩
    · exact .inr h
  constructor
  · intro h
    have hparent := h.parent _ _ hlast
    -- An owner stands before what it owns, so it is in the array without its last stub.
    have howner {i p : Nat} {owner : Stub} (hi : i ≤ before.size) (hp : p < i)
        (howner : (before.push s)[p]? = some owner) : before[p]? = some owner := by
      rcases hcases howner with ⟨rfl, -⟩ | h
      · omega
      · exact h
    refine ⟨⟨fun i u hu => h.parent i u (hkeep hu), fun i u hu hd => ?_,
      fun i u hu => h.span i u (hkeep hu)⟩, hparent, fun hd => ?_, h.span _ _ hlast⟩
    · have hi := (Array.getElem?_eq_some_iff.mp hu).1
      obtain ⟨p, hp, owner, ho, ha⟩ := h.owner i u (hkeep hu) hd
      exact ⟨p, hp, owner, howner (Nat.le_of_lt hi) (h.parent i u (hkeep hu) p hp) ho, ha⟩
    · obtain ⟨p, hp, owner, ho, ha⟩ := h.owner _ _ hlast hd
      exact ⟨p, hp, owner, howner (Nat.le_refl _) (hparent p hp) ho, ha⟩
  · rintro ⟨h, hs⟩
    refine ⟨fun i u hu => ?_, fun i u hu hd => ?_, fun i u hu => ?_⟩
    · rcases hcases hu with ⟨rfl, rfl⟩ | hu
      · exact hs.parent
      · exact h.parent i u hu
    · have howner :
          ∃ p ∈ u.parent, ∃ owner ∈ before[p]?, owner.declaration.isAssignment = true := by
        rcases hcases hu with ⟨rfl, rfl⟩ | hu
        · exact hs.owner hd
        · exact h.owner i u hu hd
      obtain ⟨p, hp, owner, ho, ha⟩ := howner
      exact ⟨p, hp, owner, hkeep ho, ha⟩
    · rcases hcases hu with ⟨rfl, rfl⟩ | hu
      · exact hs.span
      · exact h.span i u hu

theorem WellFormed.append {before : Array Stub} {stubs : List Stub} (h : WellFormed ⟨before⟩)
    (hstubs : ∀ s ∈ stubs, s.Follows before) : WellFormed ⟨before ++ stubs⟩ := by
  induction stubs generalizing before with
  | nil => rwa [Array.appendList_nil]
  | cons s stubs ih =>
    obtain ⟨hs, hstubs⟩ := List.forall_mem_cons.mp hstubs
    rw [Array.appendList_cons]
    exact ih (wellFormed_push_iff.mpr ⟨h, hs⟩) fun u hu => (hstubs u hu).push s

theorem WellFormed.of_append {before : Array Stub} {stubs : List Stub}
    (h : WellFormed ⟨before ++ stubs⟩) : WellFormed ⟨before⟩ := by
  induction stubs generalizing before with
  | nil => rwa [Array.appendList_nil] at h
  | cons s stubs ih => exact (wellFormed_push_iff.mp (ih (by rwa [Array.appendList_cons] at h))).1

theorem ofRecords_eq_ok_iff {before : Array Stub} (hbefore : WellFormed ⟨before⟩)
    {records : List StubRecord} {t : StubTree} :
    ofRecords before records = .ok t ↔ t.WellFormed ∧
      ∃ stubs : List Stub, t.stubs = before ++ stubs ∧
        List.Forall₂ StubRecord.Carries records stubs := by
  -- A record is checked against the stubs before it, which are well-formed at every step.
  induction records generalizing before with
  | nil =>
    rw [ofRecords, Except.ok.injEq]
    constructor
    · rintro rfl
      exact ⟨hbefore, [], Array.appendList_nil.symm, .nil⟩
    · rintro ⟨-, stubs, hstubs, hcarries⟩
      obtain rfl := List.forall₂_nil_left_iff.mp hcarries
      rw [Array.appendList_nil] at hstubs
      rw [← hstubs]
  | cons r records ih =>
    rw [ofRecords]
    constructor
    · intro h
      split at h
      · next s hs =>
        obtain ⟨hcarries, hfollows⟩ := StubRecord.toStub_eq_ok_iff.mp hs
        have hpush := wellFormed_push_iff.mpr ⟨hbefore, hfollows⟩
        obtain ⟨ht, stubs, hstubs, hall⟩ := (ih hpush).mp h
        exact ⟨ht, s :: stubs, by rw [hstubs, Array.appendList_cons], .cons hcarries hall⟩
      · cases h
    · rintro ⟨ht, stubs, hstubs, hcarries⟩
      cases hcarries with
      | @cons _ s _ stubs hs hall =>
        rw [Array.appendList_cons] at hstubs
        have hpush : WellFormed ⟨before.push s ++ stubs⟩ := by rwa [← hstubs]
        have hfollows := (wellFormed_push_iff.mp hpush.of_append).2
        rw [StubRecord.toStub_eq_ok_iff.mpr ⟨hs, hfollows⟩]
        exact (ih hpush.of_append).mpr ⟨ht, stubs, hstubs, hall⟩

/-- What is stored for a payload: the version and the hash before it. -/
def stored (payload : Bytes) : Bytes :=
  Bytes.ofNat 1 storedVersion ++ Bytes.ofNat 8 (ContentHash.ofBytes payload).value.toNat ++ payload

theorem drop_stored (payload : Bytes) : (stored payload).drop 9 = payload :=
  List.drop_left' (by simp)

theorem decode_stored (payload : Bytes) :
    decode (stored payload) =
      match (Reader.list StubRecord.read).run payload with
      | .ok (records, _) => ofRecords #[] records
      | .error cause => .error (.payload cause) := by
  have hversion : Bytes.toNat ((stored payload).take 1) = storedVersion := rfl
  have hhash : Bytes.toNat (((stored payload).drop 1).take 8) =
      (ContentHash.ofBytes payload).value.toNat := by
    have htake : ((stored payload).drop 1).take 8 =
        Bytes.ofNat 8 (ContentHash.ofBytes payload).value.toNat :=
      List.take_left' (Bytes.length_ofNat 8 _)
    have hfits : (ContentHash.ofBytes payload).value.toNat < Bytes.capacity 8 := UInt64.toNat_lt _
    rw [htake, Bytes.toNat_ofNat, Nat.mod_eq_of_lt hfits]
  have hlength : ¬(stored payload).length < 9 := by simp [stored]; omega
  cases hread : (Reader.list StubRecord.read).run payload with
  | ok result =>
    obtain ⟨records, rest⟩ := result
    simp only [decode, hlength, hversion, hhash, drop_stored, hread, ne_eq, not_true_eq_false,
      if_false]
  | error cause =>
    simp only [decode, hlength, hversion, hhash, drop_stored, hread, ne_eq, not_true_eq_false,
      if_false]

theorem stored_of_decode {bytes : Bytes} {t : StubTree} (h : decode bytes = .ok t) :
    stored (bytes.drop 9) = bytes := by
  simp only [decode] at h
  split at h
  · cases h
  next hlength =>
  split at h
  · cases h
  next hversion =>
  split at h
  · cases h
  next hhash =>
  have htake : (bytes.take 1).length = 1 := by simp; omega
  have hdrop : ((bytes.drop 1).take 8).length = 8 := by simp; omega
  rw [stored, ← ((Bytes.toNat_eq_iff htake).mp (not_not.mp hversion)).2,
    ← ((Bytes.toNat_eq_iff hdrop).mp (not_not.mp hhash)).2, List.append_assoc,
    ← List.drop_drop (i := 8) (j := 1), List.take_append_drop, List.take_append_drop]

/-- The bytes that give a tree: its own records, with their sizes, behind the version and the
hash. -/
theorem decode_eq_ok_iff {bytes : Bytes} {t : StubTree} :
    decode bytes = .ok t ↔ t.WellFormed ∧ ∃ records rest,
      bytes = stored (Bytes.ofList StubRecord.write records ++ rest) ∧
        (records.length < Bytes.capacity 8 ∧ ∀ r ∈ records, r.Fits) ∧
        List.Forall₂ StubRecord.Carries records t.stubs.toList := by
  constructor
  · intro h
    have hstored := stored_of_decode h
    rw [← hstored, decode_stored] at h
    split at h
    · next records rest hread =>
      obtain ⟨hfits, hbytes⟩ := (Reader.undoes_list StubRecord.undoes_read).run_eq_ok_iff.mp hread
      obtain ⟨ht, stubs, hstubs, hcarries⟩ := (ofRecords_eq_ok_iff wellFormed_empty).mp h
      refine ⟨ht, records, rest, by rw [← hbytes, hstored], hfits, ?_⟩
      simpa [hstubs] using hcarries
    · cases h
  · rintro ⟨ht, records, rest, rfl, hfits, hcarries⟩
    have hread := (Reader.undoes_list StubRecord.undoes_read).run_eq_ok_iff.mpr
      ⟨hfits, (rfl : Bytes.ofList StubRecord.write records ++ rest = _)⟩
    rw [decode_stored, hread]
    exact (ofRecords_eq_ok_iff wellFormed_empty).mpr ⟨ht, t.stubs.toList, by simp, hcarries⟩

/-- Every size fits in the place that the stored form has for it. -/
structure Storable (t : StubTree) : Prop where
  count : t.size < Bytes.capacity 8
  name : ∀ s ∈ t.stubs, Text.byteLength s.name < Bytes.capacity 8
  parent : ∀ s ∈ t.stubs, ∀ p ∈ s.parent, p < Bytes.capacity 4
  start : ∀ s ∈ t.stubs, s.span.start < Bytes.capacity 4
  stop : ∀ s ∈ t.stubs, s.span.stop < Bytes.capacity 4

theorem Storable.fits {t : StubTree} (h : t.Storable) {s : Stub} (hs : s ∈ t.stubs) :
    (StubRecord.ofStub s).Fits := by
  have hname := h.name s hs
  have hparent := h.parent s hs
  have hstart := h.start s hs
  have hstop := h.stop s hs
  obtain ⟨d, parent, span⟩ := s
  cases d with
  | assignment name isFunction isTopLevel isRight =>
    have hflags := (StubRecord.testBit_flagBits isFunction isTopLevel isRight).1
    refine ⟨?_, ?_, ?_, ?_, ?_, ?_⟩ <;> rintro _ ⟨⟩
    exacts [by decide, hname, Nat.lt_trans hflags (by decide), hparent, hstart, hstop]
  | parameter name =>
    refine ⟨?_, ?_, ?_, ?_, ?_, ?_⟩ <;> rintro _ ⟨⟩
    exacts [by decide, hname, hparent, hstart, hstop]

theorem decode_encode {t : StubTree} (ht : t.WellFormed) (hsize : t.Storable) :
    decode (encode t) = .ok t := by
  refine decode_eq_ok_iff.mpr ⟨ht, t.stubs.toList.map StubRecord.ofStub, [], ?_, ⟨?_, ?_⟩, ?_⟩
  · rw [List.append_nil]
    simp only [encode, stored, Bytes.ofList, List.length_map, List.flatMap_map]
    rfl
  · rw [List.length_map]
    exact hsize.count
  · intro r hr
    obtain ⟨s, hs, rfl⟩ := List.mem_map.mp hr
    exact hsize.fits (Array.mem_toList_iff.mp hs)
  · rw [List.forall₂_map_left_iff, List.forall₂_same]
    exact fun s _ => StubRecord.carries_ofStub s

/-- What could be read can be written again. -/
theorem storable_of_carries {t : StubTree} {records : List StubRecord}
    (hcount : records.length < Bytes.capacity 8) (hfits : ∀ r ∈ records, r.Fits)
    (hcarries : List.Forall₂ StubRecord.Carries records t.stubs.toList) : t.Storable := by
  have hrecord {s : Stub} (hs : s ∈ t.stubs) : ∃ r : StubRecord, r.Fits ∧ r.Carries s := by
    obtain ⟨r, hr, hs⟩ := StubRecord.exists_carries hcarries (Array.mem_toList_iff.mpr hs)
    exact ⟨r, hfits r hr, hs⟩
  refine ⟨by rwa [hcarries.length_eq] at hcount, fun s hs => ?_, fun s hs => ?_, fun s hs => ?_,
    fun s hs => ?_⟩ <;> obtain ⟨r, hr, hs⟩ := hrecord hs
  · exact hr.name _ hs.name
  · exact hr.parent _ hs.parent
  · exact hr.start _ hs.start
  · exact hr.stop _ hs.stop

/-- Bytes give an error or well-formed stubs, whatever they are.  The stubs were all there, each in
a record of its own with every field it needs, and they survive being stored again. -/
theorem decode_sound (bytes : Bytes) :
    (∃ cause, decode bytes = .error cause ∧
      cause.message = "corrupt stub data: " ++ cause.reason) ∨
    ∃ t, decode bytes = .ok t ∧ t.WellFormed ∧ decode (encode t) = .ok t ∧
      ∃ records rest, (Reader.list StubRecord.read).run (bytes.drop 9) = .ok (records, rest) ∧
        List.Forall₂ StubRecord.Carries records t.stubs.toList := by
  cases h : decode bytes with
  | error cause => exact .inl ⟨cause, rfl, cause.message_eq⟩
  | ok t =>
    obtain ⟨ht, records, rest, rfl, ⟨hcount, hfits⟩, hcarries⟩ := decode_eq_ok_iff.mp h
    have hsize := storable_of_carries hcount hfits hcarries
    refine .inr ⟨t, rfl, ht, decode_encode ht hsize, records, rest, ?_, hcarries⟩
    rw [drop_stored]
    exact (Reader.undoes_list StubRecord.undoes_read).run_eq_ok_iff.mpr ⟨⟨hcount, hfits⟩, rfl⟩

end StubTree

end RSource
