import RSource.Bytes.Reader
import RSource.Proofs.Text.Utf8

/-! Readers and writers of stored values.  A reader that undoes a writer finds a value at the start
of bytes just when its written form stands there and the value is small enough to be written. -/

namespace RSource

variable {α β : Type}

namespace Bytes

theorem toNat_lt_capacity (bytes : Bytes) : toNat bytes < capacity bytes.length := by
  induction bytes with
  | nil => exact Nat.one_pos
  | cons b bytes ih =>
    have hb := b.toNat_lt
    simp only [toNat, List.length_cons, capacity]
    omega

theorem ofNat_toNat (bytes : Bytes) : ofNat bytes.length (toNat bytes) = bytes := by
  induction bytes with
  | nil => rfl
  | cons b bytes ih =>
    have hb := b.toNat_lt
    have hmod : (b.toNat + 256 * toNat bytes) % 256 = b.toNat := by omega
    have hdiv : (b.toNat + 256 * toNat bytes) / 256 = toNat bytes := by omega
    rw [toNat, List.length_cons, ofNat, hmod, hdiv, ih, UInt8.ofNat_toNat]

/-- Bytes write one number only. -/
theorem toNat_eq_iff {width n : Nat} {bytes : Bytes} (hlength : bytes.length = width) :
    toNat bytes = n ↔ n < capacity width ∧ bytes = ofNat width n := by
  subst hlength
  constructor
  · rintro rfl
    exact ⟨toNat_lt_capacity bytes, (ofNat_toNat bytes).symm⟩
  · rintro ⟨hn, h⟩
    rw [h, toNat_ofNat, Nat.mod_eq_of_lt hn]

end Bytes

namespace Reader

/-- The reader finds just the values that fit, where they are written. -/
def Undoes (read : Reader α) (write : α → Bytes) (fits : α → Prop) : Prop :=
  ∀ bytes a rest, read.run bytes = .ok (a, rest) ↔ fits a ∧ bytes = write a ++ rest

theorem Undoes.run_eq_ok_iff {read : Reader α} {write : α → Bytes} {fits : α → Prop}
    (h : Undoes read write fits) {bytes rest : Bytes} {a : α} :
    read.run bytes = .ok (a, rest) ↔ fits a ∧ bytes = write a ++ rest :=
  h bytes a rest

theorem run_bind_eq_ok_iff {read : Reader α} {next : α → Reader β} {bytes rest : Bytes} {b : β} :
    (read >>= next).run bytes = .ok (b, rest) ↔
      ∃ a middle, read.run bytes = .ok (a, middle) ∧ (next a).run middle = .ok (b, rest) := by
  rw [StateT.run_bind, bind_eq_ok_iff, Prod.exists]

theorem run_pure_eq_ok_iff {a b : α} {bytes rest : Bytes} :
    (pure a : Reader α).run bytes = .ok (b, rest) ↔ a = b ∧ bytes = rest := by
  rw [StateT.run_pure]
  simp [pure, Except.pure]

theorem run_take_eq_ok_iff {n : Nat} {error : ReadError} {bytes front rest : Bytes} :
    (take n error).run bytes = .ok (front, rest) ↔ front.length = n ∧ bytes = front ++ rest := by
  rw [StateT.run, take]
  constructor
  · intro h
    split at h
    · next hle =>
      obtain ⟨rfl, rfl⟩ := Prod.mk.inj (Except.ok.inj h)
      exact ⟨List.length_take_of_le hle, (List.take_append_drop n bytes).symm⟩
    · cases h
  · rintro ⟨rfl, rfl⟩
    rw [if_pos (by simp), List.take_left, List.drop_left]

theorem undoes_number (width : Nat) :
    Undoes (number width) (Bytes.ofNat width) (· < Bytes.capacity width) := by
  intro bytes n rest
  simp only [number, run_bind_eq_ok_iff, run_take_eq_ok_iff, run_pure_eq_ok_iff]
  constructor
  · rintro ⟨front, middle, ⟨hlength, rfl⟩, hn, rfl⟩
    obtain ⟨hfits, rfl⟩ := (Bytes.toNat_eq_iff hlength).mp hn
    exact ⟨hfits, rfl⟩
  · rintro ⟨hfits, rfl⟩
    have hlength := Bytes.length_ofNat width n
    exact ⟨_, rest, ⟨hlength, rfl⟩, (Bytes.toNat_eq_iff hlength).mpr ⟨hfits, rfl⟩, rfl⟩

theorem undoes_text : Undoes text Bytes.ofText (Text.byteLength · < Bytes.capacity 8) := by
  intro bytes t rest
  simp only [text, run_bind_eq_ok_iff, (undoes_number 8).run_eq_ok_iff, run_take_eq_ok_iff]
  constructor
  · rintro ⟨n, _, ⟨hn, rfl⟩, front, middle, ⟨rfl, rfl⟩, h⟩
    cases hdecode : Utf8.decode front with
    | error cause => rw [hdecode] at h; cases h
    | ok text =>
      rw [hdecode] at h
      obtain ⟨rfl, rfl⟩ := run_pure_eq_ok_iff.mp h
      obtain rfl := Utf8.decode_eq_ok_iff.mp hdecode
      rw [← Utf8.length_encode]
      exact ⟨hn, (List.append_assoc ..).symm⟩
  · rintro ⟨hfits, rfl⟩
    rw [← Utf8.length_encode] at hfits
    refine ⟨_, _, ⟨hfits, List.append_assoc ..⟩, _, rest, ⟨rfl, rfl⟩, ?_⟩
    rw [Utf8.decode_encode]
    rfl

/-- Bytes after their number are found whatever they are. -/
theorem undoes_bytes : Undoes Reader.bytes (fun bs => Bytes.ofNat 8 bs.length ++ bs)
    (·.length < Bytes.capacity 8) := by
  intro bytes bs rest
  simp only [Reader.bytes, run_bind_eq_ok_iff, (undoes_number 8).run_eq_ok_iff,
    run_take_eq_ok_iff]
  constructor
  · rintro ⟨n, _, ⟨hn, rfl⟩, rfl, rfl⟩
    exact ⟨hn, (List.append_assoc ..).symm⟩
  · rintro ⟨hfits, rfl⟩
    exact ⟨_, _, ⟨hfits, List.append_assoc ..⟩, rfl, rfl⟩

variable {value : Reader α} {write : α → Bytes} {fits : α → Prop}

theorem undoes_option (h : Undoes value write fits) :
    Undoes (option value) (Bytes.ofOption write) fun o => ∀ a ∈ o, fits a := by
  intro bytes o rest
  simp only [option, run_bind_eq_ok_iff, (undoes_number 1).run_eq_ok_iff]
  constructor
  · rintro ⟨tag, _, ⟨-, rfl⟩, hrun⟩
    match tag with
    | 0 =>
      obtain ⟨rfl, rfl⟩ := run_pure_eq_ok_iff.mp hrun
      exact ⟨fun a ha => (nomatch ha), rfl⟩
    | 1 =>
      obtain ⟨a, middle, ha, hpure⟩ := run_bind_eq_ok_iff.mp hrun
      obtain ⟨rfl, rfl⟩ := run_pure_eq_ok_iff.mp hpure
      obtain ⟨hfits, rfl⟩ := h.run_eq_ok_iff.mp ha
      exact ⟨fun b hb => Option.some.inj hb ▸ hfits, rfl⟩
    | tag + 2 => cases hrun
  · rintro ⟨hfits, rfl⟩
    cases o with
    | none => exact ⟨0, rest, ⟨by decide, rfl⟩, rfl⟩
    | some a =>
      refine ⟨1, _, ⟨by decide, rfl⟩, run_bind_eq_ok_iff.mpr ⟨a, rest, ?_, rfl⟩⟩
      exact h.run_eq_ok_iff.mpr ⟨hfits a rfl, rfl⟩

theorem undoes_times (h : Undoes value write fits) {bytes rest : Bytes} {as : List α} (n : Nat) :
    (times value n).run bytes = .ok (as, rest) ↔
      as.length = n ∧ (∀ a ∈ as, fits a) ∧ bytes = as.flatMap write ++ rest := by
  induction n generalizing bytes rest as with
  | zero =>
    rw [times, run_pure_eq_ok_iff, List.length_eq_zero_iff]
    constructor
    · rintro ⟨rfl, rfl⟩
      exact ⟨rfl, fun a ha => (nomatch ha), rfl⟩
    · rintro ⟨rfl, -, rfl⟩
      exact ⟨rfl, rfl⟩
  | succ n ih =>
    simp only [times, run_bind_eq_ok_iff, h.run_eq_ok_iff, ih, run_pure_eq_ok_iff]
    constructor
    · rintro ⟨a, _, ⟨ha, rfl⟩, as, _, ⟨hlength, has, rfl⟩, rfl, rfl⟩
      exact ⟨congrArg (· + 1) hlength, List.forall_mem_cons.mpr ⟨ha, has⟩,
        (List.append_assoc ..).symm⟩
    · rintro ⟨hlength, has, rfl⟩
      obtain ⟨a, as, rfl⟩ := List.exists_cons_of_length_eq_add_one hlength
      obtain ⟨ha, has⟩ := List.forall_mem_cons.mp has
      exact ⟨a, _, ⟨ha, List.append_assoc ..⟩, as, rest, ⟨Nat.succ.inj hlength, has, rfl⟩, rfl, rfl⟩

theorem undoes_list (h : Undoes value write fits) :
    Undoes (list value) (Bytes.ofList write) fun as =>
      as.length < Bytes.capacity 8 ∧ ∀ a ∈ as, fits a := by
  intro bytes as rest
  simp only [list, run_bind_eq_ok_iff, (undoes_number 8).run_eq_ok_iff, undoes_times h]
  constructor
  · rintro ⟨n, _, ⟨hn, rfl⟩, rfl, has, rfl⟩
    exact ⟨⟨hn, has⟩, (List.append_assoc ..).symm⟩
  · rintro ⟨⟨hn, has⟩, rfl⟩
    exact ⟨_, _, ⟨hn, List.append_assoc ..⟩, rfl, has, rfl⟩

end Reader

end RSource
