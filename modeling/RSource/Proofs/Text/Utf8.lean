import RSource.Proofs.Except
import RSource.Text.Slice
import RSource.Text.Utf8

/-! UTF-8 in both directions: the bytes of a text are read as the text, and bytes that are read as a
text are its bytes.  So every text has one written form. -/

namespace RSource.Utf8

variable {c : Char} {b : UInt8} {n : Nat}

theorem toNat_cases (c : Char) : c.toNat < 0xD800 ∨ 0xDFFF < c.toNat ∧ c.toNat < 0x110000 :=
  c.valid

theorem toNat_ofNat (h : n < 0xD800 ∨ 0xDFFF < n ∧ n < 0x110000) : (Char.ofNat n).toNat = n := by
  have hvalid : n.isValidChar := h
  rw [Char.ofNat, dif_pos hvalid]
  rfl

theorem toNat_byte (h : n < 256) : (UInt8.ofNat n).toNat = n := by
  rw [UInt8.toNat_ofNat', Nat.mod_eq_of_lt h]

theorem byte_eq (h : n = b.toNat) : UInt8.ofNat n = b := by
  rw [h, UInt8.ofNat_toNat]

/-! ### The bytes of a character -/

theorem encodeChar_one (h : c.toNat < 0x80) : encodeChar c = [UInt8.ofNat c.toNat] :=
  if_pos h

theorem encodeChar_two (h : 0x80 ≤ c.toNat) (h' : c.toNat < 0x800) :
    encodeChar c = [UInt8.ofNat (0xC0 + c.toNat / 64), UInt8.ofNat (0x80 + c.toNat % 64)] := by
  simp only [encodeChar]
  rw [if_neg (by omega), if_pos h', Nat.div_one]

theorem encodeChar_three (h : 0x800 ≤ c.toNat) (h' : c.toNat < 0x10000) :
    encodeChar c = [UInt8.ofNat (0xE0 + c.toNat / 4096), UInt8.ofNat (0x80 + c.toNat / 64 % 64),
      UInt8.ofNat (0x80 + c.toNat % 64)] := by
  simp only [encodeChar]
  rw [if_neg (by omega), if_neg (by omega), if_pos h', Nat.div_one]

theorem encodeChar_four (h : 0x10000 ≤ c.toNat) :
    encodeChar c = [UInt8.ofNat (0xF0 + c.toNat / 262144),
      UInt8.ofNat (0x80 + c.toNat / 4096 % 64), UInt8.ofNat (0x80 + c.toNat / 64 % 64),
      UInt8.ofNat (0x80 + c.toNat % 64)] := by
  simp only [encodeChar]
  rw [if_neg (by omega), if_neg (by omega), if_neg (by omega), Nat.div_one]

theorem length_encodeChar (c : Char) : (encodeChar c).length = c.utf8Size := by
  have hval : c.toNat = c.val.toNat := rfl
  simp only [encodeChar, Char.utf8Size, UInt32.le_iff_toNat_le, ← hval]
  split
  · rw [if_pos (by simp; omega)]; rfl
  split
  · rw [if_neg (by simp; omega), if_pos (by simp; omega)]; rfl
  split
  · rw [if_neg (by simp; omega), if_neg (by simp; omega), if_pos (by simp; omega)]; rfl
  · rw [if_neg (by simp; omega), if_neg (by simp; omega), if_neg (by simp; omega)]; rfl

theorem length_flatMap_encodeChar (cs : List Char) :
    (cs.flatMap encodeChar).length = Text.size cs := by
  induction cs with
  | nil => rfl
  | cons c cs ih => rw [List.flatMap_cons, List.length_append, ih, length_encodeChar, Text.size]

theorem length_encode (text : String) : (encode text).length = Text.byteLength text := by
  rw [encode, length_flatMap_encodeChar, Text.size_toList]

/-! ### First and last bytes -/

/-- The first byte of the UTF-8 form of a code point. -/
def leadByte (n : Nat) : Nat :=
  if n < 0x80 then n
  else if n < 0x800 then 0xC0 + n / 64
  else if n < 0x10000 then 0xE0 + n / 4096
  else 0xF0 + n / 262144

theorem head?_encodeChar (c : Char) :
    (encodeChar c).head? = some (UInt8.ofNat (leadByte c.toNat)) := by
  simp only [encodeChar, leadByte]
  repeat' split
  all_goals rfl

theorem leadByte_lt (c : Char) : leadByte c.toNat < 256 := by
  have hc := toNat_cases c
  simp only [leadByte]
  repeat' split
  all_goals omega

/-- The last byte of the UTF-8 form of a code point. -/
def lastByte (n : Nat) : Nat := if n < 0x80 then n else 0x80 + n % 64

theorem getLast?_encodeChar (c : Char) :
    (encodeChar c).getLast? = some (UInt8.ofNat (lastByte c.toNat)) := by
  simp only [encodeChar, lastByte, Nat.div_one]
  repeat' split
  all_goals rfl

theorem lastByte_lt (n : Nat) : lastByte n < 256 := by
  simp only [lastByte]
  split
  all_goals omega

/-! ### From characters to bytes -/

variable {offset read value left low high : Nat} {p : Pending} {bytes : Bytes} {cs : List Char}

theorem decodeFrom_next (hlow : low ≤ b.toNat) (hhigh : b.toNat ≤ high) :
    decodeFrom offset (some ⟨read, value, left + 2, low, high⟩) (b :: bytes) =
      decodeFrom offset
        (some ⟨read + 1, value * 64 + (b.toNat - 0x80), left + 1, 0x80, 0xBF⟩) bytes := by
  rw [decodeFrom, if_pos ⟨hlow, hhigh⟩]

theorem decodeFrom_last (hlow : low ≤ b.toNat) (hhigh : b.toNat ≤ high)
    (h : value * 64 + (b.toNat - 0x80) = c.toNat) :
    decodeFrom offset (some ⟨read, value, 1, low, high⟩) (b :: bytes) =
      (c :: ·) <$> decodeFrom (offset + read + 1) none bytes := by
  rw [decodeFrom, if_pos ⟨hlow, hhigh⟩]
  simp only [h, Char.ofNat_toNat]
  rfl

theorem decodeFrom_begin (h : begin? b = some p) (hascii : 0x80 ≤ b.toNat) :
    decodeFrom offset none (b :: bytes) = decodeFrom offset (some p) bytes := by
  rw [decodeFrom, if_neg (Nat.not_lt.mpr hascii)]
  simp only [h]

theorem toNat_tail (n : Nat) : (UInt8.ofNat (0x80 + n % 64)).toNat = 0x80 + n % 64 :=
  toNat_byte (by omega)

theorem begin?_two {n : Nat} (hlow : 2 ≤ n) (hhigh : n < 32) :
    begin? (UInt8.ofNat (0xC0 + n)) = some ⟨1, n, 1, 0x80, 0xBF⟩ := by
  have hbyte : (UInt8.ofNat (0xC0 + n)).toNat = 0xC0 + n := toNat_byte (by omega)
  simp only [begin?, hbyte]
  rw [if_pos (by omega), Nat.add_sub_cancel_left]

/-- Three bytes may go on with any tail that makes them no shorter and no surrogate. -/
theorem begin?_three {n m : Nat} (hn : n < 16) (hm : m < 64) (hshort : n = 0 → 32 ≤ m)
    (hsurrogate : n = 13 → m < 32) : ∃ low high,
      begin? (UInt8.ofNat (0xE0 + n)) = some ⟨1, n, 2, low, high⟩ ∧
        low ≤ 0x80 + m ∧ 0x80 + m ≤ high := by
  have hbyte : (UInt8.ofNat (0xE0 + n)).toNat = 0xE0 + n := toNat_byte (by omega)
  simp only [begin?, hbyte]
  rw [if_neg (by omega), if_pos (by omega), Nat.add_sub_cancel_left]
  refine ⟨_, _, rfl, ?_, ?_⟩ <;> split <;> omega

/-- Four bytes may go on with any tail that makes them no shorter and no number past the last
character. -/
theorem begin?_four {n m : Nat} (hn : n < 5) (hm : m < 64) (hshort : n = 0 → 16 ≤ m)
    (hlast : n = 4 → m < 16) : ∃ low high,
      begin? (UInt8.ofNat (0xF0 + n)) = some ⟨1, n, 3, low, high⟩ ∧
        low ≤ 0x80 + m ∧ 0x80 + m ≤ high := by
  have hbyte : (UInt8.ofNat (0xF0 + n)).toNat = 0xF0 + n := toNat_byte (by omega)
  simp only [begin?, hbyte]
  rw [if_neg (by omega), if_neg (by omega), if_pos (by omega), Nat.add_sub_cancel_left]
  refine ⟨_, _, rfl, ?_, ?_⟩ <;> split <;> omega

/-- The bytes of a character are read as the character. -/
theorem decodeFrom_encodeChar (offset : Nat) (c : Char) (bytes : Bytes) :
    decodeFrom offset none (encodeChar c ++ bytes) =
      (c :: ·) <$> decodeFrom (offset + c.utf8Size) none bytes := by
  have hc := toNat_cases c
  have htail := toNat_tail c.toNat
  have htail₂ := toNat_tail (c.toNat / 64)
  have htail₃ := toNat_tail (c.toNat / 4096)
  rw [← length_encodeChar]
  rcases Nat.lt_or_ge c.toNat 0x80 with h | h
  · rw [encodeChar_one h, List.singleton_append, decodeFrom, if_pos (by rw [toNat_byte] <;> omega),
      toNat_byte (by omega), Char.ofNat_toNat]
    rfl
  rcases Nat.lt_or_ge c.toNat 0x800 with h₂ | h₂
  · have hfirst : (UInt8.ofNat (0xC0 + c.toNat / 64)).toNat = 0xC0 + c.toNat / 64 :=
      toNat_byte (by omega)
    have hbegin := begin?_two (n := c.toNat / 64) (by omega) (by omega)
    rw [encodeChar_two h h₂, List.cons_append, decodeFrom_begin hbegin (by omega),
      List.singleton_append, decodeFrom_last (c := c) (by omega) (by omega) (by omega)]
    rfl
  rcases Nat.lt_or_ge c.toNat 0x10000 with h₃ | h₃
  · have hfirst : (UInt8.ofNat (0xE0 + c.toNat / 4096)).toNat = 0xE0 + c.toNat / 4096 :=
      toNat_byte (by omega)
    obtain ⟨low, high, hbegin, hlow, hhigh⟩ := begin?_three (n := c.toNat / 4096)
      (m := c.toNat / 64 % 64) (by omega) (by omega) (by omega) (by omega)
    rw [encodeChar_three h₂ h₃, List.cons_append, decodeFrom_begin hbegin (by omega),
      List.cons_append, decodeFrom_next (by omega) (by omega), List.singleton_append,
      decodeFrom_last (c := c) (by omega) (by omega) (by omega)]
    rfl
  · have hfirst : (UInt8.ofNat (0xF0 + c.toNat / 262144)).toNat = 0xF0 + c.toNat / 262144 :=
      toNat_byte (by omega)
    obtain ⟨low, high, hbegin, hlow, hhigh⟩ := begin?_four (n := c.toNat / 262144)
      (m := c.toNat / 4096 % 64) (by omega) (by omega) (by omega) (by omega)
    rw [encodeChar_four h₃, List.cons_append, decodeFrom_begin hbegin (by omega),
      List.cons_append, decodeFrom_next (by omega) (by omega), List.cons_append,
      decodeFrom_next (by omega) (by omega), List.singleton_append,
      decodeFrom_last (c := c) (by omega) (by omega) (by omega)]
    rfl

theorem decode_encode (text : String) : decode (encode text) = .ok text := by
  have h : ∀ (cs : List Char) (offset : Nat),
      decodeFrom offset none (cs.flatMap encodeChar) = .ok cs := by
    intro cs
    induction cs with
    | nil => intro offset; rfl
    | cons c cs ih =>
      intro offset
      rw [List.flatMap_cons, decodeFrom_encodeChar, ih]
      rfl
  rw [decode, encode, h]
  exact congrArg Except.ok String.ofList_toList

/-! ### From bytes to characters -/

/-- A character has begun with the bytes `front`: with any bytes that may follow, they are the bytes
of a character. -/
inductive Begun : Pending → Bytes → Prop
  | last {p : Pending} {front : Bytes} (hleft : p.left = 1)
      (h : ∀ b : UInt8, p.low ≤ b.toNat → b.toNat ≤ p.high →
        encodeChar (Char.ofNat (p.value * 64 + (b.toNat - 0x80))) = front ++ [b]) :
      Begun p front
  | more {p : Pending} {front : Bytes} {left : Nat} (hleft : p.left = left + 2)
      (h : ∀ b : UInt8, p.low ≤ b.toNat → b.toNat ≤ p.high →
        Begun ⟨p.read + 1, p.value * 64 + (b.toNat - 0x80), left + 1, 0x80, 0xBF⟩ (front ++ [b])) :
      Begun p front

theorem begun_of_begin? {p : Pending} (h : begin? b = some p) : Begun p [b] := by
  simp only [begin?] at h
  split at h
  · obtain rfl := Option.some.inj h
    refine .last rfl fun b₁ hlow hhigh => ?_
    dsimp only at hlow hhigh ⊢
    generalize hn : (b.toNat - 0xC0) * 64 + (b₁.toNat - 0x80) = n
    have hc : (Char.ofNat n).toNat = n := toNat_ofNat (by omega)
    rw [encodeChar_two (by omega) (by omega), hc, byte_eq (b := b) (by omega),
      byte_eq (b := b₁) (by omega)]
    rfl
  split at h
  · obtain rfl := Option.some.inj h
    refine .more rfl fun b₁ hlow hhigh => .last rfl fun b₂ hlow₂ hhigh₂ => ?_
    dsimp only at hlow hhigh hlow₂ hhigh₂ ⊢
    generalize hn : ((b.toNat - 0xE0) * 64 + (b₁.toNat - 0x80)) * 64 + (b₂.toNat - 0x80) = n
    -- The bounds of the second byte keep out what takes two bytes, and the surrogates.
    have hsecond : 0x80 ≤ b₁.toNat ∧ b₁.toNat ≤ 0xBF ∧ (b.toNat = 0xE0 → 0xA0 ≤ b₁.toNat) ∧
        (b.toNat = 0xED → b₁.toNat ≤ 0x9F) := by
      split at hlow <;> split at hhigh <;> omega
    have hc : (Char.ofNat n).toNat = n := toNat_ofNat (by omega)
    rw [encodeChar_three (by omega) (by omega), hc, byte_eq (b := b) (by omega),
      byte_eq (b := b₁) (by omega), byte_eq (b := b₂) (by omega)]
    rfl
  split at h
  · obtain rfl := Option.some.inj h
    refine .more rfl fun b₁ hlow hhigh => .more rfl fun b₂ hlow₂ hhigh₂ =>
      .last rfl fun b₃ hlow₃ hhigh₃ => ?_
    dsimp only at hlow hhigh hlow₂ hhigh₂ hlow₃ hhigh₃ ⊢
    generalize hn : (((b.toNat - 0xF0) * 64 + (b₁.toNat - 0x80)) * 64 + (b₂.toNat - 0x80)) * 64 +
      (b₃.toNat - 0x80) = n
    -- Here they keep out what takes three bytes, and what is beyond the last character.
    have hsecond : 0x80 ≤ b₁.toNat ∧ b₁.toNat ≤ 0xBF ∧ (b.toNat = 0xF0 → 0x90 ≤ b₁.toNat) ∧
        (b.toNat = 0xF4 → b₁.toNat ≤ 0x8F) := by
      split at hlow <;> split at hhigh <;> omega
    have hc : (Char.ofNat n).toNat = n := toNat_ofNat (by omega)
    rw [encodeChar_four (by omega), hc, byte_eq (b := b) (by omega),
      byte_eq (b := b₁) (by omega), byte_eq (b := b₂) (by omega), byte_eq (b := b₃) (by omega)]
    rfl
  · cases h

/-- Bytes that are read as characters are the bytes of the characters. -/
theorem bytes_of_decodeFrom (bytes : Bytes) : ∀ {offset : Nat} {cs : List Char},
    (decodeFrom offset none bytes = .ok cs → cs.flatMap encodeChar = bytes) ∧
    ∀ {p : Pending} {front : Bytes}, Begun p front → decodeFrom offset (some p) bytes = .ok cs →
      cs.flatMap encodeChar = front ++ bytes := by
  induction bytes with
  | nil =>
    refine fun {offset cs} => ⟨fun h => ?_, fun hp h => ?_⟩
    · obtain rfl := Except.ok.inj h
      rfl
    · cases h
  | cons b bytes ih =>
    refine fun {offset cs} => ⟨fun h => ?_, fun {p front} hp h => ?_⟩
    · rw [decodeFrom] at h
      split at h
      · obtain ⟨ds, hrest, hds⟩ := bind_eq_ok_iff.mp h
        obtain rfl := Except.ok.inj hds
        have hc : (Char.ofNat b.toNat).toNat = b.toNat := toNat_ofNat (by omega)
        rw [List.flatMap_cons, ih.1 hrest, encodeChar_one (by omega), hc, UInt8.ofNat_toNat]
        rfl
      · cases hbegin : begin? b with
        | none => simp [hbegin] at h
        | some p =>
          rw [hbegin] at h
          exact ih.2 (begun_of_begin? hbegin) h
    · rw [decodeFrom] at h
      split at h
      · next hb =>
        cases hp with
        | last hleft hlast =>
          simp only [hleft] at h
          obtain ⟨ds, hrest, hds⟩ := bind_eq_ok_iff.mp h
          obtain rfl := Except.ok.inj hds
          rw [List.flatMap_cons, ih.1 hrest, hlast b hb.1 hb.2, List.append_assoc]
          rfl
        | more hleft hmore =>
          simp only [hleft] at h
          rw [ih.2 (hmore b hb.1 hb.2) h, List.append_assoc]
          rfl
      · cases h

/-- Every text has one written form. -/
theorem decode_eq_ok_iff {bytes : Bytes} {text : String} :
    decode bytes = .ok text ↔ bytes = encode text := by
  constructor
  · intro h
    obtain ⟨cs, hcs, htext⟩ := bind_eq_ok_iff.mp h
    obtain rfl := Except.ok.inj htext
    rw [encode, String.toList_ofList, (bytes_of_decodeFrom bytes).1 hcs]
  · rintro rfl
    exact decode_encode text

end RSource.Utf8
