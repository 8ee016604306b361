import RSource.Proofs.Except
import RSource.Proofs.Lexeme.Cover
import RSource.Proofs.Lexeme.Doc
import RSource.Proofs.Lexeme.DocScan

/-! What the scanner by byte positions does when it is called for a window: it sees the characters
of the window, takes no slice that is none, no byte past the end, and few enough turns.  Here are
its runs, its names and its parameter lists. -/

namespace RSource.DocScan

open Lexeme hiding size
open Lexeme.Doc
open Text (Window size)
open Utf8 (ascii lead)

variable {text : String} {start stop : Nat} {c d : Char} {cs : List Char} {ls ms : List Lexeme}

/-! ### Looking at a window -/

theorem slice_window (h : Window text start stop cs) : slice text start stop = .ok cs := by
  rw [slice, h.slice?]
  exact congrArg Except.ok String.toList_ofList

theorem byte_window (h : Window text start stop (c :: cs)) : byte text start = .ok (lead c) := by
  rw [byte, byte?, h.firstByte]

theorem lt_stop_iff (h : Window text start stop cs) : start < stop ↔ cs ≠ [] := by
  have hstop := h.stop_eq
  cases cs with
  | nil => rw [hstop]; simp
  | cons c cs =>
    have hc := c.utf8Size_pos
    rw [Text.size_cons] at hstop
    simp only [ne_eq, reduceCtorEq, not_false_eq_true, iff_true]
    omega

/-- A byte is tested for an ASCII character, and then the end of the window. -/
theorem byte?_ne_or_le_iff (h : Window text start stop cs) (hd : d.toNat < 0x80) :
    byte? text start ≠ some (ascii d) ∨ stop ≤ start ↔ cs.head? ≠ some d := by
  have hlt := lt_stop_iff h
  cases cs with
  | nil => simp at hlt ⊢; exact .inr hlt
  | cons c cs =>
    have hc : start < stop := hlt.mpr (by simp)
    rw [byte?, h.firstByte]
    simp [Utf8.lead_eq_ascii_iff hd, Nat.not_le.mpr hc]

theorem length_lt_turns (h : Window text start stop cs) : cs.length < turns text := by
  have hstop := h.stop_eq
  have hle := h.size_le
  have hcs := Text.length_le_size cs
  rw [turns]
  omega

theorem find?_eq {p q : Char → Bool} (hq : ∀ c, q c = !p c) (cs : List Char) :
    find? p cs = if (cs.takeWhile q).length < cs.length then some (size (cs.takeWhile q))
      else none := by
  induction cs with
  | nil => rfl
  | cons c cs ih =>
    rw [find?, List.takeWhile_cons, hq]
    cases hp : p c with
    | true => simp
    | false =>
      simp only [Bool.not_false, if_true, Bool.false_eq_true, if_false, List.length_cons,
        Nat.add_lt_add_iff_right, Text.size_cons, ih]
      split
      · rfl
      · rfl

theorem getD_find? {p q : Char → Bool} (hq : ∀ c, q c = !p c) (cs : List Char) :
    (find? p cs).getD (size cs) = size (cs.takeWhile q) := by
  rw [find?_eq hq]
  split
  · rfl
  · next hlength =>
    have hall : cs.takeWhile q = cs :=
      (List.takeWhile_prefix q).eq_of_length_le (Nat.not_lt.mp hlength)
    rw [hall]
    rfl

theorem take_length_takeWhile (p : Char → Bool) (cs : List Char) :
    cs.take (cs.takeWhile p).length = cs.takeWhile p :=
  (List.prefix_iff_eq_take.mp (List.takeWhile_prefix p)).symm

/-! ### Giving out lexemes -/

/-- The tokens of lexemes that stand end to end from a position on. -/
def emitted (pos : Nat) (ls : List Lexeme) : List Token := (tile pos ls).map Token.capped

@[simp] theorem emitted_nil (pos : Nat) : emitted pos [] = [] := rfl

theorem emitted_append (pos : Nat) (ls ms : List Lexeme) : emitted pos (ls ++ ms) =
    emitted pos ls ++ emitted (pos + size (ls.flatMap Lexeme.chars)) ms := by
  rw [emitted, tile_append, List.map_append]
  rfl

theorem emitted_cons (pos : Nat) (l : Lexeme) (ls : List Lexeme) : emitted pos (l :: ls) =
    (l.tokenAt pos).capped :: emitted (pos + size l.chars) ls := rfl

theorem flatMap_chars_nonempty (k : TokenKind) (w : List Char) :
    (nonempty k w).flatMap Lexeme.chars = w := by
  rw [nonempty]
  cases w with
  | nil => rfl
  | cons c w => simp

theorem push_eq (k : TokenKind) (pos : Nat) (w : List Char) :
    push k pos (pos + size w) = emitted pos (nonempty k w) := by
  rw [push, nonempty]
  cases w with
  | nil => simp
  | cons c w =>
    have hpos := Text.size_pos (List.cons_ne_nil c w)
    rw [if_pos (by omega)]
    rfl

theorem emitted_nonempty_append (k : TokenKind) (pos : Nat) (w : List Char) (ls : List Lexeme) :
    emitted pos (nonempty k w ++ ls) = push k pos (pos + size w) ++ emitted (pos + size w) ls := by
  rw [emitted_append, ← push_eq, flatMap_chars_nonempty]

theorem emitted_cons_eq (k : TokenKind) (pos : Nat) {w : List Char} (hw : w ≠ [])
    (ls : List Lexeme) :
    emitted pos (⟨k, w⟩ :: ls) = push k pos (pos + size w) ++ emitted (pos + size w) ls := by
  have hpos := Text.size_pos hw
  rw [emitted_cons, push, if_pos (by omega)]
  rfl

/-! ### Runs -/

theorem skip_window {p : UInt8 → Bool} {q : Char → Bool} (hp : ∀ c, p (lead c) = q c)
    (hq : ∀ c, q c = true → c.toNat < 0x80) (n : Nat) : ∀ {cs start},
    Window text start stop cs → cs.length < n →
      skip text p n start stop = .ok (start + size (cs.takeWhile q)) := by
  induction n with
  | zero => intro cs start _ hn; exact absurd hn (Nat.not_lt_zero _)
  | succ n ih =>
    intro cs start h hn
    rw [skip]
    cases cs with
    | nil =>
      rw [if_neg (fun hlt => (lt_stop_iff h).mp hlt rfl)]
      rfl
    | cons c cs =>
      rw [if_pos ((lt_stop_iff h).mpr (List.cons_ne_nil c cs)), byte_window h,
        List.takeWhile_cons]
      show (if p (lead c) = true then _ else _) = _
      rw [hp]
      cases hc : q c with
      | false => rfl
      | true =>
        have htail := h.tail
        have hsize := Text.utf8Size_of_ascii (hq c hc)
        rw [hsize] at htail
        rw [if_pos rfl, if_pos rfl, ih htail (Nat.lt_of_succ_lt_succ hn), Text.size_cons, hsize,
          Nat.add_assoc]

theorem isGapByte_lead (c : Char) : isGapByte (lead c) = isGap c := by
  simp only [isGapByte, isGap, Utf8.lead_eq_ascii_iff (d := ' ') (by decide),
    Utf8.lead_eq_ascii_iff (d := '\t') (by decide)]

theorem gapEnd_window (h : Window text start stop cs) :
    gapEnd text start stop = .ok (start + size (cs.takeWhile isGap)) := by
  refine skip_window isGapByte_lead (fun c hc => ?_) _ h (length_lt_turns h)
  simp only [isGap, Bool.or_eq_true, decide_eq_true_eq] at hc
  rcases hc with rfl | rfl
  all_goals decide

theorem ascii_le_lead_iff (hd : d.toNat < 0x80) : ascii d ≤ lead c ↔ d.toNat ≤ c.toNat := by
  rw [UInt8.le_iff_toNat_le, Utf8.toNat_ascii hd, Utf8.toNat_lead, Utf8.leadByte]
  repeat' split
  all_goals omega

theorem lead_le_ascii_iff (hd : d.toNat < 0x80) : lead c ≤ ascii d ↔ c.toNat ≤ d.toNat := by
  rw [UInt8.le_iff_toNat_le, Utf8.toNat_ascii hd, Utf8.toNat_lead, Utf8.leadByte]
  repeat' split
  all_goals omega

theorem isTagChar_iff : isTagChar c = true ↔ 48 ≤ c.toNat ∧ c.toNat ≤ 57 ∨
    65 ≤ c.toNat ∧ c.toNat ≤ 90 ∨ 97 ≤ c.toNat ∧ c.toNat ≤ 122 ∨ c = '_' := by
  have hval : c.val.toNat = c.toNat := rfl
  rw [isTagChar]
  delta Char.isAlphanum Char.isAlpha Char.isUpper Char.isLower Char.isDigit
  simp only [Bool.or_eq_true, Bool.and_eq_true, decide_eq_true_eq, ge_iff_le,
    UInt32.le_iff_toNat_le, hval]
  grind

theorem isTagByte_lead (c : Char) : isTagByte (lead c) = isTagChar c := by
  rw [Bool.eq_iff_iff, isTagChar_iff]
  simp only [isTagByte, Bool.or_eq_true, Bool.and_eq_true, decide_eq_true_eq,
    ascii_le_lead_iff (d := '0') (by decide), lead_le_ascii_iff (d := '9') (by decide),
    ascii_le_lead_iff (d := 'A') (by decide), lead_le_ascii_iff (d := 'Z') (by decide),
    ascii_le_lead_iff (d := 'a') (by decide), lead_le_ascii_iff (d := 'z') (by decide),
    Utf8.lead_eq_ascii_iff (d := '_') (by decide), or_assoc]
  rfl

theorem ascii_of_isTagChar (h : isTagChar c = true) : c.toNat < 0x80 := by
  rcases isTagChar_iff.mp h with h | h | h | rfl
  · omega
  · omega
  · omega
  · decide

theorem tagEnd_window (h : Window text start stop cs) :
    tagEnd text start stop = .ok (start + size (cs.takeWhile isTagChar)) :=
  skip_window isTagByte_lead (fun _ => ascii_of_isTagChar) _ h (length_lt_turns h)

/-! ### Names -/

/-- What is closed, with the character that closes it. -/
theorem take_closed (h : (cs.takeWhile (· ≠ d)).length < cs.length) :
    cs.take ((cs.takeWhile (· ≠ d)).length + 1) = cs.takeWhile (· ≠ d) ++ [d] := by
  obtain ⟨rest, hrest⟩ := exists_closed h
  generalize cs.takeWhile (· ≠ d) = inner at hrest ⊢
  rw [hrest, List.take_length_add_append]
  rfl

theorem nameEnd?_window (h : Window text start stop cs) : nameEnd? text start stop =
    .ok ((nameLength? cs).map fun n => start + size (cs.take n)) := by
  rw [nameEnd?, h.slice?]
  simp only [String.toList_ofList]
  cases cs with
  | nil => rfl
  | cons c cs =>
    simp only [nameLength?]
    split
    · next hc =>
      have hquote : backtick.utf8Size = 1 := by decide
      subst hc
      have hwhole := (Window.whole (backtick :: cs)).tail
      rw [hquote, Nat.zero_add, Text.size_eq_byteLength] at hwhole
      rw [slice_window hwhole, ok_bind, find?_eq (q := (· ≠ backtick)) (by simp), runLength]
      split
      · next hlt =>
        rw [Option.map_some, Option.map_some, List.take_succ_cons, take_closed hlt, Text.size_cons,
          Text.size_append, Text.size_cons, hquote, Text.size_nil, Nat.add_assoc, Nat.add_assoc]
        rfl
      · rfl
    · split
      · next hletter =>
        have hc : (Unicode.isAlphanumeric c || c = '.' || c = '_') = true := by
          simp only [Bool.or_eq_true] at hletter ⊢
          exact .inl (hletter.imp (fun h => by rw [Unicode.isAlphanumeric, h]; rfl) id)
        rw [← Text.size_eq_byteLength,
          getD_find? (q := fun d => Unicode.isAlphanumeric d || d = '.' || d = '_') (by simp),
          List.takeWhile_cons, if_pos hc, Option.map_some, Nat.add_comm 1, List.take_succ_cons,
          runLength, take_length_takeWhile]
        rfl
      · rfl

/-! ### Parameter lists -/

theorem nextParameter?_eq_none (h : (cs.dropWhile isGap).head? ≠ some ',') :
    nextParameter? cs = none := by
  simp only [nextParameter?, runLength, drop_length_takeWhile]
  split
  · next rest hrest => rw [hrest] at h; exact absurd rfl h
  · rfl

theorem nextParameter?_of_comma {rest : List Char} (h : cs.dropWhile isGap = ',' :: rest) :
    nextParameter? cs = (nameLength? (rest.dropWhile isGap)).map fun n =>
      ((cs.takeWhile isGap).length, (rest.takeWhile isGap).length, n) := by
  simp only [nextParameter?, runLength, drop_length_takeWhile, h]

theorem moreParameters_of_none (h : nextParameter? cs = none) (bound : Nat) :
    moreParameters bound cs = ([], cs) := by
  cases bound with
  | zero => rfl
  | succ bound => simp only [moreParameters, h]

/-- A comma and a name, before the further names. -/
theorem moreParameters_succ {rest : List Char} {m : Nat} (hrest : cs.dropWhile isGap = ',' :: rest)
    (hname : nameLength? (rest.dropWhile isGap) = some m) (bound : Nat) :
    moreParameters (bound + 1) cs =
      (nonempty .docWhitespace (cs.takeWhile isGap) ++ ⟨.docComma, [',']⟩ ::
        nonempty .docWhitespace (rest.takeWhile isGap) ++
          ⟨.docIdentifier, (rest.dropWhile isGap).take m⟩ ::
            (moreParameters bound ((rest.dropWhile isGap).drop m)).1,
        (moreParameters bound ((rest.dropWhile isGap).drop m)).2) := by
  have hnext := nextParameter?_of_comma hrest
  rw [hname, Option.map_some] at hnext
  have hdrop : cs.drop ((cs.takeWhile isGap).length + 1) = rest := by
    rw [← List.drop_drop, drop_length_takeWhile, hrest]
    rfl
  simp only [moreParameters, hnext, hdrop, take_length_takeWhile, drop_length_takeWhile]

/-- What is left behind a comma and a name is shorter. -/
theorem length_drop_lt {rest : List Char} (hrest : cs.dropWhile isGap = ',' :: rest) (m : Nat) :
    ((rest.dropWhile isGap).drop m).length < cs.length := by
  have hcs := (List.dropWhile_suffix (l := cs) isGap).length_le
  have hle := (List.dropWhile_suffix (l := rest) isGap).length_le
  rw [hrest, List.length_cons] at hcs
  rw [List.length_drop]
  omega

theorem moreNames_window (n : Nat) : ∀ (cs : List Char) (start bound : Nat),
    Window text start stop cs → cs.length < n → cs.length ≤ bound →
      moreNames text n start stop = .ok (emitted start (moreParameters bound cs).1,
        start + size ((moreParameters bound cs).1.flatMap Lexeme.chars)) := by
  induction n with
  | zero => intro cs _ _ _ hn; exact absurd hn (Nat.not_lt_zero _)
  | succ n ih =>
    intro cs start bound h hn hbound
    have hgap := h.dropWhile isGap
    have hnone : nextParameter? cs = none →
        Except.ok ([], start) = (Except.ok (emitted start (moreParameters bound cs).1,
          start + size ((moreParameters bound cs).1.flatMap Lexeme.chars)) :
            Except Fault (List Token × Nat)) := by
      intro hnext
      rw [moreParameters_of_none hnext]
      rfl
    rw [moreNames, gapEnd_window h, ok_bind]
    split
    · next hcomma =>
      exact hnone (nextParameter?_eq_none ((byte?_ne_or_le_iff hgap (by decide)).mp hcomma))
    · next hcomma =>
      obtain ⟨rest, hrest⟩ : ∃ rest, cs.dropWhile isGap = ',' :: rest := by
        rw [byte?_ne_or_le_iff hgap (by decide), not_not] at hcomma
        exact List.head?_eq_some_iff.mp hcomma
      rw [hrest] at hgap
      have hafter : Window text (start + size (cs.takeWhile isGap) + 1) stop rest := hgap.tail
      have hname := hafter.dropWhile isGap
      rw [gapEnd_window hafter, ok_bind, nameEnd?_window hname, ok_bind]
      cases hlength : nameLength? (rest.dropWhile isGap) with
      | none =>
        exact hnone (by rw [nextParameter?_of_comma hrest, hlength]; rfl)
      | some m =>
        have hshorter := length_drop_lt hrest m
        obtain ⟨bound, rfl⟩ : ∃ b, bound = b + 1 := Nat.exists_eq_succ_of_ne_zero (by omega)
        have hmore := ih _ _ bound (hname.drop m) (by omega) (by omega)
        have hne := (nameLength?_spec hlength).1
        have hcomma : size [','] = 1 := by decide
        simp only [Option.map_some]
        rw [hmore, ok_bind, moreParameters_succ hrest hlength]
        simp only [List.append_assoc, List.cons_append, emitted_nonempty_append,
          emitted_cons_eq _ _ hne, emitted_cons_eq _ _ (List.cons_ne_nil _ _), hcomma,
          List.flatMap_append, List.flatMap_cons, flatMap_chars_nonempty, Text.size_append,
          Text.size_cons, ← Nat.add_assoc]
        rfl

theorem names_window (h : Window text start stop cs) : names text start stop =
    .ok (emitted start (parameters cs).1,
      start + size ((parameters cs).1.flatMap Lexeme.chars)) := by
  have hgap := h.dropWhile isGap
  rw [names, gapEnd_window h, ok_bind, nameEnd?_window hgap, ok_bind]
  simp only [parameters, runLength, drop_length_takeWhile, take_length_takeWhile]
  cases hlength : nameLength? (cs.dropWhile isGap) with
  | none => rfl
  | some n =>
    simp only [Option.map_some]
    have hzero : start + size (cs.takeWhile isGap) = start ↔ (cs.takeWhile isGap).length = 0 := by
      have hle := Text.length_le_size (cs.takeWhile isGap)
      rw [Nat.add_eq_left, List.length_eq_zero_iff]
      refine ⟨fun hsize => List.length_eq_zero_iff.mp (by omega), fun hnil => by rw [hnil]; rfl⟩
    split
    · next hstart =>
      rw [if_pos (hzero.mp hstart)]
      rfl
    · next hstart =>
      have hne : cs.takeWhile isGap ≠ [] := fun hnil => hstart (hzero.mpr (by rw [hnil]; rfl))
      have hleft := hgap.drop n
      have hle : ((cs.dropWhile isGap).drop n).length ≤ cs.length :=
        ((List.drop_suffix _ _).trans (List.dropWhile_suffix _)).length_le
      rw [if_neg (fun hlen => hstart (hzero.mpr hlen)),
        moreNames_window _ _ _ _ hleft (length_lt_turns hleft) hle, ok_bind]
      simp only [emitted_cons_eq _ _ hne, emitted_cons_eq _ _ (nameLength?_spec hlength).1,
        List.flatMap_cons, Text.size_append, List.append_assoc, ← Nat.add_assoc]
      rfl

end RSource.DocScan
