import Mathlib.Data.List.Find
import RSource.Lexeme.Scan

/-! Where lexemes of each form end.  A run of characters goes on for as long as it can, and what is
closed ends where it is closed, so that only the next characters can make a difference. -/

namespace RSource.Lexeme

/-- The characters are none, or begin with one that does not satisfy `p`. -/
def Stops (p : Char → Bool) (rest : List Char) : Prop := ∀ x ∈ rest.head?, p x = false

variable {p q : Char → Bool} {c quote : Char} {cs ds w rest : List Char} {k : TokenKind}

theorem Stops.of_imp (h : Stops p rest) (himp : ∀ x, q x = true → p x = true) : Stops q rest := by
  intro x hx
  have hp := h x hx
  cases hq : q x with
  | false => rfl
  | true => rw [himp x hq] at hp; cases hp

theorem Stops.eq_false {x : Char} (h : Stops p (x :: rest)) : p x = false := h x rfl

theorem stops_cons {x : Char} (h : p x = false) : Stops p (x :: rest) := by
  intro y hy
  obtain rfl := Option.some.inj hy
  exact h

/-! ### Runs of characters -/

theorem runLength_cons (x : Char) (cs : List Char) :
    runLength p (x :: cs) = if p x then runLength p cs + 1 else 0 := by
  rw [runLength, List.takeWhile_cons]
  split <;> rfl

theorem runLength_eq_zero (h : Stops p rest) : runLength p rest = 0 := by
  cases rest with
  | nil => rfl
  | cons x rest => rw [runLength_cons, h.eq_false]; rfl

theorem runLength_append (h : Stops p rest) (cs : List Char) :
    runLength p (cs ++ rest) = runLength p cs := by
  induction cs with
  | nil => exact runLength_eq_zero h
  | cons x cs ih => rw [List.cons_append, runLength_cons, runLength_cons, ih]

theorem runLength_le (p : Char → Bool) (cs : List Char) : runLength p cs ≤ cs.length :=
  (List.takeWhile_sublist _).length_le

/-- A run ends where it stops. -/
theorem runLength_append_of_stops (h : Stops p rest) (hcs : ∀ x ∈ cs, p x = true) :
    runLength p (cs ++ rest) = cs.length := by
  have hrest := runLength_eq_zero h
  rw [runLength] at hrest ⊢
  rw [List.takeWhile_append_of_pos hcs, List.length_append, hrest, Nat.add_zero]

/-- A run that is closed has its length whatever comes after. -/
theorem runLength_append_cons (h : ∀ x ∈ cs, p x = true) {x : Char} (hx : p x = false)
    (rest : List Char) : runLength p (cs ++ x :: rest) = cs.length := by
  rw [runLength, List.takeWhile_append_of_pos h, List.takeWhile_cons_of_neg (by simp [hx]),
    List.append_nil]

theorem all_take_runLength (cs : List Char) : ∀ x ∈ cs.take (runLength p cs), p x = true := by
  induction cs with
  | nil => simp
  | cons y cs ih =>
    rw [runLength_cons]
    split
    · next hy =>
      intro x hx
      rcases List.mem_cons.mp hx with rfl | hx
      · exact hy
      · exact ih x hx
    · simp

theorem stops_drop_runLength (cs : List Char) : Stops p (cs.drop (runLength p cs)) := by
  induction cs with
  | nil => intro x hx; cases hx
  | cons y cs ih =>
    rw [runLength_cons]
    split
    · exact ih
    · next hy => exact stops_cons (by simpa using hy)

/-! ### Words and numbers -/

/-- A quote. -/
def isQuote (c : Char) : Bool := c = doubleQuote || c = singleQuote

/-- The characters that may go on a word or change what it is. -/
def prolongsWord (x : Char) : Bool := isNameChar x || sharesLeadByte x

theorem scanWord_append (h : Stops prolongsWord rest) (c : Char) (cs : List Char) :
    scanWord c (cs ++ rest) = scanWord c cs := by
  have hname : Stops isNameChar rest := h.of_imp fun x hx => by simp [prolongsWord, hx]
  have hle := runLength_le isNameChar cs
  simp only [scanWord, runLength_append hname, List.take_append_of_le_length hle,
    List.drop_append_of_le_length hle]
  cases hdrop : cs.drop (runLength isNameChar cs) with
  | cons x xs => rfl
  | nil =>
    cases rest with
    | nil => rfl
    | cons x rest =>
      have hx : sharesLeadByte x = false := by
        have := h.eq_false
        simp only [prolongsWord, Bool.or_eq_false_iff] at this
        exact this.2
      simp [wordKind, hx]

theorem isNameChar_of_isDigit {x : Char} (h : x.isDigit = true) : isNameChar x = true := by
  have hlt : x.toNat < 0x80 := by
    simp only [Char.isDigit, Bool.and_eq_true, decide_eq_true_eq, UInt32.le_iff_toNat_le] at h
    exact Nat.lt_of_le_of_lt h.2 (by decide)
  simp [isNameChar, Unicode.isNumber, hlt, h]

theorem isNameChar_of_isAlpha {x : Char} (h : x.isAlpha = true) : isNameChar x = true := by
  simp [isNameChar, Unicode.isLetter_of_isAlpha h]

theorem isNameChar_of_isHexDigit {x : Char} (h : isHexDigit x = true) : isNameChar x = true := by
  rcases Bool.or_eq_true _ _ ▸ h with h | h
  · rcases Bool.or_eq_true _ _ ▸ h with h | h
    · exact isNameChar_of_isDigit h
    · simp only [Bool.and_eq_true, decide_eq_true_eq] at h
      have hz : x.val ≤ 'z'.val := UInt32.le_trans h.2 (by decide)
      have hlower : x.isLower = true :=
        Bool.and_eq_true_iff.mpr ⟨decide_eq_true h.1, decide_eq_true hz⟩
      exact isNameChar_of_isAlpha (Bool.or_eq_true_iff.mpr (.inr hlower))
  · simp only [Bool.and_eq_true, decide_eq_true_eq] at h
    have hz : x.val ≤ 'Z'.val := UInt32.le_trans h.2 (by decide)
    have hupper : x.isUpper = true := decide_eq_true ⟨h.1, hz⟩
    exact isNameChar_of_isAlpha (Bool.or_eq_true_iff.mpr (.inl hupper))

theorem exponentLength_of_ne {x : Char} (hx : ¬ (x = 'e' ∨ x = 'E')) (cs : List Char) :
    exponentLength (x :: cs) = 0 := by
  rw [exponentLength.eq_def]
  simp only
  rw [if_neg (by simpa using hx)]

theorem not_exponent_of_stops {x : Char} (h : Stops isNameChar (x :: rest)) :
    ¬ (x = 'e' ∨ x = 'E') := by
  rintro (rfl | rfl)
  · exact absurd h.eq_false (by decide)
  · exact absurd h.eq_false (by decide)

/-- Only a letter for an exponent at the end may have it after it. -/
theorem exponentLength_append (h : Stops isNameChar rest) (hcs : cs ≠ ['e'] ∧ cs ≠ ['E']) :
    exponentLength (cs ++ rest) = exponentLength cs := by
  have hdigit : Stops Char.isDigit rest := h.of_imp fun _ => isNameChar_of_isDigit
  cases cs with
  | nil =>
    cases rest with
    | nil => rfl
    | cons x rest => exact exponentLength_of_ne (not_exponent_of_stops h) rest
  | cons e cs =>
    cases cs with
    | nil =>
      have he : ¬ (e = 'e' ∨ e = 'E') := by
        rintro (rfl | rfl)
        · exact hcs.1 rfl
        · exact hcs.2 rfl
      rw [List.singleton_append, exponentLength_of_ne he, exponentLength_of_ne he]
    | cons s ds =>
      have hds := runLength_append hdigit ds
      have hsds := runLength_append hdigit (s :: ds)
      rw [List.cons_append] at hsds
      simp only [List.cons_append, exponentLength, hds, hsds]

theorem fractionLength_append (h : Stops isNameChar rest) (cs : List Char) :
    fractionLength (cs ++ rest) = fractionLength cs := by
  have hdigit : Stops Char.isDigit rest := h.of_imp fun _ => isNameChar_of_isDigit
  cases cs with
  | nil =>
    cases rest with
    | nil => rfl
    | cons x rest =>
      have hx : x ≠ '.' := by
        rintro rfl
        exact absurd h.eq_false (by decide)
      simp only [List.nil_append, fractionLength, if_neg hx]
  | cons x cs => simp only [List.cons_append, fractionLength, runLength_append hdigit]

theorem hexLength_append (h : Stops isNameChar rest) (cs : List Char) :
    hexLength (cs ++ rest) = hexLength cs := by
  have hhex : Stops isHexDigit rest := h.of_imp fun _ => isNameChar_of_isHexDigit
  cases cs with
  | nil =>
    cases rest with
    | nil => rfl
    | cons x rest =>
      have hx : (decide (x = 'x') || decide (x = 'X')) = false := by
        have hname := h.eq_false
        simp only [Bool.or_eq_false_iff, decide_eq_false_iff_not]
        constructor
        · rintro rfl
          exact absurd hname (by decide)
        · rintro rfl
          exact absurd hname (by decide)
      rw [List.nil_append, hexLength, hx]
      rfl
  | cons x cs => simp only [List.cons_append, hexLength, runLength_append hhex]

/-- Only the next character tells a suffix. -/
theorem suffixed_eq (n : Nat) (cs : List Char) :
    suffixed n cs = if (cs.drop n).head? = some 'L' then (.integer, n + 1)
      else if (cs.drop n).head? = some 'i' then (.complex, n + 1) else (.numeric, n) := by
  rw [suffixed]
  split
  · next h => simp [h]
  · next h => simp [h]
  · next hL hi =>
    cases hdrop : cs.drop n with
    | nil => rfl
    | cons x xs =>
      have hL : x ≠ 'L' := fun hx => hL xs (by rw [hdrop, hx])
      have hi : x ≠ 'i' := fun hx => hi xs (by rw [hdrop, hx])
      simp [hL, hi]

theorem suffixed_append (h : Stops isNameChar rest) {n : Nat} (hn : n ≤ cs.length) :
    suffixed n (cs ++ rest) = suffixed n cs := by
  rw [suffixed_eq, suffixed_eq, List.drop_append_of_le_length hn]
  cases cs.drop n with
  | cons x xs => rfl
  | nil =>
    have hnone : ∀ x, isNameChar x = true → rest.head? ≠ some x := by
      intro x hx hrest
      have := h x hrest
      rw [hx] at this
      cases this
    simp [hnone 'L' (by decide), hnone 'i' (by decide)]

theorem le_suffixed (n : Nat) (cs : List Char) : n ≤ (suffixed n cs).2 := by
  rw [suffixed]
  split <;> simp

theorem suffixed_of_drop {n : Nat} {x : Char} (hx : x = 'e' ∨ x = 'E') (h : cs.drop n = x :: ds) :
    (suffixed n cs).2 = n := by
  rw [suffixed, h]
  rcases hx with rfl | rfl
  · rfl
  · rfl

/-- A number whose whole and broken part are known: an exponent and a suffix may follow. -/
def withExponent (n : Nat) (cs : List Char) : TokenKind × Nat :=
  suffixed (n + exponentLength (cs.drop n)) cs

theorem exponentLength_le (cs : List Char) : exponentLength cs ≤ cs.length := by
  cases cs with
  | nil => exact Nat.le_refl 0
  | cons e cs =>
    rw [exponentLength.eq_def]
    simp only
    split
    · cases cs with
      | nil => exact Nat.zero_le _
      | cons s ds =>
        have hds := runLength_le Char.isDigit ds
        have hsds := runLength_le Char.isDigit (s :: ds)
        simp only [List.length_cons] at hsds ⊢
        split <;> split <;> omega
    · exact Nat.zero_le _

/-- A number of `short` characters within `length` and of `long` when more come after these does not
stop where the letter of an exponent is the last of them. -/
def Settled (short long length : Nat) : Prop :=
  short + 1 ≠ length ∨ long ≤ length ∧ long + 1 ≠ length

theorem Settled.of_short {short long length : Nat} (h : short = length) :
    Settled short long length := .inl (by omega)

theorem Settled.of_long {short long length : Nat} (h : long = length) :
    Settled short long length := .inr (by omega)

/-- The letter of an exponent goes with a digit, or is no exponent. -/
theorem exponentLength_cons (x : Char) (cs : List Char) :
    exponentLength (x :: cs) = 0 ∨ 2 ≤ exponentLength (x :: cs) := by
  rw [exponentLength.eq_def]
  simp only
  split
  · cases cs with
    | nil => exact .inl rfl
    | cons s ds =>
      simp only
      split
      · split <;> omega
      · split
        · exact .inl rfl
        · omega
  · exact .inl rfl

/-- A number that is settled does not end with the letter of an exponent. -/
theorem Settled.drop_ne {x : Char} {n : Nat} (hx : x = 'e' ∨ x = 'E')
    (h : Settled (withExponent n cs).2 (withExponent n (cs ++ rest)).2 cs.length) :
    cs.drop n ≠ [x] := by
  intro hlast
  have hlength : cs.length = n + 1 := by
    have := congrArg List.length hlast
    rw [List.length_drop, List.length_singleton] at this
    omega
  have hdrop : (cs ++ rest).drop n = x :: rest := by
    rw [List.drop_append_of_le_length (by omega), hlast, List.singleton_append]
  have hnone : exponentLength [x] = 0 := by
    rcases hx with rfl | rfl
    · rfl
    · rfl
  have hshort : (withExponent n cs).2 = n := by
    rw [withExponent, hlast, hnone]
    exact suffixed_of_drop hx hlast
  have hlong : (withExponent n (cs ++ rest)).2 ≠ n + 1 := by
    rw [withExponent, hdrop]
    rcases exponentLength_cons x rest with hzero | htwo
    · rw [hzero, Nat.add_zero, suffixed_of_drop hx hdrop]
      omega
    · have := le_suffixed (n + exponentLength (x :: rest)) (cs ++ rest)
      omega
  have hge : n ≤ (withExponent n (cs ++ rest)).2 :=
    Nat.le_trans (Nat.le_add_right n _) (le_suffixed _ _)
  rcases h with hwhole | hwhole
  · omega
  · omega

theorem withExponent_append (h : Stops isNameChar rest) {n : Nat} (hn : n ≤ cs.length)
    (hwhole : Settled (withExponent n cs).2 (withExponent n (cs ++ rest)).2 cs.length) :
    withExponent n (cs ++ rest) = withExponent n cs := by
  have hexponent : exponentLength ((cs ++ rest).drop n) = exponentLength (cs.drop n) := by
    rw [List.drop_append_of_le_length hn]
    exact exponentLength_append h ⟨hwhole.drop_ne (.inl rfl), hwhole.drop_ne (.inr rfl)⟩
  have hle : n + exponentLength (cs.drop n) ≤ cs.length := by
    have := exponentLength_le (cs.drop n)
    rw [List.length_drop] at this
    omega
  rw [withExponent, hexponent, suffixed_append h hle]
  rfl

theorem fractionLength_le (cs : List Char) : fractionLength cs ≤ cs.length := by
  cases cs with
  | nil => exact Nat.le_refl 0
  | cons x cs =>
    have := runLength_le Char.isDigit cs
    rw [fractionLength, List.length_cons]
    split <;> omega

theorem hexLength_le (cs : List Char) : hexLength cs ≤ cs.length := by
  cases cs with
  | nil => exact Nat.le_refl 0
  | cons x cs =>
    have := runLength_le isHexDigit cs
    simp only [hexLength, List.length_cons]
    split
    · split <;> omega
    · omega

theorem scanFraction_append (cs : List Char) (h : Stops isNameChar rest)
    (hwhole : Settled (scanFraction cs).2 (scanFraction (cs ++ rest)).2 cs.length) :
    scanFraction (cs ++ rest) = scanFraction cs := by
  have hrun : runLength Char.isDigit (cs ++ rest) = runLength Char.isDigit cs :=
    runLength_append (h.of_imp fun _ => isNameChar_of_isDigit) cs
  have hshort : scanFraction cs = withExponent (runLength Char.isDigit cs) cs := rfl
  have hlong : scanFraction (cs ++ rest) = withExponent (runLength Char.isDigit cs) (cs ++ rest) :=
    by rw [← hrun]; rfl
  rw [hshort, hlong] at hwhole ⊢
  exact withExponent_append h (runLength_le _ cs) hwhole

theorem scanNumber_append (h : Stops isNameChar rest) (c : Char)
    (hwhole : Settled (scanNumber c cs).2 (scanNumber c (cs ++ rest)).2 cs.length) :
    scanNumber c (cs ++ rest) = scanNumber c cs := by
  have hrun : runLength Char.isDigit (cs ++ rest) = runLength Char.isDigit cs :=
    runLength_append (h.of_imp fun _ => isNameChar_of_isDigit) cs
  have hle := runLength_le Char.isDigit cs
  have hdrop : (cs ++ rest).drop (runLength Char.isDigit cs) =
      cs.drop (runLength Char.isDigit cs) ++ rest := List.drop_append_of_le_length hle
  have hfraction := fractionLength_le (cs.drop (runLength Char.isDigit cs))
  rw [List.length_drop] at hfraction
  have hhexle : (if c = '0' then hexLength cs else 0) ≤ cs.length := by
    have := hexLength_le cs
    split <;> omega
  simp only [scanNumber, hexLength_append h, hrun, hdrop, fractionLength_append h] at hwhole ⊢
  generalize (if c = '0' then hexLength cs else 0) = hex at hhexle hwhole ⊢
  by_cases hhex : hex ≠ 0
  · rw [if_pos hhex, if_pos hhex]
    exact suffixed_append h hhexle
  · rw [if_neg hhex, if_neg hhex] at hwhole ⊢
    exact withExponent_append h (by omega) hwhole

/-- The characters that go on a point that is a name. -/
theorem scanPoint_append (h : Stops prolongsWord rest)
    (hwhole : Settled (scanPoint cs).2 (scanPoint (cs ++ rest)).2 cs.length) :
    scanPoint (cs ++ rest) = scanPoint cs := by
  have hname : Stops isNameChar rest := h.of_imp fun x hx => by simp [prolongsWord, hx]
  cases cs with
  | nil =>
    cases rest with
    | nil => rfl
    | cons x rest =>
      have hx : isNameChar x = false := hname.eq_false
      have hdigit : x.isDigit = false := by
        cases hdigit : x.isDigit with
        | false => rfl
        | true => rw [isNameChar_of_isDigit hdigit] at hx; cases hx
      have hletter : (Unicode.isLetter x || decide (x = '.') || decide (x = '_')) = false := by
        simp only [isNameChar, Bool.or_eq_false_iff] at hx ⊢
        exact ⟨⟨hx.1.1.1, hx.1.2⟩, hx.2⟩
      simp [scanPoint, hdigit, hletter]
  | cons d cs =>
    have hword := scanWord_append h '.' (d :: cs)
    have hfraction := scanFraction_append (d :: cs) hname
    simp only [List.cons_append, scanPoint] at hwhole hword hfraction ⊢
    split
    · next hd =>
      rw [if_pos hd, if_pos hd] at hwhole
      exact hfraction hwhole
    · rw [hword]

/-! ### What is closed -/

/-- A run and the character that ends it. -/
theorem runLength_add_one_eq_iff :
    runLength p (w ++ rest) + 1 = w.length ↔
      ∃ body x, w = body ++ [x] ∧ p x = false ∧ ∀ y ∈ body, p y = true := by
  constructor
  · intro h
    have hle : runLength p (w ++ rest) ≤ w.length := by omega
    have hall := all_take_runLength (p := p) (w ++ rest)
    have hstops := stops_drop_runLength (p := p) (w ++ rest)
    rw [List.take_append_of_le_length hle] at hall
    rw [List.drop_append_of_le_length hle] at hstops
    obtain ⟨x, hx⟩ : ∃ x, w.drop (runLength p (w ++ rest)) = [x] := by
      rw [← List.length_eq_one_iff, List.length_drop]
      omega
    rw [hx] at hstops
    refine ⟨w.take (runLength p (w ++ rest)), x, ?_, hstops x rfl, hall⟩
    rw [← hx, List.take_append_drop]
  · rintro ⟨body, x, rfl, hx, hbody⟩
    rw [List.append_assoc, List.singleton_append, runLength_append_cons hbody hx,
      List.length_append, List.length_singleton]

theorem scanBackticked_eq_iff (w rest : List Char) :
    scanBackticked (w ++ rest) = (.identifier, w.length) ↔
      ∃ name, w = name ++ [backtick] ∧ backtick ∉ name := by
  have hrun : (∃ name, w = name ++ [backtick] ∧ backtick ∉ name) ↔
      runLength (· ≠ backtick) (w ++ rest) + 1 = w.length := by
    rw [runLength_add_one_eq_iff]
    constructor
    · rintro ⟨name, rfl, hname⟩
      exact ⟨name, backtick, rfl, by simp, fun y hy => by
        simpa using fun hyb : y = backtick => hname (hyb ▸ hy)⟩
    · rintro ⟨name, x, rfl, hx, hname⟩
      obtain rfl : x = backtick := by simpa using hx
      exact ⟨name, rfl, fun hmem => by simpa using hname _ hmem⟩
  rw [hrun, scanBackticked]
  split
  · next hlt => simp
  · next hlt =>
    have hlen : w.length ≤ (w ++ rest).length := by simp
    simp only [Prod.mk.injEq, reduceCtorEq, false_and, false_iff]
    omega

theorem scanPercent_eq_iff (w rest : List Char) :
    scanPercent (w ++ rest) = (.specialOp, w.length) ↔
      ∃ name, w = name ++ ['%'] ∧ ∀ y ∈ name, y ≠ '%' ∧ y ≠ '\n' := by
  rw [scanPercent]
  constructor
  · intro h
    split at h
    · next hhead =>
      obtain ⟨name, x, rfl, hx, hname⟩ := runLength_add_one_eq_iff.mp (congrArg Prod.snd h)
      rw [List.append_assoc, List.singleton_append, runLength_append_cons hname hx,
        List.drop_left, List.head?_cons, Option.some.injEq] at hhead
      exact ⟨name, by rw [hhead], fun y hy => by simpa using hname y hy⟩
    · cases congrArg Prod.fst h
  · rintro ⟨name, rfl, hname⟩
    have hall : ∀ y ∈ name, (decide (y ≠ '%') && decide (y ≠ '\n')) = true := fun y hy => by
      simpa using hname y hy
    have hrun : runLength (fun y => decide (y ≠ '%') && decide (y ≠ '\n'))
        (name ++ '%' :: rest) = name.length := runLength_append_cons hall (by decide) rest
    rw [List.append_assoc, List.singleton_append, hrun, List.drop_left]
    simp

theorem quotedLength_escape (quote d : Char) (cs : List Char) :
    quotedLength quote ('\\' :: d :: cs) =
      ((quotedLength quote cs).1 + 2, (quotedLength quote cs).2) := rfl

theorem quotedLength_cons (hc : c ≠ '\\') (cs : List Char) :
    quotedLength quote (c :: cs) = if c = quote then (1, true)
      else ((quotedLength quote cs).1 + 1, (quotedLength quote cs).2) := by
  rw [quotedLength]
  · exact fun h _ => hc h
  · exact fun _ _ h _ => hc h

theorem quotedLength_pos (h : (quotedLength quote cs).2 = true) :
    0 < (quotedLength quote cs).1 := by
  fun_induction quotedLength quote cs with
  | case1 => cases h
  | case2 => cases h
  | case3 => exact Nat.succ_pos _
  | case4 => exact Nat.one_pos
  | case5 => exact Nat.succ_pos _

/-- A quoted text is as long as it is before its end, whatever comes after. -/
theorem quotedLength_append_iff (w : List Char) (rest : List Char) :
    quotedLength quote (w ++ rest) = (w.length, true) ↔
      quotedLength quote w = (w.length, true) := by
  fun_induction quotedLength quote w with
  | case1 =>
    refine ⟨fun h => ?_, fun h => by cases h⟩
    have hpos := quotedLength_pos (congrArg Prod.snd h)
    rw [h] at hpos
    exact absurd hpos (Nat.lt_irrefl 0)
  | case2 =>
    refine ⟨fun h => ?_, fun h => by cases h⟩
    cases rest with
    | nil => cases h
    | cons x rest =>
      rw [List.singleton_append, quotedLength_escape] at h
      simp at h
  | case3 x cs n closed hcs ih =>
    rw [hcs] at ih
    rw [List.cons_append, List.cons_append, quotedLength_escape]
    simp only [List.length_cons, Nat.add_right_cancel_iff, Prod.ext_iff] at ih ⊢
    exact ih
  | case4 cs h h' =>
    have hquote : quote ≠ '\\' := fun hq => by
      cases cs with
      | nil => exact h hq rfl
      | cons x cs => exact h' x cs hq rfl
    rw [List.cons_append, quotedLength_cons hquote, if_pos rfl]
  | case5 c cs h h' hne n closed hcs ih =>
    have hc : c ≠ '\\' := fun hq => by
      cases cs with
      | nil => exact h hq rfl
      | cons x cs => exact h' x cs hq rfl
    rw [hcs] at ih
    rw [List.cons_append, quotedLength_cons hc, if_neg hne]
    simp only [List.length_cons, Nat.add_right_cancel_iff, Prod.ext_iff] at ih ⊢
    exact ih

theorem scanString_append_iff (w : List Char) (rest : List Char) :
    scanString quote (w ++ rest) = (.string, w.length) ↔
      scanString quote w = (.string, w.length) := by
  have hclosed : ∀ cs : List Char, ∀ n, scanString quote cs = (.string, n) ↔
      quotedLength quote cs = (n, true) := by
    intro cs n
    cases h : quotedLength quote cs with
    | mk m closed =>
      cases closed with
      | true => simp [scanString, h]
      | false => simp [scanString, h]
  rw [hclosed, hclosed, quotedLength_append_iff]

/-! ### Raw strings -/

theorem isPrefixOf_append_of_le {goal cs : List Char} (h : goal.length ≤ cs.length)
    (rest : List Char) : goal.isPrefixOf (cs ++ rest) = goal.isPrefixOf cs := by
  rw [Bool.eq_iff_iff, List.isPrefixOf_iff_prefix, List.isPrefixOf_iff_prefix]
  exact ⟨fun hprefix => List.prefix_of_prefix_length_le hprefix (List.prefix_append cs rest) h,
    fun hprefix => hprefix.trans (List.prefix_append cs rest)⟩

/-- A place that is reached within a text is reached there whatever comes after. -/
theorem distanceTo?_append {goal cs : List Char} {n : Nat} (h : n + goal.length ≤ cs.length)
    (rest : List Char) : distanceTo? goal (cs ++ rest) = some n ↔ distanceTo? goal cs = some n := by
  induction cs generalizing n with
  | nil =>
    rw [List.length_nil] at h
    obtain rfl : goal = [] := List.eq_nil_of_length_eq_zero (by omega)
    obtain rfl : n = 0 := by omega
    cases rest with
    | nil => rfl
    | cons x rest => simp [distanceTo?]
  | cons c cs ih =>
    have hprefix := isPrefixOf_append_of_le (show goal.length ≤ (c :: cs).length by omega) rest
    rw [List.cons_append] at hprefix ⊢
    rw [distanceTo?, distanceTo?, hprefix]
    split
    · rfl
    · cases n with
      | zero => simp
      | succ n =>
        rw [List.length_cons] at h
        have hrest := ih (n := n) (by omega)
        simpa using hrest

/-- What closes a raw string with a number of dashes. -/
def rawCloser (close : Char) (dashes : Nat) (quote : Char) : List Char :=
  close :: List.replicate dashes '-' ++ [quote]

theorem length_rawCloser (close : Char) (dashes : Nat) (quote : Char) :
    (rawCloser close dashes quote).length = dashes + 2 := by
  simp [rawCloser]

theorem scanRaw_eq_string_iff {n : Nat} :
    scanRaw quote cs = (.string, n) ↔ ∃ bracket body close m,
      cs.drop (runLength (· = '-') cs) = bracket :: body ∧ closingBracket? bracket = some close ∧
        distanceTo? (rawCloser close (runLength (· = '-') cs) quote) body = some m ∧
        n = 2 * runLength (· = '-') cs + 4 + m := by
  have hlength := length_rawCloser
  simp only [rawCloser, List.cons_append] at hlength
  simp only [scanRaw, rawCloser]
  cases hbody : cs.drop (runLength (· = '-') cs) with
  | nil => simp
  | cons bracket body =>
    cases hclose : closingBracket? bracket with
    | none => simp [hclose]
    | some close =>
      cases hgoal : distanceTo? (close :: List.replicate (runLength (· = '-') cs) '-' ++ [quote])
        body with
      | none => simp_all
      | some m =>
        constructor
        · intro h
          simp only [hclose, hgoal, List.length_append, List.length_cons, List.length_replicate,
            List.length_nil, Prod.mk.injEq, true_and] at h
          exact ⟨bracket, body, close, m, rfl, hclose, hgoal, by omega⟩
        · rintro ⟨_, _, close', m', hcons, hclose', hgoal', rfl⟩
          obtain ⟨rfl, rfl⟩ := List.cons.inj hcons
          obtain rfl := Option.some.inj (hclose.symm.trans hclose')
          obtain rfl := Option.some.inj (hgoal.symm.trans hgoal')
          simp only [hclose, hgoal, List.length_append, List.length_cons, List.length_replicate,
            List.length_nil, Prod.mk.injEq, true_and]
          omega

theorem distanceTo?_le {goal cs : List Char} {n : Nat} (h : distanceTo? goal cs = some n) :
    n + goal.length ≤ cs.length := by
  induction cs generalizing n with
  | nil =>
    cases goal with
    | nil =>
      obtain rfl := Option.some.inj h
      exact Nat.le_refl 0
    | cons g goal => cases h
  | cons c cs ih =>
    rw [distanceTo?] at h
    split at h
    · next hprefix =>
      obtain rfl := Option.some.inj h
      have := (List.isPrefixOf_iff_prefix.mp hprefix).length_le
      omega
    · obtain ⟨m, hm, rfl⟩ := Option.map_eq_some_iff.mp h
      have := ih hm
      rw [List.length_cons]
      omega

theorem scanRaw_append_iff (w : List Char) (rest : List Char) :
    scanRaw quote (w ++ rest) = (.string, w.length + 1) ↔
      scanRaw quote w = (.string, w.length + 1) := by
  have hle := runLength_le (· = '-') w
  rw [scanRaw_eq_string_iff, scanRaw_eq_string_iff]
  cases hbody : w.drop (runLength (· = '-') w) with
  | nil =>
    -- Without a bracket there is no end either.
    have hdashes : runLength (· = '-') w = w.length := by
      have := congrArg List.length hbody
      rw [List.length_drop, List.length_nil] at this
      omega
    have hmore : w.length ≤ runLength (· = '-') (w ++ rest) := by
      have hall := all_take_runLength (p := (· = '-')) w
      rw [hdashes, List.take_length] at hall
      rw [runLength, List.takeWhile_append_of_pos hall, List.length_append]
      exact Nat.le_add_right _ _
    constructor
    · rintro ⟨_, _, _, _, -, -, -, h⟩
      omega
    · rintro ⟨_, _, _, _, hcons, -⟩
      cases hcons
  | cons bracket body =>
    have hlength := congrArg List.length hbody
    rw [List.length_drop, List.length_cons] at hlength
    have hsame : runLength (· = '-') (w ++ rest) = runLength (· = '-') w := by
      have hstops := stops_drop_runLength (p := (· = '-')) w
      have hall := all_take_runLength (p := (· = '-')) w
      rw [hbody] at hstops
      have hrun := runLength_append_cons hall hstops.eq_false (body ++ rest)
      rw [List.length_take_of_le hle, ← List.cons_append, ← hbody, ← List.append_assoc,
        List.take_append_drop] at hrun
      exact hrun
    rw [hsame, List.drop_append_of_le_length hle, hbody, List.cons_append]
    constructor
    · rintro ⟨_, _, close, m, hcons, hclose, hgoal, hn⟩
      obtain ⟨rfl, rfl⟩ := List.cons.inj hcons
      have hroom : m + (rawCloser close (runLength (· = '-') w) quote).length ≤ body.length := by
        rw [length_rawCloser]
        omega
      exact ⟨_, _, close, m, rfl, hclose, (distanceTo?_append hroom rest).mp hgoal, hn⟩
    · rintro ⟨_, _, close, m, hcons, hclose, hgoal, hn⟩
      obtain ⟨rfl, rfl⟩ := List.cons.inj hcons
      exact ⟨_, _, close, m, rfl, hclose,
        (distanceTo?_append (distanceTo?_le hgoal) rest).mpr hgoal, hn⟩

/-! ### Symbols -/

/-- The characters that fixed spellings have after their first. -/
def prolongsSymbol (x : Char) : Bool := symbols.any fun entry => entry.1.toList.tail.contains x

theorem isPrefixOf_append_of_stops {goal : List Char}
    (h : Stops (fun x => goal.tail.contains x) rest) (c : Char) (cs : List Char) :
    goal.isPrefixOf (c :: (cs ++ rest)) = goal.isPrefixOf (c :: cs) := by
  by_cases hle : goal.length ≤ (c :: cs).length
  · exact isPrefixOf_append_of_le hle rest
  · rw [Bool.eq_iff_iff, List.isPrefixOf_iff_prefix, List.isPrefixOf_iff_prefix]
    constructor
    · intro hprefix
      obtain ⟨more, rfl⟩ := List.prefix_of_prefix_length_le (List.prefix_append (c :: cs) rest)
        hprefix (by omega)
      obtain ⟨after, rfl⟩ := (List.prefix_append_right_inj (c :: cs)).mp hprefix
      cases more with
      | nil => simp at hle
      | cons x more => simpa using h.eq_false
    · exact fun hprefix => hprefix.trans (List.prefix_append (c :: cs) rest)

theorem scanSymbol_append (h : Stops prolongsSymbol rest) (c : Char) (cs : List Char) :
    scanSymbol c (cs ++ rest) = scanSymbol c cs := by
  have hprefix : ∀ entry ∈ symbols, entry.1.toList.isPrefixOf (c :: (cs ++ rest)) =
      entry.1.toList.isPrefixOf (c :: cs) := by
    intro entry hentry
    exact isPrefixOf_append_of_stops
      (h.of_imp fun x hx => List.any_eq_true.mpr ⟨entry, hentry, hx⟩) c cs
  rw [scanSymbol, List.find?_congr hprefix]
  rfl

/-! ### Lengths -/

theorem suffixed_le {n : Nat} (hn : n ≤ cs.length) : (suffixed n cs).2 ≤ cs.length := by
  have hlt : ∀ x, (cs.drop n).head? = some x → n < cs.length := by
    intro x hx
    rw [List.head?_drop] at hx
    exact (List.getElem?_eq_some_iff.mp hx).1
  rw [suffixed_eq]
  split
  · next h => exact hlt _ h
  split
  · next h => exact hlt _ h
  · exact hn

theorem withExponent_le {n : Nat} (hn : n ≤ cs.length) : (withExponent n cs).2 ≤ cs.length := by
  have hexponent := exponentLength_le (cs.drop n)
  rw [List.length_drop] at hexponent
  exact suffixed_le (by omega)

theorem scanNumber_le (c : Char) (cs : List Char) : (scanNumber c cs).2 ≤ cs.length := by
  have hrun := runLength_le Char.isDigit cs
  have hfraction := fractionLength_le (cs.drop (runLength Char.isDigit cs))
  rw [List.length_drop] at hfraction
  have hhex : (if c = '0' then hexLength cs else 0) ≤ cs.length := by
    have := hexLength_le cs
    split <;> omega
  simp only [scanNumber]
  generalize (if c = '0' then hexLength cs else 0) = hex at hhex ⊢
  split
  · exact suffixed_le hhex
  · exact withExponent_le (n := runLength Char.isDigit cs +
      fractionLength (cs.drop (runLength Char.isDigit cs))) (by omega)

theorem scanPoint_le (cs : List Char) : (scanPoint cs).2 ≤ cs.length := by
  cases cs with
  | nil => exact Nat.le_refl 0
  | cons d cs =>
    rw [scanPoint]
    split
    · exact withExponent_le (runLength_le Char.isDigit (d :: cs))
    split
    · exact runLength_le isNameChar (d :: cs)
    · exact Nat.zero_le _

theorem quotedLength_le (quote : Char) (cs : List Char) :
    (quotedLength quote cs).1 ≤ cs.length := by
  fun_induction quotedLength quote cs with
  | case1 => exact Nat.le_refl 0
  | case2 => exact Nat.zero_le _
  | case3 x cs n closed hcs ih =>
    rw [hcs] at ih
    simp only [List.length_cons] at ih ⊢
    omega
  | case4 => simp
  | case5 x cs _ _ _ n closed hcs ih =>
    rw [hcs] at ih
    simp only [List.length_cons] at ih ⊢
    omega

theorem scanRaw_le (quote : Char) (cs : List Char) : (scanRaw quote cs).2 ≤ cs.length + 1 := by
  have hrun := runLength_le (· = '-') cs
  have hlength := congrArg List.length
    (List.take_append_drop (runLength (· = '-') cs) cs)
  rw [List.length_append, List.length_take_of_le hrun] at hlength
  simp only [scanRaw]
  cases hbody : cs.drop (runLength (· = '-') cs) with
  | nil =>
    simp only
    omega
  | cons bracket body =>
    rw [hbody, List.length_cons] at hlength
    simp only
    split
    · split
      · next n hn =>
        have := distanceTo?_le hn
        simp only
        omega
      · simp only
        omega
    · simp only
      omega

theorem scanLetter_le (c : Char) (cs : List Char) : (scanLetter c cs).2 ≤ cs.length := by
  cases cs with
  | nil => exact runLength_le isNameChar []
  | cons q cs =>
    rw [scanLetter]
    split
    · exact scanRaw_le q cs
    · exact runLength_le isNameChar (q :: cs)

theorem scanSymbol_le (c : Char) (cs : List Char) : (scanSymbol c cs).2 ≤ cs.length := by
  rw [scanSymbol]
  split
  · next spelling kind h =>
    have hprefix : spelling.toList.isPrefixOf (c :: cs) = true := by simpa using List.find?_some h
    have hlength := (List.isPrefixOf_iff_prefix.mp hprefix).length_le
    rw [String.length_toList, List.length_cons] at hlength
    simp only
    omega
  · exact Nat.zero_le _

end RSource.Lexeme
