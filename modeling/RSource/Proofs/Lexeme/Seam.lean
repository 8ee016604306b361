import RSource.Proofs.Lexeme.Boundary

/-! What comes after a lexeme.  The longest lexeme is taken, so that the next character does not go
on it.  There are two exceptions: an operator may be followed by characters that others of its kind
have, and a number by letters that make no exponent. -/

namespace RSource.Lexeme

variable {c x : Char} {w xs rest : List Char} {k : TokenKind}

namespace Start

/-- What is known of the first character of a lexeme. -/
def Known (x : Char) : Start → Prop
  | .lineEnd => x = '\n'
  | .space => isSpace x = true
  | .comment => x = '#'
  | .string => isQuote x = true
  | .tick => x = backtick
  | .percent => x = '%'
  | .digit => x.isDigit = true
  | .point => x = '.'
  | .letter => Unicode.isLetter x = true
  | .symbol => True

theorem known_of (x : Char) : (Start.of x).Known x := by
  unfold Start.of
  repeat' split
  all_goals first
    | assumption
    | trivial

theorem known {start : Start} (h : Start.of x = start) : start.Known x := h ▸ known_of x

end Start

theorem isSpace_cases (h : isSpace x = true) : x = ' ' ∨ x = '\t' ∨ x = '\x0c' ∨ x = '\r' := by
  simpa [isSpace, or_assoc] using h

theorem isQuote_cases (h : isQuote x = true) : x = doubleQuote ∨ x = singleQuote := by
  simpa [isQuote] using h

/-- Only an underscore is a symbol that goes on a word. -/
theorem eq_underscore_of_scanSymbol (hx : prolongsWord x = true)
    (h : (scanSymbol x xs).1 ∉ broken) : x = '_' := by
  rw [scanSymbol] at h
  split at h
  · next spelling kind hfind =>
    have hprefix : spelling.toList.isPrefixOf (x :: xs) = true := by
      simpa using List.find?_some hfind
    have hall : ∀ entry ∈ symbols, entry.1.toList.head?.all (fun y =>
        !prolongsWord y || y == '_') = true := by decide
    have hnonempty : ∀ entry ∈ symbols, entry.1.toList ≠ [] := by decide
    have hmem := List.mem_of_find?_eq_some hfind
    obtain ⟨y, ys, hy⟩ := List.exists_cons_of_ne_nil (hnonempty _ hmem)
    rw [hy, List.isPrefixOf_iff_prefix] at hprefix
    obtain rfl : y = x := (List.cons_prefix_cons.mp hprefix).1
    simpa [hy, hx] using hall _ hmem
  · exact absurd (by decide) h

/-- Where a lexeme begins with a character that goes on a word. -/
theorem start_of_prolongsWord (hx : prolongsWord x = true) (h : (scan x xs).1 ∉ broken) :
    Start.of x = .digit ∨ Start.of x = .point ∨ Start.of x = .letter ∨ x = '_' := by
  rw [scan_eq] at h
  cases hstart : Start.of x with
  | digit => exact .inl rfl
  | point => exact .inr (.inl rfl)
  | letter => exact .inr (.inr (.inl rfl))
  | symbol => exact .inr (.inr (.inr (eq_underscore_of_scanSymbol hx (by rwa [hstart] at h))))
  | lineEnd =>
    obtain rfl := Start.known hstart
    exact absurd hx (by decide)
  | space =>
    rcases isSpace_cases (Start.known hstart) with rfl | rfl | rfl | rfl
    all_goals exact absurd hx (by decide)
  | comment =>
    obtain rfl := Start.known hstart
    exact absurd hx (by decide)
  | string =>
    rcases isQuote_cases (Start.known hstart) with rfl | rfl
    all_goals exact absurd hx (by decide)
  | tick =>
    obtain rfl := Start.known hstart
    exact absurd hx (by decide)
  | percent =>
    obtain rfl := Start.known hstart
    exact absurd hx (by decide)

/-- The characters are none, or a lexeme that has its end begins there. -/
def Begun (rest : List Char) : Prop := ∀ x xs, rest = x :: xs → (scan x xs).1 ∉ broken

theorem Begun.start (h : Begun rest) (hx : x ∈ rest.head?) (hword : prolongsWord x = true) :
    Start.of x = .digit ∨ Start.of x = .point ∨ Start.of x = .letter ∨ x = '_' := by
  cases rest with
  | nil => cases hx
  | cons y ys =>
    obtain rfl : y = x := Option.some.inj hx
    exact start_of_prolongsWord hword (h y ys rfl)

theorem Begun.stops (h : Begun rest) (hname : Stops isNameChar rest) : Stops prolongsWord rest := by
  intro x hx
  have hnot := hname x hx
  cases hword : prolongsWord x with
  | false => rfl
  | true =>
    simp only [isNameChar, Bool.or_eq_false_iff, decide_eq_false_iff_not] at hnot
    rcases h.start hx hword with hstart | hstart | hstart | hstart
    · have hdigit := isNameChar_of_isDigit (Start.known hstart)
      rw [hname x hx] at hdigit
      cases hdigit
    · exact absurd (Start.known hstart) hnot.1.2
    · have hletter : Unicode.isLetter x = true := Start.known hstart
      rw [hnot.1.1.1] at hletter
      cases hletter
    · exact absurd hstart hnot.2

/-- A run that takes up a whole piece ends there. -/
theorem stops_of_runLength {p : Char → Bool} (h : runLength p (w ++ rest) = w.length) :
    Stops p rest := by
  have hstops := stops_drop_runLength (p := p) (w ++ rest)
  rwa [h, List.drop_left] at hstops

theorem scanPoint_stops (hbegun : Begun rest) (hk : k ∉ numbers)
    (h : scanPoint (w ++ rest) = (k, w.length)) : Stops prolongsWord rest := by
  cases hcs : w ++ rest with
  | nil =>
    obtain rfl := (List.append_eq_nil_iff.mp hcs).2
    intro x hx
    cases hx
  | cons d cs =>
    rw [hcs, scanPoint] at h
    split at h
    · have hnumber : (scanFraction (d :: cs)).1 ∈ numbers := suffixed_kind _ _
      rw [h] at hnumber
      exact absurd hnumber hk
    split at h
    · rw [← hcs, scanWord] at h
      exact hbegun.stops (stops_of_runLength (congrArg Prod.snd h))
    · next hdigit hname =>
      obtain rfl : w = [] := List.eq_nil_of_length_eq_zero (congrArg Prod.snd h).symm
      rw [List.nil_append] at hcs
      intro x hx
      obtain rfl : d = x := by
        rw [hcs] at hx
        exact Option.some.inj hx
      cases hword : prolongsWord d with
      | false => rfl
      | true =>
        refine absurd (hbegun.start (x := d) (by simp [hcs]) hword) ?_
        simp only [Bool.or_eq_true, decide_eq_true_eq, not_or] at hname
        rintro (hstart | hstart | hstart | hstart)
        · exact hdigit (Start.known hstart)
        · exact hname.1.2 (Start.known hstart)
        · exact hname.1.1 (Start.known hstart)
        · exact hname.2 hstart

theorem scanRaw_pos (quote : Char) (cs : List Char) : 0 < (scanRaw quote cs).2 := by
  simp only [scanRaw]
  repeat' split
  all_goals
    simp only
    omega

/-- What begins with a letter and is no string is a word. -/
theorem scanWord_of_scanLetter (hstring : k ≠ .string) (hk : k ∉ broken) {cs : List Char} {n : Nat}
    (h : scanLetter c cs = (k, n)) : scanWord c cs = (k, n) := by
  have hraw : ∀ k ∈ [.string, .openString, .badCharacter], k = .string ∨ k ∈ broken := by decide
  cases cs with
  | nil => exact h
  | cons q cs =>
    rw [scanLetter] at h
    split at h
    · have hkind := scanRaw_kind q cs
      rw [h] at hkind
      exact ((hraw k hkind).elim hstring hk).elim
    · exact h

theorem scanLetter_stops (hbegun : Begun rest) (h : scanLetter c (w ++ rest) = (k, w.length)) :
    Stops (Start.prolongs c w · .letter) rest := by
  cases hcs : w ++ rest with
  | nil =>
    obtain rfl := (List.append_eq_nil_iff.mp hcs).2
    intro x hx
    cases hx
  | cons q cs =>
    have hhead : w = [] ∨ w.head? = some q := by
      cases w with
      | nil => exact .inl rfl
      | cons y w => exact .inr (congrArg some (List.cons.inj hcs).1)
    rw [hcs, scanLetter] at h
    split at h
    · next hraw =>
      simp only [Bool.and_eq_true] at hraw
      rcases hhead with rfl | hhead
      · have hpos := scanRaw_pos q cs
        rw [h] at hpos
        exact absurd hpos (Nat.lt_irrefl 0)
      · intro x _
        simp [Start.prolongs, hhead, isQuote, hraw.2]
    · next hraw =>
      rw [← hcs, scanWord] at h
      have hword := hbegun.stops (stops_of_runLength (congrArg Prod.snd h))
      intro x hx
      rcases hhead with rfl | hhead
      · have hq : rest.head? = some q := by rw [← List.nil_append rest, hcs]; rfl
        obtain rfl : q = x := Option.some.inj (hq.symm.trans hx)
        simp only [Start.prolongs, hword q hx, List.isEmpty_nil, Bool.and_true, Bool.false_or,
          isQuote]
        rw [Bool.eq_false_iff.mpr hraw, Bool.and_false]
      · have hsome : w.isEmpty = false := by
          cases w with
          | nil => cases hhead
          | cons y w => rfl
        simp [Start.prolongs, hword x hx, hsome]

/-- The lexeme is a number. -/
def Start.IsNumber (start : Start) (k : TokenKind) : Prop :=
  (start = .digit ∨ start = .point) ∧ k ∈ numbers

/-- The character after a lexeme does not go on it, if the lexeme is no operator and no number. -/
theorem Start.stops (hbegun : Begun rest) : (start : Start) → start ≠ .symbol →
    ¬ start.IsNumber k → start.scan c (w ++ rest) = (k, w.length) →
    Stops (Start.prolongs c w · start) rest
  | .lineEnd, _, _, _ => fun _ _ => rfl
  | .string, _, _, _ => fun _ _ => rfl
  | .tick, _, _, _ => fun _ _ => rfl
  | .percent, _, _, _ => fun _ _ => rfl
  | .symbol, hne, _, _ => absurd rfl hne
  | .comment, _, _, h => stops_of_runLength (congrArg Prod.snd h)
  | .digit, _, hk, h => by
    have hnumber := scanNumber_kind c (w ++ rest)
    rw [scan] at h
    rw [h] at hnumber
    exact absurd ⟨.inl rfl, hnumber⟩ hk
  | .point, _, hk, h => scanPoint_stops hbegun (fun hnumber => hk ⟨.inr rfl, hnumber⟩) h
  | .letter, _, _, h => scanLetter_stops hbegun h
  | .space, _, _, h => by
    rw [scan] at h
    split at h
    · next hreturn =>
      have hone : w.length = 1 := (congrArg Prod.snd h).symm
      obtain ⟨y, rfl⟩ := List.length_eq_one_iff.mp hone
      intro x _
      simp only [Bool.and_eq_true, decide_eq_true_eq] at hreturn
      obtain rfl : y = '\n' := Option.some.inj hreturn.2
      simp [prolongs, hreturn.1]
    · next hreturn =>
      have hspace : Stops isSpace rest := stops_of_runLength (congrArg Prod.snd h)
      intro x hx
      cases w with
      | cons y w => simp [prolongs, hspace x hx]
      | nil =>
        have hline : ¬ (c = '\r' ∧ x = '\n') := by
          rintro ⟨rfl, rfl⟩
          exact hreturn (by simpa using hx)
        simpa [prolongs, hspace x hx] using hline

/-! ### Reserved words after numbers -/

/-- A word that is no name is reserved, and ends where no name goes on. -/
theorem word_of_scanWord (hbegun : Begun rest) (hk : k ∉ wordLike)
    (h : scanWord c (w ++ rest) = (k, w.length)) : w ≠ [] ∧ Stops prolongsWord rest := by
  rw [scanWord] at h
  have hrun : runLength isNameChar (w ++ rest) = w.length := congrArg Prod.snd h
  have hkind := congrArg Prod.fst h
  simp only [hrun, List.take_left, List.drop_left] at hkind
  refine ⟨?_, hbegun.stops (stops_of_runLength hrun)⟩
  rintro rfl
  rcases wordKind_cases [c] rest.head? with hname | ⟨entry, hentry, hspelled, -⟩
  · rw [hname] at hkind
    exact hk (hkind ▸ by decide)
  · have hlong : ∀ entry ∈ reserved, entry.1.toList.length ≠ 1 := by decide
    exact hlong entry hentry (by rw [hspelled]; rfl)

/-- What begins like a name without being one is a reserved word. -/
theorem word_of_fresh (hbegun : Begun rest) (hname : isNameChar c = true) (hk : k ∉ broken)
    (hfresh : k ∉ wordLike) (h : scan c (w ++ rest) = (k, w.length)) :
    w ≠ [] ∧ Stops prolongsWord rest := by
  have hnumber : ∀ k ∈ numbers, k ∈ wordLike := by decide
  have hpoint : ∀ k ∈ Start.point.kinds, k ∈ wordLike := by decide
  have hkind : (scan c (w ++ rest)).1 = k := congrArg Prod.fst h
  have hword : prolongsWord c = true := by simp [prolongsWord, hname]
  have hstarts := start_of_prolongsWord hword (hkind ▸ hk)
  rw [scan_eq] at h hkind
  rcases hstarts with hstart | hstart | hstart | rfl
  · rw [hstart] at hkind
    exact absurd (hkind ▸ hnumber _ (scanNumber_kind _ _)) hfresh
  · rw [hstart] at hkind
    obtain rfl : c = '.' := Start.known hstart
    exact absurd (hkind ▸ hpoint _ (scanPoint_kind _)) hfresh
  · rw [hstart, Start.scan] at h
    have hstring : k ≠ .string := by
      rintro rfl
      exact hfresh (by decide)
    exact word_of_scanWord hbegun hfresh (scanWord_of_scanLetter hstring hk h)
  · have hsymbol : Start.of '_' = .symbol := by decide
    rw [hsymbol] at hkind
    exact absurd (hkind ▸ (by decide : TokenKind.underscore ∈ wordLike)) hfresh

end RSource.Lexeme
