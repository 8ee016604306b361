import RSource.Proofs.Lexeme.Ending

/-! Lexemes in general.  The first character of a lexeme tells its form.  A lexeme is cut in the same
way whatever comes after it, unless this begins with a character that goes on the lexeme
(`scan_append_iff`). -/

namespace RSource.Lexeme

variable {c : Char} {cs w rest : List Char} {k : TokenKind}

/-- Kinds of numbers. -/
def numbers : List TokenKind := [.integer, .numeric, .complex]

/-- What the first character of a lexeme makes of it. -/
inductive Start where
  | lineEnd
  | space
  | comment
  | string
  | tick
  | percent
  | digit
  | point
  | letter
  | symbol
  deriving DecidableEq

def Start.of (c : Char) : Start :=
  if c = '\n' then .lineEnd
  else if isSpace c then .space
  else if c = '#' then .comment
  else if isQuote c then .string
  else if c = backtick then .tick
  else if c = '%' then .percent
  else if c.isDigit then .digit
  else if c = '.' then .point
  else if Unicode.isLetter c then .letter
  else .symbol

namespace Start

/-- How a lexeme goes on after its first character. -/
def scan (c : Char) (cs : List Char) : Start → TokenKind × Nat
  | .lineEnd => (.newline, 0)
  | .space =>
    if c = '\r' && cs.head? = some '\n' then (.newline, 1) else (.whitespace, runLength isSpace cs)
  | .comment => (.comment, runLength (· ≠ '\n') cs)
  | .string => scanString c cs
  | .tick => scanBackticked cs
  | .percent => scanPercent cs
  | .digit => scanNumber c cs
  | .point => scanPoint cs
  | .letter => scanLetter c cs
  | .symbol => scanSymbol c cs

/-- The kinds that a lexeme of each form may have. -/
def kinds : Start → List TokenKind
  | .lineEnd => [.newline]
  | .space => [.newline, .whitespace]
  | .comment => [.comment]
  | .string => [.string, .openString]
  | .tick => [.identifier, .badCharacter]
  | .percent => [.specialOp, .badCharacter]
  | .digit => numbers
  | .point => .identifier :: .dots :: numbers
  | .letter => .identifier :: .string :: .openString :: .badCharacter :: reserved.map Prod.snd
  | .symbol => .badCharacter :: symbols.map Prod.snd

/-- The characters that may go on a lexeme of `c` and the characters `w` after it, or change what it
is. -/
def prolongs (c : Char) (w : List Char) (x : Char) : Start → Bool
  | .lineEnd | .string | .tick | .percent => false
  | .space =>
    !(c = '\r' && w.head? = some '\n') && (isSpace x || (c = '\r' && w.isEmpty && x = '\n'))
  | .comment => x ≠ '\n'
  | .digit => isNameChar x
  | .point => prolongsWord x
  | .letter =>
    !w.head?.any isQuote &&
      (prolongsWord x || ((c = 'r' || c = 'R') && w.isEmpty && isQuote x))
  | .symbol => prolongsSymbol x

end Start

theorem start_of_isSpace (h : isSpace c = true) : Start.of c = .space := by
  have hnewline : c ≠ '\n' := by
    rintro rfl
    exact absurd h (by decide)
  rw [Start.of, if_neg hnewline, if_pos h]

theorem scan_eq (c : Char) (cs : List Char) : scan c cs = (Start.of c).scan c cs := by
  rw [scan, Start.of]
  by_cases hnewline : c = '\n'
  · rw [if_pos hnewline, if_pos hnewline]
    rfl
  rw [if_neg hnewline, if_neg hnewline]
  by_cases hspace : isSpace c = true
  · rw [if_pos hspace, if_pos hspace]
    rfl
  have hreturn : c ≠ '\r' := fun hc => hspace (by simp [isSpace, hc])
  rw [if_neg (by simp [hreturn]), if_neg hspace, if_neg hspace]
  by_cases hcomment : c = '#'
  · rw [if_pos hcomment, if_pos hcomment]
    rfl
  rw [if_neg hcomment, if_neg hcomment, ← isQuote]
  repeat' split
  all_goals rfl

/-! ### Kinds -/

theorem suffixed_kind (n : Nat) (cs : List Char) : (suffixed n cs).1 ∈ numbers := by
  rw [suffixed]
  split <;> simp [numbers]

theorem scanNumber_kind (c : Char) (cs : List Char) : (scanNumber c cs).1 ∈ numbers := by
  simp only [scanNumber]
  repeat' split
  all_goals exact suffixed_kind _ _

/-- A word is a name or reserved. -/
theorem wordKind_cases (word : List Char) (next : Option Char) :
    wordKind word next = .identifier ∨
      ∃ entry ∈ reserved, entry.1.toList = word ∧ wordKind word next = entry.2 := by
  rw [wordKind]
  split
  · exact .inl rfl
  · rw [reserved?]
    cases hfind : reserved.find? fun entry => entry.1.toList = word with
    | none => exact .inl rfl
    | some entry =>
      refine .inr ⟨entry, List.mem_of_find?_eq_some hfind, ?_, rfl⟩
      simpa using List.find?_some hfind

theorem scanWord_kind (c : Char) (cs : List Char) :
    (scanWord c cs).1 = .identifier ∨
      ∃ entry ∈ reserved, entry.1.toList.head? = some c ∧ (scanWord c cs).1 = entry.2 := by
  rcases wordKind_cases (c :: cs.take (runLength isNameChar cs))
    (cs.drop (runLength isNameChar cs)).head? with hname | ⟨entry, hentry, hspelled, hkind⟩
  · exact .inl hname
  · exact .inr ⟨entry, hentry, by rw [hspelled]; rfl, hkind⟩

theorem scanPoint_kind (cs : List Char) : (scanPoint cs).1 ∈ Start.point.kinds := by
  have hnumber : ∀ k ∈ numbers, k ∈ Start.point.kinds := by decide
  have hreserved : ∀ entry ∈ reserved, entry.1.toList.head? = some '.' →
      entry.2 ∈ Start.point.kinds := by decide
  rw [scanPoint.eq_def]
  split
  · split
    · exact hnumber _ (suffixed_kind _ _)
    split
    · rcases scanWord_kind '.' _ with hname | ⟨entry, hentry, hhead, hkind⟩
      · rw [hname]
        decide
      · rw [hkind]
        exact hreserved entry hentry hhead
    · simp [Start.kinds]
  · simp [Start.kinds]

theorem scanString_kind (quote : Char) (cs : List Char) :
    (scanString quote cs).1 ∈ Start.string.kinds := by
  simp only [scanString]
  split <;> simp [Start.kinds]

theorem scanBackticked_kind (cs : List Char) : (scanBackticked cs).1 ∈ Start.tick.kinds := by
  simp only [scanBackticked]
  split <;> simp [Start.kinds]

theorem scanPercent_kind (cs : List Char) : (scanPercent cs).1 ∈ Start.percent.kinds := by
  simp only [scanPercent]
  split <;> simp [Start.kinds]

theorem scanRaw_kind (quote : Char) (cs : List Char) :
    (scanRaw quote cs).1 ∈ [.string, .openString, .badCharacter] := by
  simp only [scanRaw]
  repeat' split
  all_goals simp

theorem scanLetter_kind (c : Char) (cs : List Char) : (scanLetter c cs).1 ∈ Start.letter.kinds := by
  have hraw : ∀ k ∈ [.string, .openString, .badCharacter], k ∈ Start.letter.kinds := by decide
  have hword : (scanWord c cs).1 ∈ Start.letter.kinds := by
    rcases scanWord_kind c cs with hname | ⟨entry, hentry, -, hkind⟩
    · rw [hname]
      decide
    · rw [hkind]
      simp [Start.kinds, List.mem_map_of_mem hentry]
  cases cs with
  | nil => exact hword
  | cons q cs =>
    rw [scanLetter]
    split
    · exact hraw _ (scanRaw_kind _ _)
    · exact hword

theorem scanSymbol_kind (c : Char) (cs : List Char) : (scanSymbol c cs).1 ∈ Start.symbol.kinds := by
  rw [scanSymbol]
  split
  · next entry hfind =>
    exact List.mem_cons_of_mem _ (List.mem_map_of_mem (List.mem_of_find?_eq_some hfind))
  · exact List.mem_cons_self

/-- The kind of a lexeme is one of those of its form. -/
theorem scan_kind (c : Char) (cs : List Char) : (scan c cs).1 ∈ (Start.of c).kinds := by
  rw [scan_eq]
  cases Start.of c with
  | lineEnd => exact List.mem_cons_self
  | comment => exact List.mem_cons_self
  | space =>
    rw [Start.scan]
    split <;> simp [Start.kinds]
  | string => exact scanString_kind c cs
  | tick => exact scanBackticked_kind cs
  | percent => exact scanPercent_kind cs
  | digit => exact scanNumber_kind c cs
  | point => exact scanPoint_kind cs
  | letter => exact scanLetter_kind c cs
  | symbol => exact scanSymbol_kind c cs

/-! ### What comes after -/

/-- Kinds of lexemes that lack their end. -/
def broken : List TokenKind := [.badCharacter, .openString]

/-- Kinds of lexemes whose text goes on for as long as it can. -/
def openEnded : List TokenKind := [.identifier, .integer, .numeric, .complex]

/-- Kinds of lexemes that may begin with a character of a name, or with a quote. -/
def wordLike : List TokenKind :=
  [.identifier, .dots, .underscore, .string, .integer, .numeric, .complex]

/-- Two scans that give a broken lexeme or one of the kind `closed` agree on every kind that is not
broken when they agree on `closed`. -/
theorem scan_iff_of_closed {scan scan' : TokenKind × Nat} {closed : TokenKind} {n : Nat}
    (hk : k ∉ broken) (hscan : scan.1 ∈ closed :: broken) (hscan' : scan'.1 ∈ closed :: broken)
    (h : scan = (closed, n) ↔ scan' = (closed, n)) : scan = (k, n) ↔ scan' = (k, n) := by
  have hkind : ∀ {s : TokenKind × Nat}, s.1 ∈ closed :: broken → s = (k, n) → k = closed := by
    rintro _ hmem rfl
    exact (List.mem_cons.mp hmem).resolve_right hk
  constructor
  · intro hs
    obtain rfl := hkind hscan hs
    exact h.mp hs
  · intro hs
    obtain rfl := hkind hscan' hs
    exact h.mpr hs

theorem scanLetter_eq_scanWord (h : ((c = 'r' || c = 'R') && cs.head?.any isQuote) = false) :
    scanLetter c cs = scanWord c cs := by
  cases cs with
  | nil => rfl
  | cons q cs =>
    rw [List.head?_cons, Option.any_some, isQuote] at h
    rw [scanLetter, h, if_neg Bool.false_ne_true]

/-- A quote is no part of a word. -/
theorem scanWord_quote {q : Char} (hq : isQuote q = true) (c : Char) (cs : List Char) :
    (scanWord c (q :: cs)).2 = 0 := by
  have hname : isNameChar q = false := by
    rcases Bool.or_eq_true _ _ ▸ hq with hq | hq
    · rw [of_decide_eq_true hq]; decide
    · rw [of_decide_eq_true hq]; decide
  exact runLength_eq_zero (stops_cons hname)

theorem scanLetter_append_iff (hk : k ∉ broken) (h : Stops (Start.prolongs c w · .letter) rest) :
    scanLetter c (w ++ rest) = (k, w.length) ↔ scanLetter c w = (k, w.length) := by
  cases w with
  | nil =>
    have hword : Stops prolongsWord rest := h.of_imp fun x hx => by simp [Start.prolongs, hx]
    have hquote : ((c = 'r' || c = 'R') && rest.head?.any isQuote) = false := by
      cases rest with
      | nil => exact Bool.and_false _
      | cons x rest =>
        have := h.eq_false
        simp only [Start.prolongs, List.head?_nil, Option.any_none, Bool.not_false,
          Bool.true_and, List.isEmpty_nil, Bool.and_true, Bool.or_eq_false_iff] at this
        exact this.2
    have hsame := scanWord_append hword c []
    rw [List.nil_append] at hsame ⊢
    rw [scanLetter_eq_scanWord hquote, hsame, scanLetter]
  | cons q w =>
    rw [List.cons_append, scanLetter, scanLetter]
    split
    · next hraw =>
      have hkinds : ∀ k ∈ [.string, .openString, .badCharacter],
          k ∈ TokenKind.string :: broken := by decide
      exact scan_iff_of_closed hk (hkinds _ (scanRaw_kind _ _)) (hkinds _ (scanRaw_kind _ _))
        (scanRaw_append_iff w rest)
    · next hraw =>
      by_cases hq : isQuote q = true
      · constructor
        · intro hscan
          have := scanWord_quote hq c (w ++ rest)
          rw [hscan] at this
          cases this
        · intro hscan
          have := scanWord_quote hq c w
          rw [hscan] at this
          cases this
      · have hword : Stops prolongsWord rest := h.of_imp fun x hx => by
          simp [Start.prolongs, hq, hx]
        rw [← List.cons_append, scanWord_append hword]

/-- What comes after a lexeme does not matter if it does not begin with a character that goes on
the lexeme. -/
theorem Start.scan_append_iff (hk : k ∉ broken) : (start : Start) →
    Stops (Start.prolongs c w · start) rest →
    (start.scan c (w ++ rest) = (k, w.length) ↔ start.scan c w = (k, w.length))
  | .lineEnd, _ => Iff.rfl
  | .space, h => by
    simp only [scan]
    by_cases hreturn : c = '\r' ∧ w.head? = some '\n'
    · obtain ⟨hc, hw⟩ := hreturn
      have hhead : (w ++ rest).head? = some '\n' := by
        rw [List.head?_append, hw]
        rfl
      simp [hc, hw, hhead]
    · have hspace : Stops isSpace rest := h.of_imp fun x hx => by
        simpa [prolongs, hx, Decidable.imp_iff_not_or] using hreturn
      have hhead : ¬ (c = '\r' ∧ (w ++ rest).head? = some '\n') := by
        rintro ⟨hc, hhead⟩
        cases w with
        | cons y w => exact hreturn ⟨hc, hhead⟩
        | nil => simpa [prolongs, hc] using h '\n' hhead
      rw [if_neg (by simpa using hhead), if_neg (by simpa using hreturn), runLength_append hspace]
  | .comment, h => by
    have hline : Stops (fun x => decide (x ≠ '\n')) rest := h
    rw [scan, scan, runLength_append hline]
  | .string, _ => by
    have hkinds : ∀ k ∈ Start.string.kinds, k ∈ TokenKind.string :: broken := by decide
    exact scan_iff_of_closed hk (hkinds _ (scanString_kind _ _)) (hkinds _ (scanString_kind _ _))
      (scanString_append_iff w rest)
  | .tick, _ => by
    have hkinds : ∀ k ∈ Start.tick.kinds, k ∈ TokenKind.identifier :: broken := by decide
    have hclosed := scanBackticked_eq_iff w []
    rw [List.append_nil] at hclosed
    exact scan_iff_of_closed hk (hkinds _ (scanBackticked_kind _)) (hkinds _ (scanBackticked_kind _))
      ((scanBackticked_eq_iff w rest).trans hclosed.symm)
  | .percent, _ => by
    have hkinds : ∀ k ∈ Start.percent.kinds, k ∈ TokenKind.specialOp :: broken := by decide
    have hclosed := scanPercent_eq_iff w []
    rw [List.append_nil] at hclosed
    exact scan_iff_of_closed hk (hkinds _ (scanPercent_kind _)) (hkinds _ (scanPercent_kind _))
      ((scanPercent_eq_iff w rest).trans hclosed.symm)
  | .digit, h => by
    rw [scan, scan]
    constructor
    · intro hscan
      rwa [scanNumber_append h c (.of_long (congrArg Prod.snd hscan))] at hscan
    · intro hscan
      rwa [scanNumber_append h c (.of_short (congrArg Prod.snd hscan))]
  | .point, h => by
    rw [scan, scan]
    constructor
    · intro hscan
      rwa [scanPoint_append h (.of_long (congrArg Prod.snd hscan))] at hscan
    · intro hscan
      rwa [scanPoint_append h (.of_short (congrArg Prod.snd hscan))]
  | .letter, h => scanLetter_append_iff hk h
  | .symbol, h => by rw [scan, scan, scanSymbol_append h]

theorem scan_append_iff (hk : k ∉ broken) (h : Stops (Start.prolongs c w · (.of c)) rest) :
    scan c (w ++ rest) = (k, w.length) ↔ scan c w = (k, w.length) := by
  rw [scan_eq, scan_eq]
  exact Start.scan_append_iff hk _ h

/-! ### Cutting -/

/-- A lexeme does not go on past the text. -/
theorem scan_le (c : Char) (cs : List Char) : (scan c cs).2 ≤ cs.length := by
  rw [scan_eq]
  cases Start.of c with
  | lineEnd => exact Nat.zero_le _
  | space =>
    have hrun := runLength_le isSpace cs
    rw [Start.scan]
    split
    · next h =>
      cases cs with
      | nil => simp at h
      | cons x cs => simp
    · exact hrun
  | comment => exact runLength_le (· ≠ '\n') cs
  | string => exact quotedLength_le c cs
  | tick =>
    have hrun := runLength_le (· ≠ backtick) cs
    rw [Start.scan, scanBackticked]
    split
    · next h => exact h
    · exact hrun
  | percent =>
    have hrun := runLength_le (fun c => c ≠ '%' && c ≠ '\n') cs
    rw [Start.scan, scanPercent]
    split
    · next h =>
      rw [List.head?_drop] at h
      exact (List.getElem?_eq_some_iff.mp h).1
    · exact hrun
  | digit => exact scanNumber_le c cs
  | point => exact scanPoint_le cs
  | letter => exact scanLetter_le c cs
  | symbol => exact scanSymbol_le c cs

/-- The first lexeme of a text and those of what comes after it. -/
theorem scanAll_eq_cons_iff {l : Lexeme} {ls : List Lexeme} :
    scanAll cs = l :: ls ↔ ∃ c w rest, l.chars = c :: w ∧ cs = c :: (w ++ rest) ∧
      scan c (w ++ rest) = (l.kind, w.length) ∧ scanAll rest = ls := by
  constructor
  · intro h
    cases cs with
    | nil => cases h
    | cons c cs =>
      rw [scanAll_cons] at h
      obtain ⟨rfl, rfl⟩ := List.cons.inj h
      refine ⟨c, cs.take (scan c cs).2, cs.drop (scan c cs).2, rfl, ?_, ?_, rfl⟩
      · rw [List.take_append_drop]
      · rw [List.take_append_drop, List.length_take_of_le (scan_le c cs)]
  · rintro ⟨c, w, rest, hchars, rfl, hscan, rfl⟩
    rw [scanAll_cons, hscan, List.take_left, List.drop_left, ← hchars]

/-- A text that is one lexeme. -/
theorem scanAll_eq_singleton_iff {l : Lexeme} :
    scanAll cs = [l] ↔
      ∃ c w, l.chars = c :: w ∧ cs = c :: w ∧ scan c w = (l.kind, w.length) := by
  rw [scanAll_eq_cons_iff]
  constructor
  · rintro ⟨c, w, rest, hchars, hcs, hscan, hrest⟩
    obtain rfl : rest = [] := by
      cases rest with
      | nil => rfl
      | cons x xs =>
        rw [scanAll_cons] at hrest
        cases hrest
    rw [List.append_nil] at hcs hscan
    exact ⟨c, w, hchars, hcs, hscan⟩
  · rintro ⟨c, w, hchars, hcs, hscan⟩
    exact ⟨c, w, [], hchars, by rwa [List.append_nil], by rwa [List.append_nil], rfl⟩

end RSource.Lexeme
