import RSource.Proofs.Lexeme.Joined
import RSource.Rename

/-! Spellings of names and strings.  A name that is written in place of an identifier, or between the
delimiters of a string literal, is read where the old text was read, whatever stands around it. -/

namespace RSource.Lexeme

variable {c quote : Char} {w cs name rest post : List Char} {k : TokenKind} {l : Lexeme}
variable {ls : List Lexeme}

theorem start_of_identifier (h : (scan c cs).1 = .identifier) :
    Start.of c ∈ [.letter, .point, .tick] := by
  have hall : ∀ start : Start, .identifier ∈ start.kinds → start ∈ [.letter, .point, .tick] := by
    intro start
    cases start <;> decide
  exact hall _ (h ▸ scan_kind c cs)

theorem start_of_string (h : (scan c cs).1 = .string) : Start.of c ∈ [.string, .letter] := by
  have hall : ∀ start : Start, .string ∈ start.kinds → start ∈ [.string, .letter] := by
    intro start
    cases start <;> decide
  exact hall _ (h ▸ scan_kind c cs)

/-! ### Names -/

/-- What comes after a name that is a word neither goes on a word nor is a quote. -/
theorem stops_after_name (hscan : scan c (w ++ post) = (.identifier, w.length))
    (htick : c ≠ backtick) (hpost : scanAll post = ls) (hsound : Sound ls)
    (hapart : Apart (⟨.identifier, c :: w⟩ :: ls)) :
    Stops prolongsWord post ∧ Stops isQuote post := by
  have hbegun : Begun post := begun_of_sound (hpost ▸ hsound)
  have hstart := start_of_identifier (congrArg Prod.fst hscan)
  rw [scan_eq] at hscan
  refine ⟨?_, fun x hx => ?_⟩
  · simp only [List.mem_cons, List.not_mem_nil, or_false] at hstart
    rcases hstart with hstart | hstart | hstart
    · rw [hstart] at hscan
      have hword := scanWord_of_scanLetter (by decide) (by decide) hscan
      exact hbegun.stops (stops_of_runLength (congrArg Prod.snd hword))
    · rw [hstart] at hscan
      exact scanPoint_stops hbegun (by decide) hscan
    · exact absurd (Start.known hstart) htick
  · cases post with
    | nil => cases hx
    | cons y post =>
      obtain rfl : y = x := Option.some.inj hx
      cases hquote : isQuote y with
      | false => rfl
      | true =>
        -- A string would stand directly after the name.
        have hstring : ∀ k ∈ Start.string.kinds, k ∉ broken → k ∈ wordLike := by decide
        have hof : Start.of y = .string := by
          rcases isQuote_cases hquote with rfl | rfl
          · decide
          · decide
        have hkind := scan_kind y post
        rw [hof] at hkind
        rw [scanAll_cons] at hpost
        subst hpost
        have hopen : TokenKind.identifier ∈ openEnded := by decide
        have hfresh := (List.isChain_cons_cons.mp hapart).1 hopen
        exact absurd (hstring _ hkind (hsound _ List.mem_cons_self)) hfresh

/-- A name without backticks is a word. -/
theorem word_of_start (h : Start.of c ∈ [.letter, .point, .tick]) (htick : c ≠ backtick) :
    (Start.of c = .letter ∨ Start.of c = .point) ∧ isNameChar c = true := by
  simp only [List.mem_cons, List.not_mem_nil, or_false] at h
  rcases h with hstart | hstart | hstart
  · have hletter : Unicode.isLetter c = true := Start.known hstart
    exact ⟨.inl hstart, by simp [isNameChar, hletter]⟩
  · obtain rfl : c = '.' := Start.known hstart
    exact ⟨.inr hstart, by decide⟩
  · exact absurd (Start.known hstart) htick

theorem mem_nameStarts (h : Start.of c ∈ [.letter, .point, .tick]) : Start.of c ∈ nameStarts := by
  have hall : ∀ start ∈ [Start.letter, .point, .tick], start ∈ nameStarts := by decide
  exact hall _ h

/-- A word in place of a word. -/
theorem respells_word (hl : l.kind = .identifier) (hold : l.chars.head? ≠ some backtick)
    (hnew : name.head? ≠ some backtick)
    (hname : scanAll name = [⟨.identifier, name⟩]) : Respells l name := by
  refine ⟨.inl hl, fun post ls hscan hsound hapart => ?_⟩
  obtain ⟨c, w, hchars, hold', hpost⟩ := scanAll_append_cons hscan
  obtain ⟨d, v, -, rfl, hnew'⟩ := scanAll_eq_singleton_iff.mp hname
  rw [hl] at hold'
  have hc : c ≠ backtick := by
    rintro rfl
    exact hold (by rw [hchars]; rfl)
  have hd : d ≠ backtick := by
    rintro rfl
    exact hnew rfl
  have hstart := start_of_identifier (congrArg Prod.fst hold')
  have hstart' := start_of_identifier (congrArg Prod.fst hnew')
  have hlexeme : l = ⟨.identifier, c :: w⟩ := by rw [← hl, ← hchars]
  obtain ⟨hword, hquote⟩ := stops_after_name hold' hc hpost
    (fun m hm => hsound m (List.mem_cons_of_mem _ hm)) (hlexeme ▸ hapart)
  refine ⟨by rw [hl]; decide, ⟨c, by rw [hchars]; rfl, d, rfl, ?_⟩, ?_⟩
  · exact ⟨mem_nameStarts hstart, mem_nameStarts hstart', .inr (word_of_start hstart hc).2⟩
  · have hstops : Stops (Start.prolongs d v · (.of d)) post := by
      intro x hx
      show Start.prolongs d v x (.of d) = false
      rcases (word_of_start hstart' hd).1 with hform | hform
      · rw [hform, Start.prolongs, hword x hx, hquote x hx, Bool.and_false, Bool.or_false,
          Bool.and_false]
      · rw [hform, Start.prolongs, hword x hx]
    have hended : TokenKind.identifier ∉ broken := by decide
    rw [hl]
    exact scanAll_eq_cons_iff.mpr
      ⟨d, v, post, rfl, rfl, (scan_append_iff hended hstops).mpr hnew', hpost⟩

theorem scan_backtick (cs : List Char) : scan backtick cs = scanBackticked cs := by
  have hstart : Start.of backtick = .tick := by decide
  rw [scan_eq, hstart, Start.scan]

/-- A name between backticks in place of any name. -/
theorem respells_backticked (hl : l.kind = .identifier) (hname : backtick ∉ name) :
    Respells l (backtick :: (name ++ [backtick])) := by
  refine ⟨.inl hl, fun post ls hscan hsound hapart => ?_⟩
  obtain ⟨c, w, hchars, hold, hpost⟩ := scanAll_append_cons hscan
  rw [hl] at hold
  have hstart := start_of_identifier (congrArg Prod.fst hold)
  refine ⟨by rw [hl]; decide, ⟨c, by rw [hchars]; rfl, backtick, rfl, ?_⟩, ?_⟩
  · refine ⟨mem_nameStarts hstart, by decide, ?_⟩
    by_cases hc : c = backtick
    · exact .inl hc
    · exact .inr (word_of_start hstart hc).2
  · rw [hl]
    refine scanAll_eq_cons_iff.mpr ⟨backtick, name ++ [backtick], post, rfl, rfl, ?_, hpost⟩
    rw [scan_backtick]
    exact (scanBackticked_eq_iff _ _).mpr ⟨name, rfl, hname⟩

/-! ### Quoted strings -/

/-- Characters that do not end a quoted text: the quote and the backslash stand only behind a
backslash, which takes the character after it. -/
inductive Escaped (quote : Char) : List Char → Prop
  | nil : Escaped quote []
  | plain {c : Char} {cs : List Char} (hquote : c ≠ quote) (hescape : c ≠ '\\')
      (h : Escaped quote cs) : Escaped quote (c :: cs)
  | pair {c : Char} {cs : List Char} (h : Escaped quote cs) : Escaped quote ('\\' :: c :: cs)

/-- A quoted text ends with the first quote that ends it. -/
theorem exists_escaped_of_quotedLength (h : quotedLength quote w = (w.length, true)) :
    ∃ body, w = body ++ [quote] ∧ Escaped quote body := by
  fun_induction quotedLength quote w with
  | case1 => cases h
  | case2 => cases h
  | case3 x cs n closed hcs ih =>
    rw [hcs] at ih
    simp only [List.length_cons, Prod.mk.injEq, Nat.add_right_cancel_iff] at h ih
    obtain ⟨body, rfl, hbody⟩ := ih h
    exact ⟨'\\' :: x :: body, rfl, .pair hbody⟩
  | case4 cs _ _ =>
    obtain rfl : cs = [] := List.eq_nil_of_length_eq_zero (by simpa using h.symm)
    exact ⟨[], rfl, .nil⟩
  | case5 x cs hlast hpair hne n closed hcs ih =>
    rw [hcs] at ih
    simp only [List.length_cons, Prod.mk.injEq, Nat.add_right_cancel_iff] at h ih
    obtain ⟨body, rfl, hbody⟩ := ih h
    have hescape : x ≠ '\\' := fun hx => by
      cases body with
      | nil => exact hpair quote [] hx rfl
      | cons y body => exact hpair y (body ++ [quote]) hx rfl
    exact ⟨x :: body, rfl, .plain hne hescape hbody⟩

theorem quotedLength_name (hquote : quote ∉ name) (hescape : '\\' ∉ name) (hne : quote ≠ '\\') :
    quotedLength quote (name ++ [quote]) = ((name ++ [quote]).length, true) := by
  induction name with
  | nil => rw [List.nil_append, quotedLength_cons hne, if_pos rfl]; rfl
  | cons x name ih =>
    rw [List.mem_cons, not_or] at hquote hescape
    rw [List.cons_append, quotedLength_cons (Ne.symm hescape.1), if_neg (Ne.symm hquote.1),
      ih hquote.2 hescape.2]
    rfl

theorem scanString_eq_iff : scanString quote w = (.string, w.length) ↔
    quotedLength quote w = (w.length, true) := by
  cases h : quotedLength quote w with
  | mk n closed =>
    cases closed with
    | true => simp [scanString, h]
    | false => simp [scanString, h]

/-! ### Raw strings -/

theorem prefix_of_distanceTo? {goal : List Char} {n : Nat} (h : distanceTo? goal cs = some n) :
    goal <+: cs.drop n := by
  induction cs generalizing n with
  | nil =>
    cases goal with
    | nil => exact List.nil_prefix
    | cons g goal => cases h
  | cons c cs ih =>
    rw [distanceTo?] at h
    split at h
    · next hprefix =>
      obtain rfl := Option.some.inj h
      exact List.isPrefixOf_iff_prefix.mp hprefix
    · obtain ⟨m, hm, rfl⟩ := Option.map_eq_some_iff.mp h
      exact ih hm

/-- What ends a raw string ends it where it first stands, if the name does not hold it. -/
theorem distanceTo?_name {g : Char} {gs : List Char} (hg : g ∉ gs)
    (hname : Rename.hasPart (g :: gs) name = false) (rest : List Char) :
    distanceTo? (g :: gs) (name ++ (g :: gs ++ rest)) = some name.length := by
  induction name with
  | nil =>
    have hprefix : (g :: gs).isPrefixOf (g :: (gs ++ rest)) = true :=
      List.isPrefixOf_iff_prefix.mpr ⟨rest, rfl⟩
    rw [List.nil_append, List.cons_append, distanceTo?, if_pos hprefix]
    rfl
  | cons x name ih =>
    rw [Rename.hasPart, Bool.or_eq_false_iff] at hname
    have hnot : ¬ (g :: gs).isPrefixOf (x :: (name ++ (g :: gs ++ rest))) = true := by
      intro hprefix
      rw [List.isPrefixOf_iff_prefix, ← List.cons_append] at hprefix
      by_cases hlength : (g :: gs).length ≤ (x :: name).length
      · -- The whole of it lies in the name.
        have hinside := List.prefix_of_prefix_length_le hprefix (List.prefix_append _ _) hlength
        rw [List.isPrefixOf_iff_prefix.mpr hinside] at hname
        cases hname.1
      · -- It begins in the name, and another begins inside it.
        obtain ⟨t, ht⟩ := List.prefix_of_prefix_length_le (List.prefix_append (x :: name) _)
          hprefix (by omega)
        rw [← ht, List.prefix_append_right_inj] at hprefix
        cases t with
        | nil =>
          rw [← ht, List.append_nil] at hlength
          exact hlength (Nat.le_refl _)
        | cons y t =>
          obtain ⟨rfl, hgs⟩ := List.cons.inj ht
          obtain rfl : y = x := (List.cons_prefix_cons.mp hprefix).1
          exact hg (by rw [← hgs]; simp)
    rw [List.cons_append, distanceTo?, if_neg hnot, ih hname.2]
    rfl

/-- The brackets of raw strings. -/
theorem closingBracket?_cases {bracket close : Char} (h : closingBracket? bracket = some close) :
    (bracket = '(' ∧ close = ')') ∨ (bracket = '[' ∧ close = ']') ∨
      (bracket = '\x7b' ∧ close = '\x7d') := by
  unfold closingBracket? at h
  split at h
  · exact .inl ⟨rfl, (Option.some.inj h).symm⟩
  · exact .inr (.inl ⟨rfl, (Option.some.inj h).symm⟩)
  · exact .inr (.inr ⟨rfl, (Option.some.inj h).symm⟩)
  · cases h

/-- What comes after the letter of a raw string. -/
def rawText (quote bracket close : Char) (dashes : Nat) (part : List Char) : List Char :=
  quote :: (List.replicate dashes '-' ++ bracket :: (part ++ rawCloser close dashes quote))

theorem runLength_dashes {bracket : Char} (h : bracket ≠ '-') (dashes : Nat) (cs : List Char) :
    runLength (· = '-') (List.replicate dashes '-' ++ bracket :: cs) = dashes := by
  have hall : ∀ x ∈ List.replicate dashes '-', decide (x = '-') = true := by
    intro x hx
    simpa using List.eq_of_mem_replicate hx
  rw [runLength_append_cons hall (by simpa using h), List.length_replicate]

theorem ne_dash_of_closingBracket? {bracket close : Char}
    (h : closingBracket? bracket = some close) : bracket ≠ '-' ∧ close ≠ '-' := by
  rcases closingBracket?_cases h with ⟨rfl, rfl⟩ | ⟨rfl, rfl⟩ | ⟨rfl, rfl⟩
  · decide
  · decide
  · decide

theorem scanRaw_rawText {bracket close : Char} {dashes : Nat}
    (hbracket : closingBracket? bracket = some close) (hquote : isQuote quote = true)
    (hname : Rename.hasPart (rawCloser close dashes quote) name = false) (post : List Char) :
    scanRaw quote (List.replicate dashes '-' ++
        bracket :: (name ++ rawCloser close dashes quote) ++ post) =
      (.string, (rawText quote bracket close dashes name).length) := by
  obtain ⟨hdash, hclose⟩ := ne_dash_of_closingBracket? hbracket
  have hrest : close ∉ List.replicate dashes '-' ++ [quote] := by
    intro hmem
    rcases List.mem_append.mp hmem with hmem | hmem
    · exact hclose (List.eq_of_mem_replicate hmem)
    · rw [List.mem_singleton] at hmem
      rcases closingBracket?_cases hbracket with ⟨-, rfl⟩ | ⟨-, rfl⟩ | ⟨-, rfl⟩
      all_goals
        rw [← hmem] at hquote
        exact absurd hquote (by decide)
  have hgoal : distanceTo? (rawCloser close dashes quote)
      (name ++ (rawCloser close dashes quote ++ post)) = some name.length :=
    distanceTo?_name hrest hname post
  rw [List.append_assoc, List.cons_append, List.append_assoc]
  refine scanRaw_eq_string_iff.mpr ⟨bracket, name ++ (rawCloser close dashes quote ++ post), close,
    name.length, ?_, hbracket, ?_, ?_⟩
  · rw [runLength_dashes hdash]
    exact List.drop_left' List.length_replicate
  · rw [runLength_dashes hdash]
    exact hgoal
  · rw [runLength_dashes hdash]
    simp only [rawText, List.length_cons, List.length_append, List.length_replicate,
      length_rawCloser]
    omega

theorem exists_rawText_of_scanRaw (h : scanRaw quote w = (.string, w.length + 1)) :
    ∃ bracket close dashes part, closingBracket? bracket = some close ∧
      quote :: w = rawText quote bracket close dashes part := by
  obtain ⟨bracket, body, close, m, hdrop, hbracket, hgoal, hlength⟩ := scanRaw_eq_string_iff.mp h
  have hrun := runLength_le (· = '-') w
  have htake : w.take (runLength (· = '-') w) = List.replicate (runLength (· = '-') w) '-' := by
    refine List.eq_replicate_iff.mpr ⟨List.length_take_of_le hrun, fun x hx => ?_⟩
    simpa using all_take_runLength w x hx
  have hsplit := List.take_append_drop (runLength (· = '-') w) w
  rw [htake, hdrop] at hsplit
  generalize runLength (· = '-') w = dashes at hsplit hgoal hlength hrun
  have hbody := congrArg List.length hsplit
  rw [List.length_append, List.length_cons, List.length_replicate] at hbody
  obtain ⟨t, ht⟩ := prefix_of_distanceTo? hgoal
  have hrest := congrArg List.length ht
  rw [List.length_append, length_rawCloser, List.length_drop] at hrest
  obtain rfl : t = [] := List.eq_nil_of_length_eq_zero (by omega)
  rw [List.append_nil] at ht
  refine ⟨bracket, close, dashes, body.take m, hbracket, ?_⟩
  rw [rawText, ht, List.take_append_drop, hsplit]

/-! ### String literals -/

/-- What a string literal looks like: quotes around a text, or a raw string. -/
inductive StringForm (c : Char) (w : List Char) : Prop where
  | quoted (hstart : Start.of c = .string) (body : List Char) (hw : w = body ++ [c])
  | raw (hc : c = 'r' ∨ c = 'R') (quote bracket close : Char) (dashes : Nat) (part : List Char)
      (hquote : isQuote quote = true) (hbracket : closingBracket? bracket = some close)
      (hw : w = rawText quote bracket close dashes part)

theorem stringForm_of_scan (h : scan c (w ++ post) = (.string, w.length)) : StringForm c w := by
  have hstart := start_of_string (congrArg Prod.fst h)
  rw [scan_eq] at h
  simp only [List.mem_cons, List.not_mem_nil, or_false] at hstart
  rcases hstart with hstart | hstart
  · rw [hstart, Start.scan, scanString_append_iff, scanString_eq_iff] at h
    obtain ⟨body, rfl, -⟩ := exists_escaped_of_quotedLength h
    exact .quoted hstart body rfl
  · rw [hstart, Start.scan] at h
    have hword : ∀ cs n, scanWord c cs ≠ (.string, n) := by
      intro cs n hscan
      have hnone : ∀ entry ∈ reserved, entry.2 ≠ .string := by decide
      rcases scanWord_kind c cs with hname | ⟨entry, hentry, -, hkind⟩
      · rw [hscan] at hname
        cases hname
      · rw [hscan] at hkind
        exact hnone entry hentry hkind.symm
    cases w with
    | nil =>
      cases post with
      | nil => exact absurd h (hword _ _)
      | cons q post =>
        rw [List.nil_append, scanLetter] at h
        split at h
        · have hpos := scanRaw_pos q post
          rw [h] at hpos
          exact absurd hpos (Nat.lt_irrefl 0)
        · exact absurd h (hword _ _)
    | cons q w =>
      rw [List.cons_append, scanLetter] at h
      split at h
      · next hraw =>
        simp only [Bool.and_eq_true, Bool.or_eq_true, decide_eq_true_eq] at hraw
        obtain ⟨bracket, close, dashes, part, hbracket, hw⟩ :=
          exists_rawText_of_scanRaw ((scanRaw_append_iff w post).mp h)
        exact .raw hraw.1 q bracket close dashes part (by simpa [isQuote] using hraw.2) hbracket hw
      · exact absurd h (hword _ _)

theorem scan_quoted (hstart : Start.of c = .string) (hquote : c ∉ name) (hescape : '\\' ∉ name)
    (post : List Char) :
    scan c (name ++ [c] ++ post) = (.string, (name ++ [c]).length) := by
  have hne : c ≠ '\\' := by
    rintro rfl
    exact absurd hstart (by decide)
  rw [scan_eq, hstart, Start.scan, scanString_append_iff, scanString_eq_iff]
  exact quotedLength_name hquote hescape hne

/-- Behind `r` or `R` a quote opens a raw string. -/
theorem scan_cons_quote (hc : c = 'r' ∨ c = 'R') (hquote : isQuote quote = true)
    (cs : List Char) : scan c (quote :: cs) = scanRaw quote cs := by
  have hstart : Start.of c = .letter := by
    rcases hc with rfl | rfl
    · decide
    · decide
  have hraw : ((c = 'r' || c = 'R') && (quote = doubleQuote || quote = singleQuote)) = true := by
    rw [← isQuote, hquote]
    simpa using hc
  rw [scan_eq, hstart, Start.scan, scanLetter, if_pos hraw]

theorem scan_raw {bracket close : Char} {dashes : Nat} (hc : c = 'r' ∨ c = 'R')
    (hquote : isQuote quote = true) (hbracket : closingBracket? bracket = some close)
    (hname : Rename.hasPart (rawCloser close dashes quote) name = false) (post : List Char) :
    scan c (rawText quote bracket close dashes name ++ post) =
      (.string, (rawText quote bracket close dashes name).length) := by
  rw [rawText, List.cons_append, scan_cons_quote hc hquote]
  exact scanRaw_rawText hbracket hquote hname post

/-- Another string literal that begins in the same way. -/
theorem respelled_string (hl : l.kind = .string) (hchars : l.chars = c :: w)
    (hscan : scanAll (l.chars ++ post) = l :: ls) {v : List Char}
    (hv : scan c (v ++ post) = (.string, v.length)) : Respelled l (c :: v) post ls := by
  obtain ⟨_, _, -, -, hpost⟩ := scanAll_append_cons hscan
  have hall : ∀ start ∈ [Start.string, .letter], start ∈ nameStarts := by decide
  have hstart := hall _ (start_of_string (congrArg Prod.fst hv))
  refine ⟨by rw [hl]; decide, ⟨c, by rw [hchars]; rfl, c, rfl, hstart, hstart, .inl rfl⟩, ?_⟩
  rw [hl]
  exact scanAll_eq_cons_iff.mpr ⟨c, v, post, rfl, rfl, hv, hpost⟩

end RSource.Lexeme
