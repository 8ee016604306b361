import RSource.Proofs.Lexeme.Joined

/-! Paired brackets taken apart.  The scanner gives every `]` on its own, and pairing depends on the
brackets that are open.  Taken apart again, the paired lexemes are the scanned ones, whatever was
open at their start. -/

namespace RSource.Lexeme

variable {c : Char} {cs : List Char} {l : Lexeme} {ls : List Lexeme} {opened : List TokenKind}

/-- The lexeme `]`. -/
def closer : Lexeme := ⟨.rightBracket, [']']⟩

/-- The lexeme `]]`. -/
def doubleCloser : Lexeme := ⟨.rightDoubleBracket, [']', ']']⟩

/-- The lexemes that are scanned for a lexeme: two for a `]]`. -/
def halves (l : Lexeme) : List Lexeme :=
  if l.kind = .rightDoubleBracket then [closer, closer] else [l]

theorem halves_of_ne (h : l.kind ≠ .rightDoubleBracket) : l.halves = [l] := if_neg h

/-- The lexeme is no `]]`, and a `]` only if it is that character. -/
def Unpaired (l : Lexeme) : Prop :=
  l.kind ≠ .rightDoubleBracket ∧ (l.kind = .rightBracket → l = closer)

theorem Unpaired.halves (h : Unpaired l) : l.halves = [l] := halves_of_ne h.1

/-! ### What is scanned -/

/-- A fixed spelling begins with its first character and has the others after it. -/
theorem scanSymbol_cases (c : Char) (cs : List Char) :
    (scanSymbol c cs).1 = .badCharacter ∨
      ∃ entry ∈ symbols, (scanSymbol c cs) = (entry.2, entry.1.length - 1) ∧
        entry.1.toList <+: c :: cs := by
  rw [scanSymbol]
  cases hfind : symbols.find? fun entry => entry.1.toList.isPrefixOf (c :: cs) with
  | none => exact .inl rfl
  | some entry =>
    refine .inr ⟨entry, List.mem_of_find?_eq_some hfind, rfl, ?_⟩
    have hprefix := List.find?_some hfind
    exact List.isPrefixOf_iff_prefix.mp hprefix

theorem unpaired_scan (c : Char) (cs : List Char) :
    Unpaired ⟨(scan c cs).1, c :: cs.take (scan c cs).2⟩ := by
  have hdouble : ∀ start : Start, .rightDoubleBracket ∉ start.kinds := by
    intro start
    cases start <;> decide
  have hsingle : ∀ start : Start, .rightBracket ∈ start.kinds → start = .symbol := by
    intro start
    cases start <;> decide
  have hspelled : ∀ entry ∈ symbols, entry.2 = .rightBracket → entry.1 = "]" := by decide
  have hkind := scan_kind c cs
  refine ⟨fun (h : (scan c cs).1 = _) => hdouble _ (h ▸ hkind), fun (h : (scan c cs).1 = _) => ?_⟩
  have hstart : Start.of c = .symbol := hsingle _ (h ▸ hkind)
  have hscan : scan c cs = scanSymbol c cs := by rw [scan_eq, hstart, Start.scan]
  rw [hscan] at h ⊢
  rcases scanSymbol_cases c cs with hbad | ⟨entry, hentry, heq, hfront⟩
  · rw [hbad] at h
    cases h
  · rw [heq] at h ⊢
    obtain rfl : entry = ("]", .rightBracket) := Prod.ext (hspelled entry hentry h) h
    obtain rfl : ']' = c := (List.cons_prefix_cons.mp hfront).1
    rfl

theorem unpaired_of_mem_scanAll (cs : List Char) : ∀ l ∈ scanAll cs, Unpaired l :=
  forall_mem_scanAll unpaired_scan cs

/-! ### Pairing -/

theorem pairBrackets_cons_of_head? (h : opened.head? ≠ some .leftDoubleBracket) (l : Lexeme)
    (ls : List Lexeme) :
    pairBrackets opened (l :: ls) = l :: pairBrackets (track opened l.kind) ls := by
  cases ls with
  | nil => rfl
  | cons m ls => rw [pairBrackets, if_neg (by simp [h])]

theorem pairBrackets_closers (h : opened.head? = some .leftDoubleBracket) (ls : List Lexeme) :
    pairBrackets opened (closer :: closer :: ls) =
      doubleCloser :: pairBrackets (track opened .rightDoubleBracket) ls := by
  rw [pairBrackets, if_pos (by simp [h, closer])]
  rfl

/-- Taken apart, paired lexemes are those that were paired. -/
theorem flatMap_halves_pairBrackets (opened : List TokenKind) (h : ∀ l ∈ ls, Unpaired l) :
    (pairBrackets opened ls).flatMap halves = ls := by
  fun_induction pairBrackets opened ls with
  | case1 => rfl
  | case2 opened l => rw [List.flatMap_singleton, (h l List.mem_cons_self).halves]
  | case3 opened l m rest hpair ih =>
    simp only [Bool.and_eq_true, decide_eq_true_eq] at hpair
    obtain ⟨hl, hm, hrest⟩ : Unpaired l ∧ Unpaired m ∧ ∀ x ∈ rest, Unpaired x := by simpa using h
    rw [List.flatMap_cons, ih hrest, hl.2 hpair.1.1, hm.2 hpair.1.2]
    rfl
  | case4 opened l m rest _ ih =>
    obtain ⟨hl, hrest⟩ := List.forall_mem_cons.mp h
    rw [List.flatMap_cons, ih hrest, hl.halves, List.singleton_append]

theorem chars_of_mem_pairBrackets (h : ∀ l ∈ ls, Unpaired l) :
    ∀ l ∈ pairBrackets opened ls, l.kind = .rightDoubleBracket → l = doubleCloser := by
  fun_induction pairBrackets opened ls with
  | case1 => intro l hl; cases hl
  | case2 opened m =>
    intro l hl hkind
    obtain rfl := List.mem_singleton.mp hl
    exact absurd hkind (h l List.mem_cons_self).1
  | case3 opened m n rest hpair ih =>
    simp only [Bool.and_eq_true, decide_eq_true_eq] at hpair
    obtain ⟨hm, hn, hrest⟩ : Unpaired m ∧ Unpaired n ∧ ∀ x ∈ rest, Unpaired x := by simpa using h
    intro l hl hkind
    rcases List.mem_cons.mp hl with rfl | hl
    · rw [hm.2 hpair.1.1, hn.2 hpair.1.2]
      rfl
    · exact ih hrest l hl hkind
  | case4 opened m n rest _ ih =>
    obtain ⟨hm, hrest⟩ := List.forall_mem_cons.mp h
    intro l hl hkind
    rcases List.mem_cons.mp hl with rfl | hl
    · exact absurd hkind hm.1
    · exact ih hrest l hl hkind

/-- The brackets that are open after lexemes. -/
def trackAll (opened : List TokenKind) (ls : List Lexeme) : List TokenKind :=
  (ls.map Lexeme.kind).foldl track opened

/-- Where paired lexemes are cut in two, the scanned ones are, and the second part is paired with
the brackets that are open there. -/
theorem pairBrackets_eq_append {before after : List Lexeme}
    (h : pairBrackets opened ls = before ++ after) :
    ∃ xs ys, ls = xs ++ ys ∧ pairBrackets (trackAll opened before) ys = after ∧
      xs.flatMap Lexeme.chars = before.flatMap Lexeme.chars := by
  induction before generalizing opened ls with
  | nil => exact ⟨[], ls, rfl, h, rfl⟩
  | cons b before ih =>
    -- The first lexeme is made of the first scanned one or of the first two.
    have hstep : ∀ xs rest : List Lexeme, ls = xs ++ rest →
        xs.flatMap Lexeme.chars = b.chars →
        pairBrackets (track opened b.kind) rest = before ++ after →
        ∃ xs ys, ls = xs ++ ys ∧ pairBrackets (trackAll opened (b :: before)) ys = after ∧
          xs.flatMap Lexeme.chars = (b :: before).flatMap Lexeme.chars := by
      intro xs rest hls hchars hrest
      obtain ⟨ys, zs, rfl, hafter, hys⟩ := ih hrest
      refine ⟨xs ++ ys, zs, by rw [hls, List.append_assoc], hafter, ?_⟩
      rw [List.flatMap_append, hchars, hys, List.flatMap_cons]
    match ls, h with
    | [l], h =>
      obtain ⟨rfl, hnil⟩ := List.cons.inj h
      exact hstep [l] [] rfl (List.append_nil _) hnil
    | l :: m :: rest, h =>
      rw [pairBrackets] at h
      split at h
      · obtain ⟨rfl, hrest⟩ := List.cons.inj h
        exact hstep [l, m] rest rfl (by simp) hrest
      · obtain ⟨rfl, hrest⟩ := List.cons.inj h
        exact hstep [l] (m :: rest) rfl (List.append_nil _) hrest

end RSource.Lexeme
