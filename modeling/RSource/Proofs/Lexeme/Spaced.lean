import RSource.Proofs.Lexeme.Boundary
import RSource.Proofs.Lexeme.Tiling

/-! Words with blanks between them.  A text that is one token by itself is that token still when a
blank comes after it, so that words set apart by single blanks are read as these words. -/

namespace RSource

namespace Lexeme

variable {c : Char} {w cs rest : List Char} {k : TokenKind} {l : Lexeme} {ls : List Lexeme}

/-- The characters of the lexeme are read as the lexeme, which has its end. -/
structure Single (l : Lexeme) : Prop where
  scanned : scanAll l.chars = [l]
  ended : l.kind ∉ broken

theorem Single.scan_eq (h : l.Single) :
    ∃ c w, l.chars = c :: w ∧ scan c w = (l.kind, w.length) := by
  obtain ⟨c, w, hchars, -, hscan⟩ := scanAll_eq_singleton_iff.mp h.scanned
  exact ⟨c, w, hchars, hscan⟩

/-- The characters of the lexeme are read as the lexeme, which the grammar sees. -/
structure Whole (l : Lexeme) : Prop where
  scanned : scanAll l.chars = [l]
  visible : l.kind.isLayout = false
  ended : l.kind ∉ broken

theorem Whole.scan_eq (h : l.Whole) :
    ∃ c w, l.chars = c :: w ∧ scan c w = (l.kind, w.length) :=
  Single.scan_eq ⟨h.scanned, h.ended⟩

/-- What begins with white space or a comment sign is layout. -/
theorem isLayout_of_start (h : Start.of c = .space ∨ Start.of c = .comment) (cs : List Char) :
    (scan c cs).1.isLayout = true := by
  rw [Lexeme.scan_eq]
  rcases h with h | h
  · rw [h, Start.scan]
    split
    · rfl
    · rfl
  · rw [h]
    rfl

theorem prolongs_blank (hspace : Start.of c ≠ .space) (hcomment : Start.of c ≠ .comment)
    (w : List Char) : Start.prolongs c w ' ' (.of c) = false := by
  have hquote : isQuote ' ' = false := by decide
  have hword : prolongsWord ' ' = false := by decide
  have hname : isNameChar ' ' = false := by decide
  have hsymbol : prolongsSymbol ' ' = false := by decide
  cases hstart : Start.of c with
  | space => exact absurd hstart hspace
  | comment => exact absurd hstart hcomment
  | lineEnd => rfl
  | string => rfl
  | tick => rfl
  | percent => rfl
  | digit => exact hname
  | point => exact hword
  | letter => simp [Start.prolongs, hword, hquote]
  | symbol => exact hsymbol

/-- The lexeme between two words. -/
def blank : Lexeme := ⟨.whitespace, [' ']⟩

/-- A lexeme that the grammar sees does not begin like layout. -/
theorem Whole.start_ne (h : l.Whole) (hchars : l.chars = c :: cs) :
    Start.of c ≠ .space ∧ Start.of c ≠ .comment := by
  obtain ⟨c', w, hchars', hscan⟩ := h.scan_eq
  obtain ⟨rfl, rfl⟩ := List.cons.inj (hchars.symm.trans hchars')
  constructor
  · intro hstart
    have hlayout := isLayout_of_start (.inl hstart) cs
    rw [hscan, h.visible] at hlayout
    cases hlayout
  · intro hstart
    have hlayout := isLayout_of_start (.inr hstart) cs
    rw [hscan, h.visible] at hlayout
    cases hlayout

/-- A word before a blank. -/
theorem Whole.scanAll_append (h : l.Whole) (rest : List Char) :
    scanAll (l.chars ++ ' ' :: rest) = l :: scanAll (' ' :: rest) := by
  obtain ⟨c, w, hchars, hscan⟩ := h.scan_eq
  obtain ⟨hspace, hcomment⟩ := h.start_ne hchars
  have hstops : Stops (Start.prolongs c w · (.of c)) (' ' :: rest) :=
    stops_cons (prolongs_blank hspace hcomment w)
  refine scanAll_eq_cons_iff.mpr ⟨c, w, ' ' :: rest, hchars, by rw [hchars]; rfl, ?_, rfl⟩
  exact (scan_append_iff h.ended hstops).mpr hscan

/-- A blank before a word. -/
theorem Whole.scanAll_blank (h : l.Whole) (rest : List Char) :
    scanAll (' ' :: (l.chars ++ rest)) = blank :: scanAll (l.chars ++ rest) := by
  obtain ⟨c, w, hchars, -⟩ := h.scan_eq
  have hspace : isSpace c = false := by
    cases hc : isSpace c with
    | false => rfl
    | true => exact absurd (start_of_isSpace hc) (h.start_ne hchars).1
  refine scanAll_eq_cons_iff.mpr ⟨' ', [], l.chars ++ rest, rfl, rfl, ?_, rfl⟩
  have hrun : runLength isSpace (c :: w ++ rest) = 0 := runLength_eq_zero (stops_cons hspace)
  rw [hchars, Lexeme.scan_eq]
  exact Prod.ext rfl hrun

/-- Words set apart by blanks are read as these words. -/
theorem scanAll_spaced : ∀ ls : List Lexeme, (∀ l ∈ ls, l.Whole) →
    scanAll ([' '].intercalate (ls.map Lexeme.chars)) = ls.intersperse blank
  | [], _ => rfl
  | [l], h => by
    simpa [List.intercalate] using (h l List.mem_cons_self).scanned
  | l :: m :: ls, h => by
    have hl := h l List.mem_cons_self
    have hm := h m (by simp)
    have ih := scanAll_spaced (m :: ls) fun x hx => h x (List.mem_cons_of_mem _ hx)
    obtain ⟨rest, hrest⟩ : ∃ rest, [' '].intercalate ((m :: ls).map Lexeme.chars) =
        m.chars ++ rest := by
      cases ls with
      | nil => exact ⟨[], by simp [List.intercalate]⟩
      | cons n ls => exact ⟨_, by simp [List.intercalate]; rfl⟩
    have hsplit : [' '].intercalate ((l :: m :: ls).map Lexeme.chars) =
        l.chars ++ ' ' :: [' '].intercalate ((m :: ls).map Lexeme.chars) := by
      simp [List.intercalate]
    rw [hsplit, hl.scanAll_append, hrest, hm.scanAll_blank, ← hrest, ih]
    rfl

theorem pairBrackets_eq_self (opened : List TokenKind) (h : ∀ l ∈ ls, l.kind ≠ .rightBracket) :
    pairBrackets opened ls = ls := by
  fun_induction pairBrackets opened ls with
  | case1 => rfl
  | case2 => rfl
  | case3 opened l m rest hpair ih =>
    simp only [Bool.and_eq_true, decide_eq_true_eq] at hpair
    exact absurd hpair.1.1 (h l List.mem_cons_self)
  | case4 opened l m rest _ ih => rw [ih fun x hx => h x (List.mem_cons_of_mem _ hx)]

theorem fuseCons_of_ne {s : TokenSet} {m : Lexeme} (h : l.kind ≠ m.kind) (ls : List Lexeme) :
    fuseCons s l (m :: ls) = l :: m :: ls := by
  rw [fuseCons, if_neg (by simp [h])]

theorem fuse_intersperse : ∀ ls : List Lexeme, (∀ l ∈ ls, l.kind ≠ .whitespace) →
    fuse TokenStream.defaultMerge (ls.intersperse blank) = ls.intersperse blank
  | [], _ => rfl
  | [l], _ => rfl
  | l :: m :: ls, h => by
    have ih := fuse_intersperse (m :: ls) fun x hx => h x (List.mem_cons_of_mem _ hx)
    obtain ⟨rest, hrest⟩ : ∃ rest, (m :: ls).intersperse blank = m :: rest := by
      cases ls with
      | nil => exact ⟨[], rfl⟩
      | cons n ls => exact ⟨_, rfl⟩
    have hsplit : (l :: m :: ls).intersperse blank =
        l :: blank :: (m :: ls).intersperse blank := rfl
    have hm : blank.kind ≠ m.kind := fun hkind => h m (by simp) hkind.symm
    rw [hsplit, fuse, List.foldr_cons, List.foldr_cons, ← fuse, ih, hrest, fuseCons_of_ne hm,
      fuseCons_of_ne (h l List.mem_cons_self)]

theorem mem_intersperse {l : Lexeme} : ∀ ls : List Lexeme, l ∈ ls.intersperse blank →
    l ∈ ls ∨ l = blank
  | [], h => by cases h
  | [m], h => .inl h
  | m :: n :: ls, h => by
    rcases List.mem_cons.mp h with rfl | h
    · exact .inl List.mem_cons_self
    rcases List.mem_cons.mp h with rfl | h
    · exact .inr rfl
    · exact (mem_intersperse (n :: ls) h).imp_left (List.mem_cons_of_mem _)

/-- The lexemes of words set apart by blanks. -/
theorem ofText_spaced (h : ∀ l ∈ ls, l.Whole ∧ l.kind ≠ .rightBracket) {text : String}
    (htext : text.toList = [' '].intercalate (ls.map Lexeme.chars)) :
    ofText text = ls.intersperse blank := by
  have hbracket : ∀ x ∈ ls.intersperse blank, x.kind ≠ .rightBracket := by
    intro x hx
    rcases mem_intersperse ls hx with hx | rfl
    · exact (h x hx).2
    · decide
  have hspace : ∀ l ∈ ls, l.kind ≠ .whitespace := by
    intro l hl hkind
    have hvisible := (h l hl).1.visible
    rw [hkind] at hvisible
    cases hvisible
  rw [ofText, ofChars, htext, scanAll_spaced ls fun l hl => (h l hl).1,
    pairBrackets_eq_self [] hbracket, fuse_intersperse ls hspace]

/-! ### Single tokens -/

theorem map_kind_place (offset : Nat) (ls : List Lexeme) :
    (place offset ls).map Token.kind = ls.map Lexeme.kind ++ [.endOfFile] := by
  induction ls generalizing offset with
  | nil => rfl
  | cons l ls ih => rw [place, List.map_cons, ih]; rfl

theorem fuseCons_ne_nil (s : TokenSet) (l : Lexeme) (ls : List Lexeme) : fuseCons s l ls ≠ [] := by
  cases ls with
  | nil => simp [fuseCons]
  | cons m ls =>
    rw [fuseCons]
    split <;> simp

theorem fuse_eq_singleton {s : TokenSet} (h : fuse s ls = [l]) (hl : s.contains l.kind = false) :
    ls = [l] := by
  cases ls with
  | nil => cases h
  | cons m ls =>
    rw [fuse, List.foldr_cons] at h
    cases hrest : ls.foldr (fuseCons s) [] with
    | nil =>
      rw [hrest] at h
      cases ls with
      | nil => exact h
      | cons n ls => exact absurd hrest (fuseCons_ne_nil s n _)
    | cons n rest =>
      rw [hrest, fuseCons] at h
      split at h
      · next hfuse =>
        obtain ⟨rfl, -⟩ := List.cons.inj h
        simp only [Bool.and_eq_true] at hfuse
        simp [hfuse.2] at hl
      · simp at h

theorem pairBrackets_cons_ne_nil (opened : List TokenKind) (l : Lexeme) (ls : List Lexeme) :
    pairBrackets opened (l :: ls) ≠ [] := by
  cases ls with
  | nil => simp [pairBrackets]
  | cons m ls =>
    rw [pairBrackets]
    split <;> simp

theorem pairBrackets_eq_singleton {opened : List TokenKind} (h : pairBrackets opened ls = [l])
    (hl : l.kind ≠ .rightDoubleBracket) : ls = [l] := by
  fun_induction pairBrackets opened ls with
  | case1 => cases h
  | case2 => exact h
  | case3 opened m n rest hpair ih =>
    obtain ⟨rfl, -⟩ := List.cons.inj h
    exact absurd rfl hl
  | case4 opened m n rest _ ih =>
    exact absurd (List.cons.inj h).2 (pairBrackets_cons_ne_nil _ _ _)

end Lexeme

/-- The text is one token of a kind. -/
def IsToken (kind : TokenKind) (text : String) : Prop :=
  (lex text).map Token.kind = [kind, .endOfFile]

instance (kind : TokenKind) (text : String) : Decidable (IsToken kind text) :=
  inferInstanceAs (Decidable (_ = _))

open Lexeme

/-- A text that is one token is read as one lexeme. -/
theorem IsToken.scanAll_eq {kind : TokenKind} {text : String} (h : IsToken kind text)
    (hspace : kind ≠ .whitespace) (hbracket : kind ≠ .rightDoubleBracket) :
    scanAll text.toList = [⟨kind, text.toList⟩] := by
  rw [IsToken, lex_eq_place, map_kind_place] at h
  have hkinds : (ofText text).map Lexeme.kind = [kind] := List.append_cancel_right h
  obtain ⟨l, hl, rfl⟩ := List.map_eq_singleton_iff.mp hkinds
  have hchars : l.chars = text.toList := by
    have := flatMap_chars_ofText text
    rwa [hl, List.flatMap_singleton] at this
  rw [ofText, ofChars] at hl
  rw [pairBrackets_eq_singleton (fuse_eq_singleton hl ?_) hbracket, ← hchars]
  simpa [TokenStream.defaultMerge, TokenSet.single, TokenSet.contains] using hspace

theorem IsToken.whole {kind : TokenKind} {text : String} (h : IsToken kind text)
    (hvisible : kind.isLayout = false) (hbracket : kind ≠ .rightDoubleBracket)
    (hended : kind ∉ broken) : (⟨kind, text.toList⟩ : Lexeme).Whole := by
  refine ⟨h.scanAll_eq ?_ hbracket, hvisible, hended⟩
  rintro rfl
  cases hvisible

end RSource
