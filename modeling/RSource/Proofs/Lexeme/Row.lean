import RSource.Proofs.Lexeme.Spelling

/-! Rows of lexemes.  Lexemes that are written end to end are read back as they are, if none of them
goes on with the first character of the next and no two neighbours are of one kind.  Names that are
words may stand beside white space and most punctuation. -/

namespace RSource

namespace Lexeme

variable {l m : Lexeme} {ls ms : List Lexeme} {text : String}

/-- The second lexeme may stand directly behind the first: it is of another kind, and begins with a
character that does not go on the first. -/
def Beside (l m : Lexeme) : Prop :=
  l.kind ≠ m.kind ∧
    ∀ c ∈ l.chars.head?, ∀ x ∈ m.chars.head?, Start.prolongs c l.chars.tail x (.of c) = false

-- The instances are given, as there is one that goes through all characters.
instance (l m : Lexeme) : Decidable (Beside l m) :=
  @instDecidableAnd _ _ inferInstance
    (@Option.decidableForallMem _ _ (fun _ => @Option.decidableForallMem _ _ inferInstance _) _)

/-- The first lexeme of a row ends where the second begins. -/
theorem Beside.stops (hl : ∀ m ∈ ls.head?, Beside l m) (hls : ∀ m ∈ ls, m.Single) {c : Char}
    {w : List Char} (hchars : l.chars = c :: w) :
    Stops (Start.prolongs c w · (.of c)) (ls.flatMap Lexeme.chars) := by
  cases ls with
  | nil => intro x hx; cases hx
  | cons m ls =>
    obtain ⟨x, v, hm, -⟩ := (hls m List.mem_cons_self).scan_eq
    have hx := (hl m rfl).2 c (by rw [hchars]; rfl) x (by rw [hm]; rfl)
    rw [hchars, List.tail_cons] at hx
    rw [List.flatMap_cons, hm, List.cons_append]
    exact stops_cons hx

theorem scanAll_row (hls : ∀ l ∈ ls, l.Single) (hchain : ls.IsChain Beside) :
    scanAll (ls.flatMap Lexeme.chars) = ls := by
  induction ls with
  | nil => rfl
  | cons l ls ih =>
    have hl := hls l List.mem_cons_self
    have hls' : ∀ m ∈ ls, m.Single := fun m hm => hls m (List.mem_cons_of_mem _ hm)
    obtain ⟨hnext, hchain⟩ := List.isChain_cons.mp hchain
    obtain ⟨c, w, hchars, hscan⟩ := hl.scan_eq
    refine scanAll_eq_cons_iff.mpr ⟨c, w, ls.flatMap Lexeme.chars, hchars, ?_, ?_, ih hls' hchain⟩
    · rw [List.flatMap_cons, hchars, List.cons_append]
    · exact (scan_append_iff hl.ended (Beside.stops hnext hls' hchars)).mpr hscan

theorem fuse_eq_self {s : TokenSet} (hchain : ls.IsChain Beside) : fuse s ls = ls := by
  induction ls with
  | nil => rfl
  | cons l ls ih =>
    rw [fuse_cons, ih hchain.tail]
    cases ls with
    | nil => rfl
    | cons m ls => exact fuseCons_of_ne (List.isChain_cons_cons.mp hchain).1.1 ls

/-- The lexemes of a text that is a row of lexemes without `]`. -/
theorem ofText_row (hls : ∀ l ∈ ls, l.Single ∧ l.kind ≠ .rightBracket)
    (hchain : ls.IsChain Beside) (htext : text.toList = ls.flatMap Lexeme.chars) :
    ofText text = ls := by
  rw [ofText, ofChars, htext, scanAll_row (fun l hl => (hls l hl).1) hchain,
    pairBrackets_eq_self [] fun l hl => (hls l hl).2, fuse_eq_self hchain]

end Lexeme

/-! ### Names -/

open Lexeme

/-- A text that is one identifier and is not written with backticks. -/
structure Name where
  text : String
  token : IsToken .identifier text
  plain : text.toList.head? ≠ some backtick

namespace Name

/-- The token that the name is. -/
def lexeme (name : Name) : Lexeme := ⟨.identifier, name.text.toList⟩

theorem single (name : Name) : name.lexeme.Single :=
  ⟨name.token.scanAll_eq (by decide) (by decide), show TokenKind.identifier ∉ broken by decide⟩

/-- A name begins like a word and is read as a whole. -/
theorem exists_word (name : Name) : ∃ c w, name.text.toList = c :: w ∧ c ≠ backtick ∧
    scan c w = (.identifier, w.length) := by
  obtain ⟨c, w, hchars, hscan⟩ := name.single.scan_eq
  refine ⟨c, w, hchars, ?_, hscan⟩
  rintro rfl
  exact name.plain (congrArg List.head? hchars)

/-- What goes on no word and is no quote may stand behind a name. -/
theorem beside (name : Name) {m : Lexeme} (hkind : m.kind ≠ .identifier)
    (hfirst : m.chars.head?.all (fun x => !prolongsWord x && !isQuote x) = true) :
    Beside name.lexeme m := by
  refine ⟨hkind.symm, fun c hc x hx => ?_⟩
  obtain ⟨d, w, hchars, htick, hscan⟩ := name.exists_word
  obtain rfl : d = c := by
    rw [lexeme, hchars] at hc
    exact Option.some.inj hc
  obtain ⟨hword, hquote⟩ : prolongsWord x = false ∧ isQuote x = false := by
    simpa [Option.mem_def.mp hx] using hfirst
  rcases (word_of_start (start_of_identifier (congrArg Prod.fst hscan)) htick).1 with hform | hform
  · simp [hform, Start.prolongs, hword, hquote]
  · simp [hform, Start.prolongs, hword]

/-- A name may stand behind a blank, a line end or an operator. -/
theorem beside_of_start (name : Name) {c : Char} {w : List Char} {k : TokenKind}
    (hkind : k ≠ .identifier) (hc : Start.of c = .symbol ∨ c = ' ' ∨ c = '\n') :
    Beside ⟨k, c :: w⟩ name.lexeme := by
  obtain ⟨x, v, hchars, htick, hscan⟩ := name.exists_word
  have hstart := start_of_identifier (congrArg Prod.fst hscan)
  refine ⟨hkind, fun d hd y hy => ?_⟩
  obtain rfl : c = d := Option.some.inj hd
  obtain rfl : x = y := by
    rw [lexeme, hchars] at hy
    exact Option.some.inj hy
  rcases hc with hsymbol | rfl | rfl
  · rw [hsymbol]
    exact prolongsSymbol_eq_false (mem_nameStarts hstart)
  · have hblank : Start.of ' ' = .space := by decide
    have hspace : isSpace x = false := by
      cases hx : isSpace x with
      | false => rfl
      | true =>
        rw [start_of_isSpace hx] at hstart
        exact absurd hstart (by decide)
    simp [hblank, Start.prolongs, hspace]
  · rfl

end Name

end RSource
