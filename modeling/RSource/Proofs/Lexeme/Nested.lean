import RSource.Proofs.Lexeme.Paired
import RSource.Proofs.Lexeme.Spelling

/-! Well-nested brackets.  Brackets that are written without blanks, with or without names between
them, are read as they are: the brackets that are open tell which `]` are two and which are one. -/

namespace RSource

open Lexeme

/-- The pairs of brackets. -/
inductive Bracket where
  | paren
  | brace
  | single
  | double
  deriving DecidableEq

namespace Bracket

def opening : Bracket → Lexeme
  | .paren => ⟨.leftParen, ['(']⟩
  | .brace => ⟨.leftBrace, ['\x7b']⟩
  | .single => ⟨.leftBracket, ['[']⟩
  | .double => ⟨.leftDoubleBracket, ['[', '[']⟩

def closing : Bracket → Lexeme
  | .paren => ⟨.rightParen, [')']⟩
  | .brace => ⟨.rightBrace, ['\x7d']⟩
  | .single => ⟨.rightBracket, [']']⟩
  | .double => ⟨.rightDoubleBracket, [']', ']']⟩

variable {b b' : Bracket}

theorem opening_ne_closing (b b' : Bracket) : b.opening.kind ≠ b'.closing.kind := by
  cases b <;> cases b' <;> decide

theorem kind_ne_identifier (b : Bracket) :
    b.opening.kind ≠ .identifier ∧ b.closing.kind ≠ .identifier := by
  cases b <;> decide

theorem closing_ne_endOfFile (b : Bracket) : b.closing.kind ≠ .endOfFile := by
  cases b <;> decide

theorem closing_inj (h : b.closing.kind = b'.closing.kind) : b = b' := by
  revert h
  cases b <;> cases b' <;> decide

theorem track_opening (opened : List TokenKind) (b : Bracket) :
    track opened b.opening.kind = b.opening.kind :: opened := by
  cases b <;> rfl

end Bracket

/-- Every opening bracket is closed by the bracket of its pair, with pairs and names inside. -/
inductive Nested : List TokenKind → Prop
  | nil : Nested []
  | name {ks : List TokenKind} : Nested ks → Nested (.identifier :: ks)
  | pair {inside ks : List TokenKind} (b : Bracket) : Nested inside → Nested ks →
      Nested (b.opening.kind :: (inside ++ b.closing.kind :: ks))

/-- A closing bracket closes one of its pair, with nested brackets between the two. -/
theorem Nested.exists_opening {b : Bracket} {ks : List TokenKind} (h : Nested ks) :
    ∀ {before after : List TokenKind}, ks = before ++ b.closing.kind :: after →
      ∃ outside inside, before = outside ++ b.opening.kind :: inside ∧ Nested inside := by
  induction h with
  | nil => intro before after h; simp at h
  | name _ ih =>
    intro before after h
    cases before with
    | nil =>
      exact absurd (List.cons.inj h).1.symm b.kind_ne_identifier.2
    | cons k before =>
      obtain ⟨rfl, hrest⟩ := List.cons.inj h
      obtain ⟨outside, inside, rfl, hinside⟩ := ih hrest
      exact ⟨.identifier :: outside, inside, rfl, hinside⟩
  | @pair inner ks b' hinner _ ih ih' =>
    intro before after h
    cases before with
    | nil => exact absurd (List.cons.inj h).1 (b'.opening_ne_closing b)
    | cons k before =>
      obtain ⟨rfl, hrest⟩ := List.cons.inj h
      -- The closing bracket stands inside the pair, or it closes the pair, or it comes later.
      rcases List.append_eq_append_iff.mp hrest with ⟨mid, rfl, hmid⟩ | ⟨mid, rfl, hmid⟩
      · cases mid with
        | nil =>
          obtain rfl := Bracket.closing_inj (List.cons.inj hmid).1
          exact ⟨[], inner, by rw [List.append_nil]; rfl, hinner⟩
        | cons k mid =>
          obtain ⟨rfl, hlater⟩ := List.cons.inj hmid
          obtain ⟨outside, inside, rfl, hinside⟩ := ih' hlater
          exact ⟨b'.opening.kind :: (inner ++ b'.closing.kind :: outside), inside, by simp, hinside⟩
      · cases mid with
        | nil =>
          rw [List.append_nil] at hinner
          obtain rfl := Bracket.closing_inj (List.cons.inj hmid).1
          exact ⟨[], before, rfl, hinner⟩
        | cons k mid =>
          obtain ⟨rfl, -⟩ := List.cons.inj hmid
          obtain ⟨outside, inside, rfl, hinside⟩ := ih rfl
          exact ⟨b'.opening.kind :: outside, inside, rfl, hinside⟩

namespace Lexeme

variable {l m : Lexeme} {ls : List Lexeme}

/-- The lexeme is a bracket or a name. -/
inductive Spelled : Lexeme → Prop
  | opening (b : Bracket) : Spelled b.opening
  | closing (b : Bracket) : Spelled b.closing
  | name {name : String} : IsToken .identifier name → Spelled ⟨.identifier, name.toList⟩

theorem Spelled.eq_opening {b : Bracket} (h : Spelled l) (hkind : l.kind = b.opening.kind) :
    l = b.opening := by
  cases h with
  | opening b' => revert hkind; cases b <;> cases b' <;> decide
  | closing b' => exact absurd hkind.symm (b.opening_ne_closing b')
  | name _ => exact absurd hkind.symm b.kind_ne_identifier.1

theorem Spelled.eq_closing {b : Bracket} (h : Spelled l) (hkind : l.kind = b.closing.kind) :
    l = b.closing := by
  cases h with
  | opening b' => exact absurd hkind (b'.opening_ne_closing b)
  | closing b' => rw [Bracket.closing_inj hkind]
  | name _ => exact absurd hkind.symm b.kind_ne_identifier.2

/-- The second lexeme may be written directly behind the first: two names would be one, and `[`
before another `[` would be `[[`. -/
def Follows (l m : Lexeme) : Prop :=
  (l.kind = .identifier → m.kind ≠ .identifier) ∧
    (l.kind = .leftBracket → m.kind ≠ .leftBracket ∧ m.kind ≠ .leftDoubleBracket)

instance (l m : Lexeme) : Decidable (Follows l m) := inferInstanceAs (Decidable (_ ∧ _))

/-! ### Scanning -/

/-- The characters that brackets begin with. -/
def bracketChars : List Char := ['(', ')', '\x7b', '\x7d', '[', ']']

theorem single_name {name : String} (h : IsToken .identifier name) :
    Single ⟨.identifier, name.toList⟩ :=
  ⟨h.scanAll_eq (by decide) (by decide), show TokenKind.identifier ∉ broken by decide⟩

theorem scanAll_opening (b : Bracket) {rest : List Char}
    (h : b = .single → rest.head? ≠ some '[') :
    scanAll (b.opening.chars ++ rest) = b.opening :: scanAll rest := by
  cases b with
  | paren => rfl
  | brace => rfl
  | double => rfl
  | single =>
    cases rest with
    | nil => rfl
    | cons x rest =>
      have hx : ('[' == x) = false := beq_false_of_ne fun hx => h rfl (by rw [hx]; rfl)
      have hstart : Start.of '[' = .symbol := by decide
      have hscan : scan '[' (x :: rest) = (.leftBracket, 0) := by
        rw [scan_eq, hstart, Start.scan, scanSymbol]
        simp [symbols, List.isPrefixOf, hx]
        rfl
      exact scanAll_eq_cons_iff.mpr ⟨'[', [], x :: rest, rfl, rfl, hscan, rfl⟩

theorem scanAll_closing (b : Bracket) (rest : List Char) :
    scanAll (b.closing.chars ++ rest) = b.closing.halves ++ scanAll rest := by
  cases b with
  | paren => rfl
  | brace => rfl
  | single => rfl
  | double => rfl

/-- A name ends where the text does or a bracket begins. -/
theorem scanAll_name {name : String} (hname : IsToken .identifier name) {rest : List Char}
    (h : ∀ x ∈ rest.head?, x ∈ bracketChars) :
    scanAll (name.toList ++ rest) = ⟨.identifier, name.toList⟩ :: scanAll rest := by
  obtain ⟨c, w, hchars, hscan⟩ := (single_name hname).scan_eq
  have hall : bracketChars.all (fun x => !prolongsWord x && !isQuote x) = true := by decide
  have hstops : Stops (Start.prolongs c w · (.of c)) rest := by
    intro x hx
    obtain ⟨hword, hquote⟩ : prolongsWord x = false ∧ isQuote x = false := by
      simpa using List.all_eq_true.mp hall x (h x hx)
    have hstart := start_of_identifier (congrArg Prod.fst hscan)
    simp only [List.mem_cons, List.not_mem_nil, or_false] at hstart
    rcases hstart with hstart | hstart | hstart
    · simp [hstart, Start.prolongs, hword, hquote]
    · simp [hstart, Start.prolongs, hword]
    · simp [hstart, Start.prolongs]
  simp only at hchars
  rw [hchars]
  exact scanAll_eq_cons_iff.mpr ⟨c, w, rest, rfl, rfl,
    (scan_append_iff (single_name hname).ended hstops).mpr hscan, rfl⟩

/-- How a bracket or a name begins. -/
theorem Spelled.exists_cons (h : Spelled l) : ∃ x w, l.chars = x :: w ∧
    (l.kind ≠ .identifier → x ∈ bracketChars) ∧
    (x = '[' → l.kind = .leftBracket ∨ l.kind = .leftDoubleBracket) := by
  cases h with
  | opening b => cases b <;> exact ⟨_, _, rfl, by decide, by decide⟩
  | closing b => cases b <;> exact ⟨_, _, rfl, by decide, by decide⟩
  | name hname =>
    obtain ⟨x, w, hchars, hscan⟩ := (single_name hname).scan_eq
    refine ⟨x, w, hchars, fun hkind => absurd rfl hkind, ?_⟩
    rintro rfl
    have hstart := start_of_identifier (congrArg Prod.fst hscan)
    exact absurd hstart (by decide)

/-- Behind a name comes the end or a bracket, and behind `[` no other one. -/
theorem head?_of_follows (hls : ∀ m ∈ ls, Spelled m) (h : ∀ m ∈ ls.head?, Follows l m) :
    (l.kind = .identifier → ∀ x ∈ (ls.flatMap Lexeme.chars).head?, x ∈ bracketChars) ∧
    (l.kind = .leftBracket → (ls.flatMap Lexeme.chars).head? ≠ some '[') := by
  cases ls with
  | nil => exact ⟨fun _ x hx => (by cases hx), fun _ h => (by cases h)⟩
  | cons m ls =>
    obtain ⟨x, w, hchars, hbracket, hopening⟩ := (hls m List.mem_cons_self).exists_cons
    obtain ⟨hname, hsingle⟩ := h m rfl
    rw [List.flatMap_cons, hchars, List.cons_append, List.head?_cons]
    refine ⟨fun hkind y hy => ?_, fun hkind hx => ?_⟩
    · obtain rfl := Option.some.inj hy
      exact hbracket (hname hkind)
    · obtain ⟨hne, hne'⟩ := hsingle hkind
      exact (hopening (Option.some.inj hx)).elim hne hne'

/-- Brackets and names are scanned as they are written, with every `]` on its own. -/
theorem scanAll_spelled (hls : ∀ l ∈ ls, Spelled l) (hchain : ls.IsChain Follows) :
    scanAll (ls.flatMap Lexeme.chars) = ls.flatMap halves := by
  induction ls with
  | nil => rfl
  | cons l ls ih =>
    obtain ⟨hl, hls⟩ := List.forall_mem_cons.mp hls
    obtain ⟨hnext, hchain⟩ := List.isChain_cons.mp hchain
    obtain ⟨hname, hsingle⟩ := head?_of_follows hls hnext
    rw [List.flatMap_cons, List.flatMap_cons, ← ih hls hchain]
    cases hl with
    | opening b =>
      have hdouble : b.opening.kind ≠ .rightDoubleBracket := b.opening_ne_closing .double
      rw [scanAll_opening b fun hb => hsingle (by rw [hb]; rfl), halves_of_ne hdouble]
      rfl
    | closing b => exact scanAll_closing b _
    | name htoken => exact scanAll_name htoken (hname rfl)

/-! ### Pairing -/

theorem pairBrackets_opening (opened : List TokenKind) (b : Bracket) (ls : List Lexeme) :
    pairBrackets opened (b.opening.halves ++ ls) =
      b.opening :: pairBrackets (b.opening.kind :: opened) ls := by
  rw [halves_of_ne (b.opening_ne_closing .double), List.singleton_append,
    pairBrackets_cons_of_ne opened (b.opening_ne_closing .single), b.track_opening]

/-- A bracket that closes the innermost open one is read as it is. -/
theorem pairBrackets_closing (opened : List TokenKind) (b : Bracket) (ls : List Lexeme) :
    pairBrackets (b.opening.kind :: opened) (b.closing.halves ++ ls) =
      b.closing :: pairBrackets opened ls := by
  cases b with
  | paren => exact pairBrackets_cons_of_ne _ (by decide) ls
  | brace => exact pairBrackets_cons_of_ne _ (by decide) ls
  | single => exact pairBrackets_cons_of_head? (by rw [List.head?_cons]; decide) _ ls
  | double => exact pairBrackets_closers rfl ls

/-- Nested brackets are paired as they are written and leave what is open as it was. -/
theorem pairBrackets_nested {ks : List TokenKind} (h : Nested ks) :
    ∀ {ls : List Lexeme}, ls.map Lexeme.kind = ks → (∀ l ∈ ls, Spelled l) →
      ∀ (opened : List TokenKind) (rest : List Lexeme),
        pairBrackets opened (ls.flatMap halves ++ rest) = ls ++ pairBrackets opened rest := by
  induction h with
  | nil =>
    intro ls hkinds _ opened rest
    obtain rfl := List.map_eq_nil_iff.mp hkinds
    rfl
  | name _ ih =>
    intro ls hkinds hls opened rest
    obtain ⟨l, ls, rfl, hl, hkinds⟩ := List.map_eq_cons_iff.mp hkinds
    obtain ⟨-, hls⟩ := List.forall_mem_cons.mp hls
    have hsingle : l.kind ≠ .rightBracket := by rw [hl]; decide
    have htrack : track opened l.kind = opened := by rw [hl]; rfl
    rw [List.flatMap_cons, halves_of_ne (by rw [hl]; decide), List.append_assoc,
      List.singleton_append, pairBrackets_cons_of_ne opened hsingle, htrack, ih hkinds hls]
    rfl
  | pair b _ _ ih ih' =>
    intro ls hkinds hls opened rest
    obtain ⟨l, ls, rfl, hl, hkinds⟩ := List.map_eq_cons_iff.mp hkinds
    obtain ⟨inside, ls, rfl, hinside, hkinds⟩ := List.map_eq_append_iff.mp hkinds
    obtain ⟨m, ls, rfl, hm, hlater⟩ := List.map_eq_cons_iff.mp hkinds
    simp only [List.forall_mem_cons, List.forall_mem_append] at hls
    obtain ⟨hlspelled, hins, hmspelled, hls⟩ := hls
    obtain rfl := hlspelled.eq_opening hl
    obtain rfl := hmspelled.eq_closing hm
    simp only [List.flatMap_cons, List.flatMap_append, List.append_assoc]
    rw [pairBrackets_opening, ih hinside hins, pairBrackets_closing, ih' hlater hls]
    simp

/-- Brackets and names are not fused. -/
theorem fuse_spelled (hls : ∀ l ∈ ls, Spelled l) : fuse TokenStream.defaultMerge ls = ls := by
  induction ls with
  | nil => rfl
  | cons l ls ih =>
    obtain ⟨hl, hls⟩ := List.forall_mem_cons.mp hls
    rw [fuse_cons, ih hls]
    refine fuseCons_of_not_mem ?_ ls
    cases hl with
    | opening b => cases b <;> decide
    | closing b => cases b <;> decide
    | name _ => rfl

theorem ofText_nested (hnested : Nested (ls.map Lexeme.kind)) (hls : ∀ l ∈ ls, Spelled l)
    (hchain : ls.IsChain Follows) : ofText (String.ofList (ls.flatMap Lexeme.chars)) = ls := by
  have hpair := pairBrackets_nested hnested rfl hls [] []
  rw [List.append_nil, pairBrackets, List.append_nil] at hpair
  rw [ofText, ofChars, String.toList_ofList, scanAll_spelled hls hchain, hpair, fuse_spelled hls]

end Lexeme

/-- Well-nested brackets, written without blanks and with names between them where one likes, are
read as these brackets and names, if no two names are neighbours and no `[` stands directly before
`[` or `[[`.  Every closing bracket then closes an opening one of its pair, with nested brackets
between the two: a `]]` closes a `[[`, and two `]` that close two `[` are two. -/
theorem lex_nested {ls : List Lexeme} (hnested : Nested (ls.map Lexeme.kind))
    (hls : ∀ l ∈ ls, Lexeme.Spelled l) (hchain : ls.IsChain Lexeme.Follows) :
    let tokens := lex (String.ofList (ls.flatMap Lexeme.chars))
    tokens = Lexeme.place 0 ls ∧
    ∀ (b : Bracket) (before after : List Token) (t : Token), tokens = before ++ t :: after →
      t.kind = b.closing.kind →
      ∃ (outside inside : List Token) (u : Token), before = outside ++ u :: inside ∧
        u.kind = b.opening.kind ∧ Nested (inside.map Token.kind) := by
  intro tokens
  have htokens : tokens = Lexeme.place 0 ls := by
    show lex _ = _
    rw [lex_eq_place, ofText_nested hnested hls hchain]
  refine ⟨htokens, fun b before after t hsplit hclosing => ?_⟩
  have hkinds := congrArg (List.map Token.kind) (htokens.symm.trans hsplit)
  rw [map_kind_place, List.map_append, List.map_cons, hclosing] at hkinds
  -- The closing bracket is not the end of the file.
  obtain ⟨ks, hks⟩ : ∃ ks, ls.map Lexeme.kind = before.map Token.kind ++ b.closing.kind :: ks := by
    rcases List.append_eq_append_iff.mp hkinds with ⟨mid, -, hmid⟩ | ⟨mid, hbefore, hmid⟩
    · cases mid with
      | nil => exact absurd (List.cons.inj hmid).1.symm b.closing_ne_endOfFile
      | cons k mid => simp at hmid
    · cases mid with
      | nil => exact absurd (List.cons.inj hmid).1 b.closing_ne_endOfFile
      | cons k mid =>
        obtain ⟨rfl, -⟩ := List.cons.inj hmid
        exact ⟨mid, hbefore⟩
  obtain ⟨outside, inside, hbefore, hinside⟩ := hnested.exists_opening hks
  obtain ⟨outer, rest, rfl, -, hrest⟩ := List.map_eq_append_iff.mp hbefore
  obtain ⟨u, inner, rfl, hu, rfl⟩ := List.map_eq_cons_iff.mp hrest
  exact ⟨outer, inner, u, rfl, hu, hinside⟩

/-- The lexemes of `x[[a[b]]][c[[y]]]`. -/
def nestedIndices : List Lexeme :=
  [⟨.identifier, "x".toList⟩, Bracket.double.opening, ⟨.identifier, "a".toList⟩,
    Bracket.single.opening, ⟨.identifier, "b".toList⟩, Bracket.single.closing,
    Bracket.double.closing, Bracket.single.opening, ⟨.identifier, "c".toList⟩,
    Bracket.double.opening, ⟨.identifier, "y".toList⟩, Bracket.double.closing,
    Bracket.single.closing]

theorem lex_nested_indices :
    Nested (nestedIndices.map Lexeme.kind) ∧ (∀ l ∈ nestedIndices, l.Spelled) ∧
      nestedIndices.IsChain Follows ∧ lex "x[[a[b]]][c[[y]]]" = place 0 nestedIndices := by
  have hnested : Nested (nestedIndices.map Lexeme.kind) :=
    .name <| .pair .double (.name <| .pair .single (.name .nil) .nil) <|
      .pair .single (.name <| .pair .double (.name .nil) .nil) .nil
  have hspelled : ∀ l ∈ nestedIndices, l.Spelled := by
    have hname : ∀ name ∈ ["x", "a", "b", "c", "y"], IsToken .identifier name := by
      decide +kernel
    simp only [nestedIndices, List.forall_mem_cons]
    exact ⟨.name (hname "x" (by simp)), .opening .double, .name (hname "a" (by simp)),
      .opening .single, .name (hname "b" (by simp)), .closing .single, .closing .double,
      .opening .single, .name (hname "c" (by simp)), .opening .double,
      .name (hname "y" (by simp)), .closing .double, .closing .single, List.forall_mem_nil _⟩
  have hchain : nestedIndices.IsChain Follows := by decide
  exact ⟨hnested, hspelled, hchain, (lex_nested hnested hspelled hchain).1⟩

end RSource
