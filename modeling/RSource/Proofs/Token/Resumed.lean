import RSource.Proofs.Lexeme.Cover
import RSource.Proofs.Lexeme.Paired
import RSource.Proofs.Token.Stream

/-! Streams that start in the middle of a text.  What a stream knows at a token, besides its place,
are the open brackets, and these decide only whether two `]` are one token.  So a stream that starts
at a token gives what the stream of the whole text still has to give, up to the `]]`. -/

namespace RSource

namespace Token

variable {first last : Nat} {ts : List Token}

/-- The token with a `]]` taken apart into two `]`. -/
def halves (t : Token) : List Token :=
  if t.kind = .rightDoubleBracket then
    let middle := min (t.span.start + 1) t.span.stop
    [⟨.rightBracket, ⟨t.span.start, middle⟩⟩, ⟨.rightBracket, ⟨middle, t.span.stop⟩⟩]
  else [t]

theorem halves_of_ne {t : Token} (h : t.kind ≠ .rightDoubleBracket) : t.halves = [t] := if_neg h

theorem consecutive_map_capped (h : Consecutive first last ts) :
    Consecutive (min first maxOffset) (min last maxOffset) (ts.map capped) := by
  induction ts generalizing first with
  | nil => exact congrArg (min · maxOffset) h
  | cons t ts ih =>
    obtain ⟨hstart, hstop, hrest⟩ := h
    refine ⟨congrArg (min · maxOffset) hstart, ?_, ih hrest⟩
    show min first maxOffset ≤ min t.span.stop maxOffset
    omega

end Token

namespace Lexeme

variable {ls : List Lexeme}

/-- Where a `]]` is taken apart, so is its token. -/
theorem flatMap_halves_place (h : ∀ l ∈ ls, l.kind = .rightDoubleBracket → l = doubleCloser)
    (offset : Nat) :
    ((place offset ls).map Token.capped).flatMap Token.halves =
      (place offset (ls.flatMap halves)).map Token.capped := by
  induction ls generalizing offset with
  | nil => rfl
  | cons l ls ih =>
    obtain ⟨hl, hls⟩ := List.forall_mem_cons.mp h
    have hrest := ih hls (offset + l.size)
    rw [place, List.map_cons, List.flatMap_cons, hrest]
    by_cases hkind : l.kind = .rightDoubleBracket
    · obtain rfl := hl hkind
      have hmiddle : min (min offset maxOffset + 1) (min (offset + 2) maxOffset) =
          min (offset + 1) maxOffset := by omega
      have hfirst : (doubleCloser.tokenAt offset).capped.halves =
          [(closer.tokenAt offset).capped, (closer.tokenAt (offset + 1)).capped] := by
        show [Token.mk _ ⟨_, min (min offset maxOffset + 1) (min (offset + 2) maxOffset)⟩,
          Token.mk _ ⟨min (min offset maxOffset + 1) (min (offset + 2) maxOffset), _⟩] = _
        rw [hmiddle]
        rfl
      rw [hfirst]
      rfl
    · rw [List.flatMap_cons, halves_of_ne hkind, Token.halves_of_ne hkind]
      rfl

theorem place_append (offset : Nat) (ls ms : List Lexeme) :
    place offset (ls ++ ms) =
      tile offset ls ++ place (offset + Text.size (ls.flatMap Lexeme.chars)) ms := by
  rw [place_eq_tile, tile_append, List.append_assoc, place_eq_tile, List.flatMap_append,
    Text.size_append, Nat.add_assoc]

end Lexeme

namespace TokenStream

open Lexeme

variable {s s' : TokenStream} {t : Token}

/-! ### The brackets that are open -/

/-- The token that is taken is the one that the brackets are told of. -/
theorem opened_cook (h : s.cook = (some t, s')) : s'.opened = Lexeme.track s.opened t.kind := by
  obtain ⟨s₁, hpull, h₁⟩ := s.exists_pulled
  obtain ⟨s₂, hpull₂, h₂⟩ := s₁.exists_pulled
  rw [cook, hpull] at h
  cases hfirst : s.scanned.head? with
  | none =>
    simp only [hfirst] at h
    split at h
    · cases h
    · obtain ⟨ht, rfl⟩ := Prod.mk.inj h
      obtain rfl := Option.some.inj ht
      exact h₁.opened
  | some u =>
    simp only [hfirst, hpull₂] at h
    have hopened := h₂.opened.trans h₁.opened
    split at h
    · cases hsecond : s₁.scanned.head? with
      | none =>
        simp only [hsecond] at h
        obtain ⟨ht, rfl⟩ := Prod.mk.inj h
        obtain rfl := Option.some.inj ht
        rw [track, hopened]
      | some v =>
        simp only [hsecond] at h
        split at h
        all_goals
          obtain ⟨ht, rfl⟩ := Prod.mk.inj h
          obtain rfl := Option.some.inj ht
          simp only [track, hopened, join]
    · obtain ⟨ht, rfl⟩ := Prod.mk.inj h
      obtain rfl := Option.some.inj ht
      rw [track, h₁.opened]

theorem opened_cook_none (h : s.cook = (none, s')) : s'.opened = s.opened := by
  obtain ⟨s₁, hpull, h₁⟩ := s.exists_pulled
  rw [cook, hpull] at h
  cases hfirst : s.scanned.head? with
  | none =>
    simp only [hfirst] at h
    split at h
    · obtain ⟨-, rfl⟩ := Prod.mk.inj h
      exact h₁.opened
    · cases h
  | some u =>
    simp only [hfirst] at h
    repeat' split at h
    all_goals cases h

/-- A stream that fuses nothing takes no token ahead. -/
theorem next_eq_cook (hmerge : s.merge = .empty) (hahead : s.ahead = none) : s.next = s.cook := by
  have hadvance : s.advance = s.cook := by rw [advance, hahead]
  obtain ⟨hgives, -⟩ := s.cook_gives
  rw [next, hadvance]
  cases hcook : s.cook with
  | mk first s' =>
    rw [hcook] at hgives
    cases first with
    | none => rfl
    | some t =>
      have hsame : s'.merge = .empty := (merge_of_restart hgives.restart).trans hmerge
      have hnone : s'.merge.contains t.kind = false := by rw [hsame]; rfl
      simp [hnone]

/-- The brackets that are open when tokens are given are those that these tokens leave open. -/
theorem opened_take (n : Nat) (hmerge : s.merge = .empty) (hahead : s.ahead = none) :
    (s.take n).2.opened = ((s.take n).1.map Token.kind).foldl Lexeme.track s.opened := by
  induction n generalizing s with
  | zero => rfl
  | succ n ih =>
    obtain ⟨hgives, hstill⟩ := s.cook_gives
    rw [take, next_eq_cook hmerge hahead]
    cases hcook : s.cook with
    | mk first s' =>
      rw [hcook] at hgives hstill
      cases first with
      | none => exact opened_cook_none hcook
      | some t =>
        have hrest := ih ((merge_of_restart hgives.restart).trans hmerge) (hstill.trans hahead)
        rw [opened_cook hcook] at hrest
        exact hrest

/-! ### Starting at a token -/

/-- The offsets at which the tokens of a text begin, without a cap, that of the end of the file
last. -/
def beginnings (text : String) : List Nat :=
  (place 0 (Lexeme.ofChars text.toList)).map (·.span.start)

theorem drain_fresh_empty (base : Nat) (cs : List Char) :
    (fresh .empty base cs).drain.1 = (place base (Lexeme.ofChars cs)).map Token.capped := by
  rw [drain_fused _ (straight_fresh .empty base cs), upcoming_fresh]
  exact Token.fused_empty _

theorem ofText_eq_fresh (text : String) (merge : TokenSet) :
    ofText text merge = fresh merge 0 text.toList := by
  rw [ofText, startingAt, Text.charsFrom?_zero]

theorem drain_ofText_empty (text : String) : (ofText text .empty).drain.1 =
    (place 0 (Lexeme.ofChars text.toList)).map Token.capped := by
  rw [ofText_eq_fresh, drain_fresh_empty]

/-- The brackets that are open in the stream of a text after its first tokens. -/
theorem opened_take_ofText {text : String} {before after : List Lexeme}
    (h : Lexeme.ofChars text.toList = before ++ after) :
    ((ofText text .empty).take before.length).2.opened = trackAll [] before := by
  have hstraight := straight_fresh .empty 0 text.toList
  have hkinds : (((place 0 (Lexeme.ofChars text.toList)).map Token.capped).take
      before.length).map Token.kind = before.map Lexeme.kind := by
    have hplace := map_kind_place 0 (before ++ after)
    rw [h, ← List.map_take, List.map_map]
    show ((place 0 (before ++ after)).take before.length).map Token.kind = _
    rw [List.map_take, hplace, List.map_append, List.append_assoc]
    exact List.take_left' (List.length_map _)
  rw [ofText_eq_fresh, opened_take _ rfl rfl, take_fused _ _ hstraight, ← drain_fused _ hstraight,
    drain_fresh_empty, hkinds]
  rfl

/-- The tokens of the whole stream begin there. -/
theorem map_start_drain (text : String) : (ofText text .empty).drain.1.map (·.span.start) =
    (beginnings text).map (min · maxOffset) := by
  rw [drain_ofText_empty, beginnings, List.map_map, List.map_map]
  rfl

theorem start_of_head?_place {offset : Nat} {ls : List Lexeme} :
    (place offset ls).head?.map (·.span.start) = some offset := by
  cases ls <;> rfl

/-- A place where a token begins cuts the lexemes of a text in two. -/
theorem exists_cut {text : String} {n p : Nat} (h : (beginnings text)[n]? = some p) :
    ∃ before after, Lexeme.ofChars text.toList = before ++ after ∧ before.length = n ∧
      p = Text.size (before.flatMap Lexeme.chars) := by
  have hlength : n ≤ (Lexeme.ofChars text.toList).length := by
    obtain ⟨hn, -⟩ := List.getElem?_eq_some_iff.mp h
    rw [beginnings, List.length_map, length_place] at hn
    omega
  refine ⟨(Lexeme.ofChars text.toList).take n, (Lexeme.ofChars text.toList).drop n,
    (List.take_append_drop _ _).symm, List.length_take_of_le hlength, ?_⟩
  have hplace := place_append 0 ((Lexeme.ofChars text.toList).take n)
    ((Lexeme.ofChars text.toList).drop n)
  rw [List.take_append_drop] at hplace
  rw [beginnings, hplace, List.map_append, List.getElem?_append_right, List.length_map, length_tile,
    List.length_take_of_le hlength, Nat.sub_self, ← List.head?_eq_getElem?, List.head?_map,
    start_of_head?_place, Nat.zero_add] at h
  · exact (Option.some.inj h).symm
  · rw [List.length_map, length_tile, List.length_take_of_le hlength]

/-- However they are paired, tokens that are read from a place on lie end to end from there. -/
theorem consecutive_place_pairBrackets (pos : Nat) (opened : List TokenKind) (ys : List Lexeme) :
    Consecutive (min pos maxOffset) (min (pos + Text.size (ys.flatMap Lexeme.chars)) maxOffset)
      ((place pos (pairBrackets opened ys)).map Token.capped) := by
  have hplaced := consecutive_place pos (pairBrackets opened ys)
  rw [flatMap_chars_pairBrackets] at hplaced
  exact Token.consecutive_map_capped hplaced

/-- What a text is scanned as from one of its lexemes on is the rest of its lexemes. -/
theorem scanAll_of_scanAll_eq_append {cs : List Char} {xs ys : List Lexeme}
    (h : scanAll cs = xs ++ ys) : scanAll (ys.flatMap Lexeme.chars) = ys := by
  have hchars := flatMap_chars_scanAll cs
  rw [h, List.flatMap_append] at hchars
  have hsuffix : scanAll (textThen xs (ys.flatMap Lexeme.chars)) = xs ++ ys := by
    rw [textThen, hchars, h]
  exact scanAll_suffix hsuffix

/-- A stream that starts at a token of a text has the tokens that the stream of the whole text still
has there, when every `]]` is taken apart; and it has the very same tokens if no bracket is open in
the whole stream.  Both lay their tokens end to end from that place to the end of the text. -/
theorem drain_startingAt {text : String} {n p : Nat} (h : (beginnings text)[n]? = some p) :
    let whole := ofText text .empty
    let rest := whole.drain.1.drop n
    let resumed := (startingAt text p .empty).drain.1
    whole.drain.1[n]?.map (·.span.start) = some (min p maxOffset) ∧
      resumed.flatMap Token.halves = rest.flatMap Token.halves ∧
      ((whole.take n).2.opened = [] → resumed = rest) ∧
      ∀ tokens ∈ [resumed, rest],
        Consecutive (min p maxOffset) (min (Text.byteLength text) maxOffset) tokens := by
  have hstart := congrArg (·[n]?) (map_start_drain text)
  simp only [List.getElem?_map, h, Option.map_some] at hstart
  obtain ⟨before, after, hcut, hlength, rfl⟩ := exists_cut h
  obtain ⟨xs, ys, hscan, hafter, hxs⟩ := pairBrackets_eq_append hcut
  intro whole rest resumed
  have hunpaired := unpaired_of_mem_scanAll text.toList
  rw [hscan] at hunpaired
  have hys : ∀ l ∈ ys, Unpaired l := fun l hl => hunpaired l (List.mem_append_right _ hl)
  have htext : text.toList = xs.flatMap Lexeme.chars ++ ys.flatMap Lexeme.chars := by
    rw [← List.flatMap_append, ← hscan, flatMap_chars_scanAll]
  have hrest : rest = (place (Text.size (before.flatMap Lexeme.chars)) after).map Token.capped := by
    show (ofText text .empty).drain.1.drop n = _
    rw [drain_ofText_empty, hcut, place_append, List.map_append, Nat.zero_add]
    exact List.drop_left' (by rw [List.length_map, length_tile, hlength])
  have hresumed : resumed = (place (Text.size (before.flatMap Lexeme.chars))
      (pairBrackets [] ys)).map Token.capped := by
    show (startingAt text _ .empty).drain.1 = _
    rw [startingAt, ← hxs, htext, Text.charsFrom?_append]
    -- What the new stream scans is what is left to the whole one.
    simp only [drain_fresh_empty, Lexeme.ofChars, scanAll_of_scanAll_eq_append hscan]
  have hopened : (whole.take n).2.opened = trackAll [] before := by
    show ((ofText text .empty).take n).2.opened = _
    rw [← hlength, opened_take_ofText hcut]
  have hsize : Text.size (before.flatMap Lexeme.chars) + Text.size (ys.flatMap Lexeme.chars) =
      Text.byteLength text := by
    rw [← hxs, ← Text.size_append, ← htext, Text.size_toList]
  rw [hresumed, hrest, ← hafter]
  refine ⟨hstart, ?_, fun hnone => ?_, fun tokens htokens => ?_⟩
  · rw [flatMap_halves_place (chars_of_mem_pairBrackets hys),
      flatMap_halves_place (chars_of_mem_pairBrackets hys), flatMap_halves_pairBrackets _ hys,
      flatMap_halves_pairBrackets _ hys]
  · rw [← hopened, hnone]
  · rw [← hsize]
    simp only [List.mem_cons, List.not_mem_nil, or_false] at htokens
    rcases htokens with rfl | rfl
    · exact consecutive_place_pairBrackets _ _ _
    · exact consecutive_place_pairBrackets _ _ _

/-- From the `]]` of `x[[a]];y` on, where `[[` is open, and from its `;` on, where nothing is. -/
theorem drain_startingAt_index :
    (beginnings "x[[a]];y")[3]? = some 4 ∧ (beginnings "x[[a]];y")[4]? = some 6 ∧
      ((ofText "x[[a]];y" .empty).take 4).2.opened = [] ∧
      (startingAt "x[[a]];y" 4 .empty).drain.1.flatMap Token.halves =
        ((ofText "x[[a]];y" .empty).drain.1.drop 3).flatMap Token.halves ∧
      (startingAt "x[[a]];y" 6 .empty).drain.1 = (ofText "x[[a]];y" .empty).drain.1.drop 4 := by
  have hclosing : (beginnings "x[[a]];y")[3]? = some 4 := by decide +kernel
  have hafter : (beginnings "x[[a]];y")[4]? = some 6 := by decide +kernel
  have hopened : ((ofText "x[[a]];y" .empty).take 4).2.opened = [] := by decide +kernel
  exact ⟨hclosing, hafter, hopened, (drain_startingAt hclosing).2.1,
    (drain_startingAt hafter).2.2.1 hopened⟩

end TokenStream

end RSource
