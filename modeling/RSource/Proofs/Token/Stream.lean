import Mathlib.Algebra.Order.BigOperators.Group.List
import Mathlib.Data.List.SplitBy
import RSource.Proofs.Lexeme.Joined

/-! Streams of tokens against the list of all tokens.  What a stream has scanned ahead is the start
of what it still has to give, so that every call takes the first token of one list (`upcoming`).
The tokens for a merge set are the longest runs of those without one (`fused`), and whatever the
calls, a stream has given the first of them since it was last at its start. -/

namespace RSource

theorem exists_splitBy_cons {α : Type} (r : α → α → Bool) (x : α) (xs : List α) :
    ∃ ys yss, ∀ (before : List α) (a : α), (before ++ [a]).IsChain (r · ·) →
      (∀ y, r a y = r x y) → (before ++ a :: xs).splitBy r = (before ++ a :: ys) :: yss := by
  induction xs generalizing x with
  | nil => exact ⟨[], [], fun before a h _ => List.splitBy_of_isChain (by simp) h⟩
  | cons y xs ih =>
    cases hxy : r x y with
    | true =>
      obtain ⟨ys, yss, hrest⟩ := ih y
      refine ⟨y :: ys, yss, fun before a h ha => ?_⟩
      have hchain : (before ++ [a] ++ [y]).IsChain (r · ·) := by
        rw [List.isChain_append]
        exact ⟨h, .singleton y, by simp [ha, hxy]⟩
      simpa using hrest (before ++ [a]) y hchain fun _ => rfl
    | false =>
      refine ⟨[], (y :: xs).splitBy r, fun before a h ha => ?_⟩
      have hlast : ∀ z ∈ (before ++ [a]).getLast?, r z y = false := by simp [ha, hxy]
      rw [List.append_cons, List.splitBy_append_cons xs hlast,
        List.splitBy_of_isChain (by simp) h]
      rfl

namespace Token

/-- The tokens are fused: they are of one kind of the set and stand end to end. -/
def joins (merge : TokenSet) (t u : Token) : Bool :=
  merge.contains t.kind && u.kind == t.kind && u.span.start == t.span.stop

/-- The token that covers a run of tokens. -/
def cover : List Token → Token
  | [] => ⟨.endOfFile, .point 0⟩
  | t :: ts => ⟨t.kind, ⟨t.span.start, (ts.getLastD t).span.stop⟩⟩

/-- The tokens when every longest run of tokens that are fused is made one token. -/
def fused (merge : TokenSet) (ts : List Token) : List Token :=
  (ts.splitBy (joins merge)).map cover

variable {merge : TokenSet} {t u : Token} {ts us : List Token}

@[simp] theorem fused_nil : fused merge [] = [] := rfl

theorem fused_append (h : ∀ x ∈ ts.getLast?, ∀ y ∈ us.head?, joins merge x y = false) :
    fused merge (ts ++ us) = fused merge ts ++ fused merge us := by
  rw [fused, List.splitBy_append h, List.map_append, fused, fused]

/-- A token that is not fused with the next stays as it is. -/
theorem fused_cons (h : ∀ y ∈ us.head?, joins merge t y = false) :
    fused merge (t :: us) = t :: fused merge us :=
  @fused_append merge [t] us (by simpa using h)

/-- Two tokens that are fused count as the token that covers them. -/
theorem fused_cons_cons (h : joins merge t u = true) :
    fused merge (t :: u :: us) = fused merge (⟨t.kind, ⟨t.span.start, u.span.stop⟩⟩ :: us) := by
  obtain ⟨ys, yss, hsplit⟩ := exists_splitBy_cons (joins merge) u us
  have hkind : u.kind = t.kind := by
    simp only [joins, Bool.and_eq_true, beq_iff_eq] at h
    exact h.1.2
  have hapart := hsplit [t] u (by simpa using h) fun _ => rfl
  have hjoined := hsplit [] ⟨t.kind, ⟨t.span.start, u.span.stop⟩⟩ (.singleton _)
    fun y => by simp [joins, hkind]
  rw [List.singleton_append] at hapart
  rw [List.nil_append] at hjoined
  rw [fused, fused, hapart, hjoined]
  cases ys <;> rfl

/-- A token that is fused with the first of others prolongs their first run. -/
theorem exists_fused_cons_cons (h : joins merge t u = true) :
    ∃ v vs, fused merge (u :: us) = v :: vs ∧
      fused merge (t :: u :: us) = ⟨t.kind, ⟨t.span.start, v.span.stop⟩⟩ :: vs := by
  obtain ⟨ys, yss, hsplit⟩ := exists_splitBy_cons (joins merge) u us
  have halone := hsplit [] u (.singleton u) fun _ => rfl
  have hapart := hsplit [t] u (by simpa using h) fun _ => rfl
  rw [List.singleton_append] at hapart
  rw [List.nil_append] at halone
  refine ⟨cover (u :: ys), yss.map cover, by rw [fused, halone]; rfl, ?_⟩
  rw [fused, hapart]
  cases ys <;> rfl

theorem length_fused_le (merge : TokenSet) (ts : List Token) :
    (fused merge ts).length ≤ ts.length := by
  have hpos : ∀ n ∈ (ts.splitBy (joins merge)).map List.length, 1 ≤ n := by
    intro n hn
    obtain ⟨run, hrun, rfl⟩ := List.mem_map.mp hn
    exact List.length_pos_of_ne_nil (List.ne_nil_of_mem_splitBy hrun)
  have hle := List.length_le_sum_of_one_le _ hpos
  rw [List.length_map, ← List.length_flatten, List.flatten_splitBy] at hle
  rwa [fused, List.length_map]

/-- Nothing is fused without kinds to fuse. -/
theorem fused_empty (ts : List Token) : fused .empty ts = ts := by
  induction ts with
  | nil => rfl
  | cons t ts ih => rw [fused_cons fun _ _ => rfl, ih]

/-- Two adjacent `]` are one token wherever the innermost open bracket is `[[`. -/
def paired (opened : List TokenKind) : List Token → List Token
  | [] => []
  | [t] => [t]
  | t :: u :: rest =>
    if (t.kind = .rightBracket && opened.head? = some .leftDoubleBracket) &&
        (u.kind = .rightBracket && TokenStream.touches t u) then
      TokenStream.join .rightDoubleBracket t u ::
        paired (Lexeme.track opened .rightDoubleBracket) rest
    else t :: paired (Lexeme.track opened t.kind) (u :: rest)

/-- A token that does not close a `[[` stays as it is. -/
theorem paired_cons {opened : List TokenKind}
    (h : ¬(t.kind = .rightBracket && opened.head? = some .leftDoubleBracket) = true)
    (ts : List Token) : paired opened (t :: ts) = t :: paired (Lexeme.track opened t.kind) ts := by
  cases ts with
  | nil => rfl
  | cons u us => rw [paired, if_neg fun hboth => h (Bool.and_eq_true_iff.mp hboth).1]

end Token

namespace TokenStream

open Token

variable {s : TokenStream} {t : Token}

/-! ### What a stream still has to give -/

/-- Where the text ends. -/
def stop (s : TokenStream) : Nat := s.offset + Text.size s.unscanned

/-- The tokens that are not taken yet, with every `]` on its own. -/
def scanned (s : TokenStream) : List Token :=
  s.stashed.toList ++ (Lexeme.tile s.offset (Lexeme.scanAll s.unscanned)).map Token.capped

/-- The tokens that are not taken yet, and the end of the file. -/
def cooked (s : TokenStream) : List Token :=
  paired s.opened s.scanned ++ if s.ended then [] else [Token.capped ⟨.endOfFile, .point s.stop⟩]

/-- The tokens that are still to come when nothing is fused. -/
def upcoming (s : TokenStream) : List Token := s.ahead.toList ++ s.cooked

/-- One token is scanned, or taken from the stash, and all else stays. -/
structure Pulled (s s' : TokenStream) : Prop where
  scanned : s'.scanned = s.scanned.tail
  stashed : s'.stashed = none
  stop : s'.stop = s.stop
  opened : s'.opened = s.opened
  ahead : s'.ahead = s.ahead
  ended : s'.ended = s.ended
  restart : s'.restart = s.restart

theorem exists_pulled (s : TokenStream) : ∃ s', s.pull = (s.scanned.head?, s') ∧ Pulled s s' := by
  obtain ⟨merge, base, source, offset, unscanned, opened, stashed, ahead, ended⟩ := s
  cases stashed with
  | some t => exact ⟨_, rfl, rfl, rfl, rfl, rfl, rfl, rfl, rfl⟩
  | none =>
    cases unscanned with
    | nil => exact ⟨_, rfl, rfl, rfl, rfl, rfl, rfl, rfl, rfl⟩
    | cons c cs =>
      refine ⟨⟨merge, base, source,
        offset + Lexeme.size ⟨(Lexeme.scan c cs).1, c :: cs.take (Lexeme.scan c cs).2⟩,
        cs.drop (Lexeme.scan c cs).2, opened, none, ahead, ended⟩, ?_, ?_, rfl, ?_, rfl, rfl, rfl,
        rfl⟩
      · rw [scanned, Lexeme.scanAll_cons]
        rfl
      · rw [scanned, scanned, Lexeme.scanAll_cons]
        rfl
      · have hsize := congrArg Text.size (List.take_append_drop (Lexeme.scan c cs).2 cs)
        rw [Text.size_append] at hsize
        simp only [stop, Lexeme.size, Text.size_cons]
        omega

/-- Where nothing is left to scan, the text ends. -/
theorem offset_eq_stop (h : s.scanned = []) : s.offset = s.stop := by
  obtain ⟨-, htile⟩ := List.append_eq_nil_iff.mp h
  cases hunscanned : s.unscanned with
  | nil => rw [stop, hunscanned, Text.size_nil, Nat.add_zero]
  | cons c cs =>
    rw [hunscanned, Lexeme.scanAll_cons] at htile
    cases htile

theorem cooked_of_scanned_eq_nil (h : s.scanned = []) :
    s.cooked = if s.ended then [] else [Token.capped ⟨.endOfFile, .point s.offset⟩] := by
  rw [cooked, h, paired, List.nil_append, offset_eq_stop h]

theorem cooked_eq_cons {s' : TokenStream}
    (h : paired s.opened s.scanned = t :: paired s'.opened s'.scanned)
    (hended : s'.ended = s.ended) (hstop : s'.stop = s.stop) : s.cooked = t :: s'.cooked := by
  rw [cooked, h, cooked, hended, hstop, List.cons_append]

/-- The first of the tokens is given, the others stay in the stream, which starts where it did. -/
structure Gives (tokens : TokenStream → List Token) (s : TokenStream)
    (result : Option Token × TokenStream) : Prop where
  first : result.1 = (tokens s).head?
  rest : tokens result.2 = (tokens s).tail
  restart : result.2.restart = s.restart

theorem gives_cons {tokens : TokenStream → List Token} {s s' : TokenStream} {t : Token}
    (h : tokens s = t :: tokens s') (hrestart : s'.restart = s.restart) :
    Gives tokens s (some t, s') :=
  ⟨by rw [h, List.head?_cons], by rw [h, List.tail_cons], hrestart⟩

/-- After the last token comes the end of the file, once. -/
theorem cook_gives_nil (hscanned : s.scanned = []) :
    Gives cooked s s.cook ∧ s.cook.2.ahead = s.ahead := by
  obtain ⟨s₁, hpull, h₁⟩ := s.exists_pulled
  have hscanned₁ := h₁.scanned
  rw [hscanned] at hpull hscanned₁
  have hcooked : s.cooked =
      if s₁.ended then [] else [Token.capped ⟨.endOfFile, .point s₁.offset⟩] := by
    rw [cooked_of_scanned_eq_nil hscanned, offset_eq_stop hscanned, h₁.ended,
      offset_eq_stop hscanned₁, h₁.stop]
  simp only [cook, hpull, List.head?_nil]
  split
  · next hended =>
    rw [if_pos hended] at hcooked
    have hcooked₁ : s₁.cooked = [] := by
      rw [cooked_of_scanned_eq_nil hscanned₁, if_pos hended]
    exact ⟨⟨by rw [hcooked]; rfl, by rw [hcooked, hcooked₁]; rfl, h₁.restart⟩, h₁.ahead⟩
  · next hended =>
    rw [if_neg hended] at hcooked
    have hcooked₁ : ({ s₁ with ended := true } : TokenStream).cooked = [] :=
      cooked_of_scanned_eq_nil (s := { s₁ with ended := true }) hscanned₁
    exact ⟨gives_cons (by rw [hcooked, hcooked₁]) h₁.restart, h₁.ahead⟩

/-- A `]` that closes a `[[` may take the next token with it, which is stashed otherwise. -/
theorem cook_gives_bracket {ts : List Token} (hscanned : s.scanned = t :: ts)
    (hbracket : (t.kind = .rightBracket && s.opened.head? = some .leftDoubleBracket) = true) :
    Gives cooked s s.cook ∧ s.cook.2.ahead = s.ahead := by
  obtain ⟨s₁, hpull, h₁⟩ := s.exists_pulled
  obtain ⟨s₂, hpull₂, h₂⟩ := s₁.exists_pulled
  have hscanned₁ := h₁.scanned
  have hscanned₂ := h₂.scanned
  have hended := h₂.ended.trans h₁.ended
  have hstop := h₂.stop.trans h₁.stop
  have hopened := h₂.opened.trans h₁.opened
  have hrestart := h₂.restart.trans h₁.restart
  have hahead := h₂.ahead.trans h₁.ahead
  rw [hscanned] at hpull hscanned₁
  rw [hscanned₁, List.tail_cons] at hpull₂ hscanned₂
  have hbracket₁ := hbracket
  rw [← h₁.opened] at hbracket₁
  simp only [cook, hpull, List.head?_cons, if_pos hbracket₁]
  cases ts with
  | nil =>
    simp only [hpull₂, List.head?_nil]
    refine ⟨gives_cons (cooked_eq_cons ?_ hended hstop) hrestart, hahead⟩
    have hnone : (s₂.track t.kind).scanned = [] := hscanned₂
    rw [hscanned, hnone]
    rfl
  | cons u us =>
    simp only [hpull₂, List.head?_cons]
    split
    · next hjoin =>
      refine ⟨gives_cons (cooked_eq_cons ?_ hended hstop) hrestart, hahead⟩
      have hrest : (s₂.track .rightDoubleBracket).scanned = us := hscanned₂
      rw [hscanned, hrest, paired, if_pos (Bool.and_eq_true_iff.mpr ⟨hbracket, hjoin⟩), track,
        hopened]
    · next hjoin =>
      refine ⟨gives_cons (cooked_eq_cons ?_ hended hstop) hrestart, hahead⟩
      have hrest : ({ s₂ with stashed := some u }.track t.kind).scanned = u :: us := by
        rw [scanned, h₂.stashed] at hscanned₂
        exact congrArg (u :: ·) hscanned₂
      rw [hscanned, hrest, paired, if_neg fun h => hjoin (Bool.and_eq_true_iff.mp h).2, track,
        hopened]

theorem cook_gives (s : TokenStream) : Gives cooked s s.cook ∧ s.cook.2.ahead = s.ahead := by
  cases hscanned : s.scanned with
  | nil => exact cook_gives_nil hscanned
  | cons t ts =>
    by_cases hbracket : (t.kind = .rightBracket &&
        s.opened.head? = some .leftDoubleBracket) = true
    · exact cook_gives_bracket hscanned hbracket
    · obtain ⟨s₁, hpull, h₁⟩ := s.exists_pulled
      have hscanned₁ := h₁.scanned
      rw [hscanned] at hpull hscanned₁
      have hbracket₁ := hbracket
      rw [← h₁.opened] at hbracket₁
      simp only [cook, hpull, List.head?_cons, if_neg hbracket₁]
      refine ⟨gives_cons (cooked_eq_cons ?_ h₁.ended h₁.stop) h₁.restart, h₁.ahead⟩
      have hrest : (s₁.track t.kind).scanned = ts := hscanned₁
      rw [hscanned, hrest, paired_cons hbracket, track, h₁.opened]

theorem advance_gives (s : TokenStream) :
    Gives upcoming s s.advance ∧ s.advance.2.ahead = none := by
  rw [advance]
  split
  · next t hahead =>
    exact ⟨gives_cons (by rw [upcoming, hahead]; rfl) rfl, rfl⟩
  · next hahead =>
    obtain ⟨hcook, hcookAhead⟩ := s.cook_gives
    rw [hahead] at hcookAhead
    have hupcoming : s.upcoming = s.cooked := by rw [upcoming, hahead]; rfl
    have hupcoming' : s.cook.2.upcoming = s.cook.2.cooked := by rw [upcoming, hcookAhead]; rfl
    exact ⟨⟨by rw [hcook.first, hupcoming], by rw [hupcoming', hcook.rest, hupcoming],
      hcook.restart⟩, hcookAhead⟩

theorem upcoming_of_advance {s s' : TokenStream} (h : s.advance = (some t, s')) :
    s.upcoming = t :: s'.upcoming ∧ s'.restart = s.restart ∧ s'.ahead = none := by
  obtain ⟨hgives, hahead⟩ := s.advance_gives
  rw [h] at hgives hahead
  refine ⟨?_, hgives.restart, hahead⟩
  obtain ⟨ts, hts⟩ := List.head?_eq_some_iff.mp hgives.first.symm
  rw [hts, hgives.rest, hts, List.tail_cons]

theorem upcoming_of_advance_none {s s' : TokenStream} (h : s.advance = (none, s')) :
    s.upcoming = [] ∧ s'.upcoming = [] ∧ s'.restart = s.restart := by
  obtain ⟨hgives, -⟩ := s.advance_gives
  rw [h] at hgives
  have hnil := List.head?_eq_none_iff.mp hgives.first.symm
  exact ⟨hnil, by rw [hgives.rest, hnil, List.tail_nil], hgives.restart⟩

/-! ### Runs of tokens -/

theorem merge_of_restart {s s' : TokenStream} (h : s'.restart = s.restart) :
    s'.merge = s.merge := by
  have hmerge := congrArg TokenStream.merge h
  exact hmerge

/-- No token stops before it starts. -/
def Straight (ts : List Token) : Prop := ∀ t ∈ ts, t.span.start ≤ t.span.stop

theorem join_eq {u : Token} (kind : TokenKind) (h : touches t u = true)
    (ht : t.span.start ≤ t.span.stop) (hu : u.span.start ≤ u.span.stop) :
    join kind t u = ⟨kind, ⟨t.span.start, u.span.stop⟩⟩ := by
  rw [touches, beq_iff_eq] at h
  rw [join, Span.merge, Nat.min_eq_left (by omega), Nat.max_eq_right (by omega)]

/-- The neighbours that a token is extended by are the run that it begins. -/
theorem extend_fused (t : Token) (s : TokenStream) (hmerge : s.merge.contains t.kind = true)
    (hstraight : Straight (t :: s.upcoming)) :
    fused s.merge (t :: s.upcoming) = (extend t s).1 :: fused s.merge (extend t s).2.upcoming ∧
      (extend t s).2.upcoming <:+ s.upcoming ∧ (extend t s).2.restart = s.restart := by
  fun_induction extend t s with
  | case1 t s s' hadvance =>
    obtain ⟨hnil, hnil', hrestart⟩ := upcoming_of_advance_none hadvance
    rw [hnil, hnil']
    exact ⟨rfl, List.suffix_refl _, hrestart⟩
  | case2 t s u s' hadvance hjoin ih =>
    obtain ⟨hupcoming, hrestart, -⟩ := upcoming_of_advance hadvance
    have hsame := merge_of_restart hrestart
    simp only [Bool.and_eq_true, decide_eq_true_eq] at hjoin
    rw [hupcoming] at hstraight ⊢
    obtain ⟨ht, hu, hrest⟩ := by simpa only [Straight, List.forall_mem_cons] using hstraight
    have heq := join_eq t.kind hjoin.2 ht hu
    have hjoins : joins s.merge t u = true := by
      simp only [joins, hmerge, hjoin.1, beq_self_eq_true, Bool.true_and]
      exact hjoin.2
    rw [← hsame] at hmerge
    obtain ⟨hfused, hsuffix, hstart⟩ := ih hmerge <| by
      rw [Straight, List.forall_mem_cons, heq]
      have hstop := beq_iff_eq.mp hjoin.2
      exact ⟨show t.span.start ≤ u.span.stop by omega, hrest⟩
    rw [hsame] at hfused
    rw [fused_cons_cons hjoins, ← heq]
    exact ⟨hfused, hsuffix.trans (List.suffix_cons _ _), hstart.trans hrestart⟩
  | case3 t s u s' hadvance hjoin =>
    obtain ⟨hupcoming, hrestart, hahead⟩ := upcoming_of_advance hadvance
    have hback : ({ s' with ahead := some u } : TokenStream).upcoming = s.upcoming := by
      rw [hupcoming, upcoming, upcoming, hahead]
      rfl
    have happart : ∀ y ∈ s.upcoming.head?, joins s.merge t y = false := by
      rw [hupcoming]
      rintro _ ⟨⟩
      rw [joins, hmerge, Bool.true_and]
      simpa [touches] using hjoin
    rw [hback, fused_cons happart]
    exact ⟨rfl, List.suffix_refl _, hrestart⟩

/-- The next token is the next run. -/
theorem next_fused (s : TokenStream) (hstraight : Straight s.upcoming) :
    s.next.1 = (fused s.merge s.upcoming).head? ∧
      fused s.merge s.next.2.upcoming = (fused s.merge s.upcoming).tail ∧
      s.next.2.upcoming <:+ s.upcoming ∧ s.next.2.restart = s.restart := by
  rw [next]
  split
  · next s' hadvance =>
    obtain ⟨hnil, hnil', hrestart⟩ := upcoming_of_advance_none hadvance
    rw [hnil, hnil']
    exact ⟨rfl, rfl, List.suffix_refl _, hrestart⟩
  · next t s' hadvance =>
    obtain ⟨hupcoming, hrestart, -⟩ := upcoming_of_advance hadvance
    have hsame := merge_of_restart hrestart
    rw [hupcoming] at hstraight ⊢
    split
    · next hmerge =>
      obtain ⟨hfused, hsuffix, hstart⟩ := extend_fused t s' hmerge hstraight
      rw [hsame] at hfused
      rw [hfused]
      exact ⟨rfl, rfl, hsuffix.trans (List.suffix_cons _ _), hstart.trans hrestart⟩
    · next hmerge =>
      rw [hsame] at hmerge
      rw [fused_cons fun y _ => by rw [joins, Bool.eq_false_of_not_eq_true hmerge]; rfl]
      exact ⟨rfl, rfl, List.suffix_cons _ _, hrestart⟩

theorem take_fused (n : Nat) (s : TokenStream) (hstraight : Straight s.upcoming) :
    (s.take n).1 = (fused s.merge s.upcoming).take n := by
  induction n generalizing s with
  | zero => rfl
  | succ n ih =>
    obtain ⟨hfirst, hrest, hsuffix, hrestart⟩ := s.next_fused hstraight
    have hsame := merge_of_restart hrestart
    rw [take]
    split
    · next s' hnext =>
      rw [hnext] at hfirst
      rw [List.head?_eq_none_iff.mp hfirst.symm, List.take_nil]
    · next t s' hnext =>
      rw [hnext] at hfirst hrest hsuffix hsame
      obtain ⟨ts, hts⟩ := List.head?_eq_some_iff.mp hfirst.symm
      have htake := ih s' fun u hu => hstraight u (hsuffix.subset hu)
      rw [hsame, hrest, hts, List.tail_cons] at htake
      rw [hts, List.take_succ_cons, ← htake]

theorem length_paired_le (opened : List TokenKind) (ts : List Token) :
    (paired opened ts).length ≤ ts.length := by
  fun_induction paired opened ts with
  | case1 => exact Nat.le_refl _
  | case2 => exact Nat.le_refl _
  | case3 opened t u rest _ ih => simp only [List.length_cons]; omega
  | case4 opened t u rest _ ih => simp only [List.length_cons] at ih ⊢; omega

theorem length_upcoming_le (s : TokenStream) : s.upcoming.length ≤ s.bound := by
  have hpaired := length_paired_le s.opened s.scanned
  have hscanned : s.scanned.length ≤ s.stashed.toList.length + s.unscanned.length := by
    rw [scanned, List.length_append, List.length_map]
    have hle := Lexeme.length_scanAfter_le 0 s.unscanned
    rw [Lexeme.length_tile, Lexeme.scanAll]
    omega
  have hend : (if s.ended then [] else [Token.capped ⟨.endOfFile, .point s.stop⟩]).length =
      (!s.ended).toNat := by
    cases s.ended <;> rfl
  rw [upcoming, cooked, List.length_append, List.length_append, hend, bound]
  omega

/-- All that a stream gives are the runs of what is to come. -/
theorem drain_fused (s : TokenStream) (hstraight : Straight s.upcoming) :
    s.drain.1 = fused s.merge s.upcoming := by
  have hfused := length_fused_le s.merge s.upcoming
  have hbound := s.length_upcoming_le
  rw [drain, take_fused _ s hstraight, List.take_of_length_le (by omega)]

/-! ### Tokens laid end to end -/

theorem straight_capped_tile (offset : Nat) (ls : List Lexeme) :
    Straight ((Lexeme.tile offset ls).map Token.capped) := by
  intro t ht
  obtain ⟨u, hu, rfl⟩ := List.mem_map.mp ht
  have hle := Lexeme.start_le_stop_of_mem_tile hu
  show min _ _ ≤ min _ _
  omega

theorem touches_capped (offset : Nat) (l m : Lexeme) :
    touches (l.tokenAt offset).capped (m.tokenAt (offset + l.size)).capped = true :=
  beq_self_eq_true _

/-- The capped tokens of two lexemes make the capped token of the two in one. -/
theorem join_capped (offset : Nat) (kind : TokenKind) (l m : Lexeme) :
    join kind (l.tokenAt offset).capped (m.tokenAt (offset + l.size)).capped =
      (Lexeme.tokenAt offset ⟨kind, l.chars ++ m.chars⟩).capped := by
  have hstraight := straight_capped_tile offset [l, m]
  rw [join_eq kind (touches_capped offset l m) (hstraight _ (by simp [Lexeme.tile]))
    (hstraight _ (by simp [Lexeme.tile]))]
  simp only [Token.capped, Lexeme.tokenAt, Lexeme.size, Text.size_append, Nat.add_assoc]

/-- Two lexemes close a `[[` where their tokens do. -/
theorem pairs_capped (offset : Nat) (opened : List TokenKind) (l m : Lexeme) :
    ((l.tokenAt offset).capped.kind = .rightBracket && opened.head? = some .leftDoubleBracket &&
      ((m.tokenAt (offset + l.size)).capped.kind = .rightBracket &&
        touches (l.tokenAt offset).capped (m.tokenAt (offset + l.size)).capped)) =
    (l.kind = .rightBracket && m.kind = .rightBracket &&
      opened.head? = some .leftDoubleBracket) := by
  rw [touches_capped, Bool.and_true]
  exact Bool.and_right_comm _ _ _

theorem paired_tile (offset : Nat) (opened : List TokenKind) (ls : List Lexeme) :
    paired opened ((Lexeme.tile offset ls).map Token.capped) =
      (Lexeme.tile offset (Lexeme.pairBrackets opened ls)).map Token.capped := by
  fun_induction Lexeme.pairBrackets opened ls generalizing offset with
  | case1 => rfl
  | case2 => rfl
  | case3 opened l m rest hpair ih =>
    have hsize : offset + Lexeme.size ⟨.rightDoubleBracket, l.chars ++ m.chars⟩ =
        offset + l.size + m.size := by
      simp only [Lexeme.size, Text.size_append, Nat.add_assoc]
    simp only [Lexeme.tile, List.map_cons, paired]
    rw [if_pos ((pairs_capped offset opened l m).trans hpair), join_capped, hsize, ← ih]
  | case4 opened l m rest hpair ih =>
    have hrest := ih (offset + l.size)
    simp only [Lexeme.tile, List.map_cons, paired] at hrest ⊢
    rw [if_neg fun h => hpair ((pairs_capped offset opened l m).symm.trans h), ← hrest]
    rfl

theorem joins_capped (merge : TokenSet) (offset : Nat) (l m : Lexeme) :
    joins merge (l.tokenAt offset).capped (m.tokenAt (offset + l.size)).capped =
      (l.kind = m.kind && merge.contains l.kind) := by
  have htouch := touches_capped offset l m
  rw [touches] at htouch
  have hkind : (m.kind == l.kind) = decide (l.kind = m.kind) := by
    rw [beq_eq_decide, decide_eq_decide, eq_comm]
  rw [joins, htouch, Bool.and_true, Bool.and_comm, ← hkind]
  rfl

/-- Neighbours are fused as tokens where they are fused as lexemes. -/
theorem fused_tile (merge : TokenSet) (offset : Nat) (ls : List Lexeme) :
    fused merge ((Lexeme.tile offset ls).map Token.capped) =
      (Lexeme.tile offset (Lexeme.fuse merge ls)).map Token.capped := by
  induction ls generalizing offset with
  | nil => rfl
  | cons l ls ih =>
    cases ls with
    | nil => rfl
    | cons m ls =>
      have hrest := ih (offset + l.size)
      have hhead := Lexeme.map_kind_head?_fuse merge m ls
      rw [Lexeme.fuse_cons]
      cases hfuse : Lexeme.fuse merge (m :: ls) with
      | nil => rw [hfuse] at hhead; cases hhead
      | cons f fs =>
        rw [hfuse] at hrest hhead
        have hkind : f.kind = m.kind := Option.some.inj hhead
        have hjoins := joins_capped merge offset l m
        rw [← hkind] at hjoins
        simp only [Lexeme.tile, List.map_cons] at hrest ⊢
        rw [Lexeme.fuseCons]
        split
        · next hjoin =>
          obtain ⟨v, vs, hv, hprolonged⟩ := exists_fused_cons_cons (hjoins.trans hjoin)
          rw [hv] at hrest
          obtain ⟨rfl, rfl⟩ := List.cons_eq_cons.mp hrest
          rw [hprolonged]
          simp only [Lexeme.tile, List.map_cons, Lexeme.tokenAt, Lexeme.size, Text.size_append,
            Nat.add_assoc]
          rfl
        · next hjoin =>
          rw [fused_cons, hrest]
          · rfl
          · rintro _ ⟨⟩
            exact Bool.eq_false_of_not_eq_true (hjoins ▸ hjoin)

/-! ### Streams at their start -/

theorem upcoming_fresh (merge : TokenSet) (base : Nat) (cs : List Char) :
    (fresh merge base cs).upcoming = (Lexeme.place base (Lexeme.ofChars cs)).map Token.capped := by
  have hpaired := paired_tile base [] (Lexeme.scanAll cs)
  rw [Lexeme.place_eq_tile, Lexeme.flatMap_chars_ofChars, List.map_append, Lexeme.ofChars,
    ← hpaired]
  rfl

theorem straight_fresh (merge : TokenSet) (base : Nat) (cs : List Char) :
    Straight (fresh merge base cs).upcoming := by
  rw [upcoming_fresh, Lexeme.place_eq_tile, List.map_append]
  intro t ht
  rcases List.mem_append.mp ht with ht | ht
  · exact straight_capped_tile _ _ t ht
  · rw [List.mem_singleton.mp ht]
    exact Nat.le_refl _

/-- A stream gives the lexemes laid end to end, fused. -/
theorem drain_fresh (merge : TokenSet) (base : Nat) (cs : List Char) :
    (fresh merge base cs).drain.1 =
      (Lexeme.place base (Lexeme.fuse merge (Lexeme.ofChars cs))).map Token.capped := by
  rw [drain_fused _ (straight_fresh merge base cs), upcoming_fresh, Lexeme.place_eq_tile,
    Lexeme.place_eq_tile, Lexeme.flatMap_chars_fuse, List.map_append, List.map_append, fused_append,
    fused_tile]
  · rfl
  · intro t ht u hu
    obtain ⟨t, htile, rfl⟩ := List.mem_map.mp (List.mem_of_getLast? ht)
    obtain ⟨l, hl, hkind⟩ := Lexeme.kind_of_mem_tile htile
    obtain rfl := Option.some.inj hu
    have hne : (TokenKind.endOfFile == t.kind) = false := by
      rw [← hkind]
      exact beq_false_of_ne (Lexeme.kind_ne_endOfFile_of_mem_ofChars hl).symm
    show (_ && TokenKind.endOfFile == t.kind && _) = false
    rw [hne, Bool.and_false, Bool.false_and]

/-- The tokens of a text are those that a stream gives. -/
theorem drain_ofText (text : String) :
    (ofText text defaultMerge).drain.1 = (lex text).map Token.capped := by
  rw [ofText, startingAt, Text.charsFrom?_zero]
  exact drain_fresh _ _ _

/-- Wherever a stream is told to start, it starts at some characters at the end of the text. -/
theorem exists_startingAt (text : String) (offset : Nat) :
    ∃ base cs, base + Text.size cs = Text.byteLength text ∧
      ∀ merge, startingAt text offset merge = fresh merge base cs := by
  cases hchars : Text.charsFrom? offset text.toList with
  | none => exact ⟨Text.byteLength text, [], rfl, fun merge => by rw [startingAt, hchars]⟩
  | some cs =>
    refine ⟨offset, cs, ?_, fun merge => by rw [startingAt, hchars]⟩
    rw [← Text.size_toList, Text.add_size_of_charsFrom? hchars]

/-! ### Runs of calls -/

/-- A call of a stream. -/
inductive Call where
  | next
  | restart
  deriving DecidableEq, Repr

/-- The answers since a stream was last at its start, and the stream, after one more call. -/
def serve : List (Option Token) × TokenStream → Call → List (Option Token) × TokenStream
  | (answers, s), .next => (answers ++ [s.next.1], s.next.2)
  | (_, s), .restart => ([], s.restart)

/-- The answers since the stream was last at its start, after calls. -/
def answers (s : TokenStream) (calls : List Call) : List (Option Token) :=
  (calls.foldl serve ([], s)).1

/-- How many of the calls ask for a token after the last that goes back to the start. -/
def asked (calls : List Call) : Nat := (calls.reverse.takeWhile (· = .next)).length

theorem asked_next (calls : List Call) : asked (calls ++ [.next]) = asked calls + 1 := by
  rw [asked, List.reverse_append]
  rfl

theorem asked_restart (calls : List Call) : asked (calls ++ [.restart]) = 0 := by
  rw [asked, List.reverse_append]
  rfl

/-- A stream that was at the start `s` has given the first `n` of its tokens, and has the others. -/
structure Served (s : TokenStream) (n : Nat) (state : List (Option Token) × TokenStream) :
    Prop where
  answers : state.1 = (List.range n).map ((fused s.merge s.upcoming)[·]?)
  rest : fused s.merge state.2.upcoming = (fused s.merge s.upcoming).drop n
  straight : Straight state.2.upcoming
  restart : state.2.restart = s

namespace Served

variable {n : Nat} {state : List (Option Token) × TokenStream}

theorem next (h : Served s n state) (hstart : s.restart = s) :
    Served s (n + 1) (serve state .next) := by
  obtain ⟨answers, s'⟩ := state
  obtain ⟨hfirst, hrest, hsuffix, hrestart⟩ := s'.next_fused h.straight
  have hmerge : s'.merge = s.merge := merge_of_restart (h.restart.trans hstart.symm)
  rw [hmerge, h.rest] at hfirst hrest
  refine ⟨?_, ?_, fun t ht => h.straight t (hsuffix.subset ht), hrestart.trans h.restart⟩
  · rw [List.range_succ, List.map_append, ← h.answers, List.map_singleton, ← List.head?_drop,
      ← hfirst]
    rfl
  · rw [← List.tail_drop, ← hrest]
    rfl

theorem restarted (h : Served s n state) (hstraight : Straight s.upcoming) :
    Served s 0 (serve state .restart) := by
  obtain ⟨answers, s'⟩ := state
  have hserve : serve (answers, s') .restart = ([], s) := congrArg ([], ·) h.restart
  rw [hserve]
  exact ⟨rfl, rfl, hstraight, by rw [← h.restart]; rfl⟩

end Served

/-- What any calls have been answered. -/
theorem served (hstart : s.restart = s) (hstraight : Straight s.upcoming) (calls : List Call) :
    Served s (asked calls) (calls.foldl serve ([], s)) := by
  induction calls using List.reverseRecOn with
  | nil => exact ⟨rfl, rfl, hstraight, hstart⟩
  | append_singleton calls call ih =>
    rw [List.foldl_append]
    cases call with
    | next =>
      rw [asked_next]
      exact ih.next hstart
    | restart =>
      rw [asked_restart]
      exact ih.restarted hstraight

/-- Whatever calls a stream was given, since it was last at its start it has answered with the first
of the tokens that it gives without a merge set, every longest run that is fused made one.  They end
with the one end of file, and with nothing after that. -/
theorem answers_startingAt (text : String) (offset : Nat) (merge : TokenSet) (calls : List Call) :
    let tokens := fused merge (startingAt text offset .empty).drain.1
    answers (startingAt text offset merge) calls =
        (List.range (asked calls)).map (tokens[·]?) ∧
      ∃ ts, tokens = ts ++ [Token.capped ⟨.endOfFile, .point (Text.byteLength text)⟩] ∧
        ∀ t ∈ ts, t.kind ≠ .endOfFile := by
  obtain ⟨base, cs, hsize, hstart⟩ := exists_startingAt text offset
  have hplain : (fresh .empty base cs).drain.1 = (fresh merge base cs).upcoming := by
    rw [drain_fused _ (straight_fresh .empty base cs), upcoming_fresh, upcoming_fresh]
    exact fused_empty _
  intro tokens
  have htokens : tokens = fused merge (fresh merge base cs).upcoming := by
    rw [← hplain, ← hstart]
  have hdrain : tokens = (fresh merge base cs).drain.1 := by
    rw [htokens, drain_fused _ (straight_fresh merge base cs)]
    rfl
  refine ⟨?_, (Lexeme.tile base (Lexeme.fuse merge (Lexeme.ofChars cs))).map Token.capped, ?_, ?_⟩
  · rw [htokens, hstart]
    exact (served rfl (straight_fresh merge base cs) calls).answers
  · rw [hdrain, drain_fresh, Lexeme.place_eq_tile, Lexeme.flatMap_chars_fuse,
      Lexeme.flatMap_chars_ofChars, hsize, List.map_append]
    rfl
  · intro t ht
    obtain ⟨u, hu, rfl⟩ := List.mem_map.mp ht
    obtain ⟨l, hl, hkind⟩ := Lexeme.kind_of_mem_tile hu
    rw [Token.capped, ← hkind]
    exact Lexeme.forall_mem_fuse (P := (·.kind ≠ .endOfFile)) (fun _ _ hl _ => hl)
      (fun _ => Lexeme.kind_ne_endOfFile_of_mem_ofChars) l hl

end TokenStream

end RSource
