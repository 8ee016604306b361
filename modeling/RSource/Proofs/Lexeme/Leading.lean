import RSource.Proofs.Lexeme.Joined
import RSource.Proofs.Lexeme.Spaced

/-! White space, comments and line ends at the start of a text.  They are lexemes of their own
whatever comes behind them, as long as no further white space does. -/

namespace RSource.Lexeme

variable {c : Char} {cs w rest : List Char} {l : Lexeme} {ls ms : List Lexeme}

/-! ### Scanning -/

/-- White space is one lexeme; only a carriage return on its own is none before a line feed. -/
theorem scanAll_space (hw : ∀ c ∈ w, isSpace c) (hrest : Stops isSpace rest)
    (hreturn : w = ['\r'] → rest.head? ≠ some '\n') :
    scanAll (w ++ rest) = nonempty .whitespace w ++ scanAll rest := by
  cases w with
  | nil => rfl
  | cons c w =>
    obtain ⟨hc, hmore⟩ := List.forall_mem_cons.mp hw
    have hnext : ¬ (c = '\r' ∧ (w ++ rest).head? = some '\n') := by
      rintro ⟨rfl, hhead⟩
      cases w with
      | nil => exact hreturn rfl hhead
      | cons d w =>
        obtain rfl : d = '\n' := Option.some.inj hhead
        exact absurd (hmore '\n' List.mem_cons_self) (by decide)
    have hlength := runLength_append_of_stops hrest hmore
    have hscan : scan c (w ++ rest) = (.whitespace, w.length) := by
      rw [scan_eq, start_of_isSpace hc, Start.scan, hlength]
      exact if_neg (by simpa using hnext)
    rw [List.cons_append, scanAll_cons, hscan]
    simp [nonempty]

theorem scanAll_newline (rest : List Char) :
    scanAll ('\n' :: rest) = ⟨.newline, ['\n']⟩ :: scanAll rest := by
  rw [scanAll_cons]
  rfl

theorem scanAll_returned (rest : List Char) :
    scanAll ('\r' :: '\n' :: rest) = ⟨.newline, ['\r', '\n']⟩ :: scanAll rest := by
  rw [scanAll_cons]
  rfl

/-- A comment goes up to the end of its line. -/
theorem scanAll_comment (hw : '\n' ∉ w) (rest : List Char) :
    scanAll ('#' :: (w ++ '\n' :: rest)) = ⟨.comment, '#' :: w⟩ :: scanAll ('\n' :: rest) := by
  have hstops : Stops (· ≠ '\n') ('\n' :: rest) := stops_cons (by decide)
  have hlength := runLength_append_of_stops hstops fun c hc =>
    decide_eq_true fun heq : c = '\n' => hw (heq ▸ hc)
  have hscan : scan '#' (w ++ '\n' :: rest) = (.comment, w.length) := by
    rw [← hlength]
    rfl
  rw [scanAll_cons, hscan, List.take_left, List.drop_left]

/-! ### Joining -/

/-- The lexemes of scanned ones, with brackets joined and neighbours fused. -/
def finish (ls : List Lexeme) : List Lexeme := fuse TokenStream.defaultMerge (pairBrackets [] ls)

theorem ofText_eq_finish (cs : List Char) : ofText (String.ofList cs) = finish (scanAll cs) := by
  rw [ofText, String.toList_ofList]
  rfl

theorem track_of_isLayout {k : TokenKind} (h : k.isLayout = true) (opened : List TokenKind) :
    track opened k = opened := by
  cases k <;> first | rfl | cases h

theorem pairBrackets_layout (h : l.kind.isLayout = true) (opened : List TokenKind) :
    pairBrackets opened (l :: ls) = l :: pairBrackets opened ls := by
  have hne : l.kind ≠ .rightBracket := by
    intro hkind
    rw [hkind] at h
    cases h
  rw [pairBrackets_cons_of_ne opened hne, track_of_isLayout h]

theorem nonempty_cases (k : TokenKind) (w : List Char) :
    nonempty k w = [] ∨ nonempty k w = [⟨k, w⟩] := by
  cases w with
  | nil => exact .inl rfl
  | cons c w => exact .inr rfl

/-- White space stays apart from what is none. -/
theorem finish_space (w : List Char) (h : ∀ m ∈ (finish ls).head?, m.kind ≠ .whitespace) :
    finish (nonempty .whitespace w ++ ls) = nonempty .whitespace w ++ finish ls := by
  rcases nonempty_cases .whitespace w with hnil | hone
  · rw [hnil]
    rfl
  · rw [hone, List.singleton_append, finish, pairBrackets_layout rfl, fuse_cons]
    rw [finish] at h ⊢
    cases hrest : fuse TokenStream.defaultMerge (pairBrackets [] ls) with
    | nil => rfl
    | cons m ms =>
      rw [hrest] at h
      exact fuseCons_of_ne (h m rfl).symm ms

/-- A comment or a line end stays as it is. -/
theorem finish_layout (h : l.kind.isLayout = true) (hspace : l.kind ≠ .whitespace) :
    finish (l :: ls) = l :: finish ls := by
  have hmerge : TokenStream.defaultMerge.contains l.kind = false :=
    Bool.eq_false_iff.mpr fun hcontains => hspace (TokenSet.contains_single.mp hcontains)
  rw [finish, pairBrackets_layout h, fuse_cons, fuseCons_of_not_mem hmerge]
  rfl

@[simp] theorem finish_comment (w : List Char) (ls : List Lexeme) :
    finish (⟨.comment, w⟩ :: ls) = ⟨.comment, w⟩ :: finish ls :=
  finish_layout rfl (by simp)

@[simp] theorem finish_newline (w : List Char) (ls : List Lexeme) :
    finish (⟨.newline, w⟩ :: ls) = ⟨.newline, w⟩ :: finish ls :=
  finish_layout rfl (by simp)

/-! ### Code behind layout -/

theorem map_kind_tile (offset : Nat) (ls : List Lexeme) :
    (tile offset ls).map Token.kind = ls.map Lexeme.kind := by
  have hplace := map_kind_place offset ls
  rw [place_eq_tile, List.map_append] at hplace
  exact List.append_cancel_right hplace

/-- The characters begin with one that begins no layout. -/
def Visible (cs : List Char) : Prop :=
  ∃ c w, cs = c :: w ∧ Start.of c ∉ [Start.lineEnd, .space, .comment]

instance (cs : List Char) : Decidable (Visible cs) :=
  match cs with
  | [] => isFalse fun ⟨_, _, h, _⟩ => nomatch h
  | c :: w => decidable_of_iff (Start.of c ∉ [Start.lineEnd, .space, .comment])
      ⟨fun h => ⟨c, w, rfl, h⟩, fun ⟨_, _, h, hc⟩ => (List.cons.inj h).1 ▸ hc⟩

theorem Visible.stops (h : Visible cs) : Stops isSpace cs := by
  obtain ⟨c, w, rfl, hc⟩ := h
  refine stops_cons ?_
  by_contra hspace
  rw [start_of_isSpace (by simpa using hspace)] at hc
  exact hc (by decide)

theorem Visible.head?_ne (h : Visible cs) : cs.head? ≠ some '\n' := by
  obtain ⟨c, w, rfl, hc⟩ := h
  intro hhead
  obtain rfl : c = '\n' := Option.some.inj hhead
  exact hc (by decide)

/-- The first lexeme of what begins with no layout is none. -/
theorem Visible.exists_finish (h : Visible cs) :
    ∃ l ls, finish (scanAll cs) = l :: ls ∧ l.kind.isLayout = false := by
  obtain ⟨c, w, rfl, hc⟩ := h
  have hkinds : ∀ start ∉ [Start.lineEnd, .space, .comment], ∀ k ∈ start.kinds,
      k.isLayout = false := by
    intro start
    cases start <;> decide
  obtain ⟨m, ms, hscan, hm⟩ : ∃ m ms, scanAll (c :: w) = m :: ms ∧ m.kind.isLayout = false :=
    ⟨_, _, scanAll_cons c w, hkinds _ hc _ (scan_kind c w)⟩
  -- No bracket is open yet, so that the first lexeme is not half of a closing one.
  obtain ⟨ns, hpaired⟩ : ∃ ns, pairBrackets [] (m :: ms) = m :: ns := by
    cases ms with
    | nil => exact ⟨[], rfl⟩
    | cons n ms => exact ⟨_, by rw [pairBrackets, List.head?_nil]; exact if_neg (by simp)⟩
  have hhead := map_kind_head?_fuse TokenStream.defaultMerge m ns
  rw [finish, hscan, hpaired]
  cases hfused : fuse TokenStream.defaultMerge (m :: ns) with
  | nil => rw [hfused] at hhead; cases hhead
  | cons l ls =>
    rw [hfused] at hhead
    exact ⟨l, ls, rfl, Option.some.inj hhead ▸ hm⟩

end RSource.Lexeme
