import RSource.Proofs.Lexeme.Replaced
import RSource.Proofs.Lexeme.Spaced

/-! Lexemes that are joined.  Two `]` become one and white space is fused, but a name or a string
stays what it is.  So the lexemes of a text are known from those it is cut into, and back
(`split_joined`). -/

namespace RSource.Lexeme

variable {l m : Lexeme} {ls ms before after : List Lexeme} {s : TokenSet}

/-! ### Brackets -/

theorem pairBrackets_cons_of_ne (opened : List TokenKind) (hl : l.kind ≠ .rightBracket)
    (ls : List Lexeme) :
    pairBrackets opened (l :: ls) = l :: pairBrackets (track opened l.kind) ls := by
  cases ls with
  | nil => rfl
  | cons m ls => rw [pairBrackets, if_neg (by simp [hl])]

/-- A lexeme that is no bracket stands among others before and after they are paired. -/
theorem split_pairBrackets (opened : List TokenKind)
    (h : pairBrackets opened ms = before ++ l :: after) (hl : l.kind ≠ .rightBracket)
    (hdouble : l.kind ≠ .rightDoubleBracket) :
    ∃ xs ys, ms = xs ++ l :: ys ∧ xs.flatMap Lexeme.chars = before.flatMap Lexeme.chars ∧
      ∀ l' : Lexeme, l'.kind = l.kind → pairBrackets opened (xs ++ l' :: ys) =
        before ++ l' :: after := by
  fun_induction pairBrackets opened ms generalizing before with
  | case1 => simp at h
  | case2 opened m =>
    cases before with
    | cons b before => simp at h
    | nil =>
      obtain ⟨rfl, rfl⟩ := List.cons.inj h
      exact ⟨[], [], rfl, rfl, fun _ _ => rfl⟩
  | case3 opened m n rest hpair ih =>
    cases before with
    | nil =>
      obtain ⟨rfl, -⟩ := List.cons.inj h
      exact absurd rfl hdouble
    | cons b before =>
      obtain ⟨rfl, hrest⟩ := List.cons.inj h
      obtain ⟨xs, ys, rfl, hchars, hreplace⟩ := ih hrest
      refine ⟨m :: n :: xs, ys, rfl, by simp [hchars], fun l' hl' => ?_⟩
      rw [List.cons_append, List.cons_append, pairBrackets, if_pos hpair, hreplace l' hl']
      rfl
  | case4 opened m n rest hpair ih =>
    cases before with
    | nil =>
      obtain ⟨rfl, rfl⟩ := List.cons.inj h
      refine ⟨[], n :: rest, rfl, rfl, fun l' hl' => ?_⟩
      rw [List.nil_append, pairBrackets_cons_of_ne opened (hl'.trans_ne hl), hl']
      rfl
    | cons b before =>
      obtain ⟨rfl, hrest⟩ := List.cons.inj h
      obtain ⟨xs, ys, hsplit, hchars, hreplace⟩ := ih hrest
      refine ⟨m :: xs, ys, by rw [hsplit]; rfl, by simp [hchars], fun l' hl' => ?_⟩
      cases xs with
      | nil =>
        have hnext := hreplace l' hl'
        rw [List.nil_append] at hnext
        rw [List.singleton_append, pairBrackets, if_neg (by simp [hl', hl]), hnext]
        rfl
      | cons x xs =>
        obtain ⟨rfl, rfl⟩ := List.cons.inj hsplit
        have hnext := hreplace l' hl'
        rw [List.cons_append] at hnext
        rw [List.cons_append, List.cons_append, pairBrackets, if_neg hpair, hnext]
        rfl

/-! ### White space -/

theorem fuse_cons (s : TokenSet) (l : Lexeme) (ls : List Lexeme) :
    fuse s (l :: ls) = fuseCons s l (fuse s ls) := rfl

theorem fuseCons_of_not_mem (h : s.contains l.kind = false) (ls : List Lexeme) :
    fuseCons s l ls = l :: ls := by
  cases ls with
  | nil => rfl
  | cons m ls => rw [fuseCons, if_neg (by simp [h])]

/-- White space before a lexeme is fused with other white space only. -/
theorem fuseCons_append_cons (hl : s.contains l.kind = false) (m : Lexeme)
    (before after : List Lexeme) :
    fuseCons s m (before ++ l :: after) = fuseCons s m before ++ l :: after := by
  cases before with
  | nil =>
    by_cases hm : m.kind = l.kind
    · rw [fuseCons_of_not_mem (hm ▸ hl), fuseCons_of_not_mem (hm ▸ hl)]
      rfl
    · exact fuseCons_of_ne hm after
  | cons b before =>
    rw [List.cons_append, fuseCons, fuseCons]
    split
    · rfl
    · rfl

theorem fuse_append_cons (hl : s.contains l.kind = false) (xs ys : List Lexeme) :
    fuse s (xs ++ l :: ys) = fuse s xs ++ l :: fuse s ys := by
  induction xs with
  | nil => rw [List.nil_append, fuse_cons, fuseCons_of_not_mem hl]; rfl
  | cons x xs ih => rw [List.cons_append, fuse_cons, ih, fuseCons_append_cons hl, fuse_cons]

theorem split_fuseCons (h : fuseCons s m ms = before ++ l :: after)
    (hl : s.contains l.kind = false) :
    (m = l ∧ before = [] ∧ after = ms) ∨
      ∃ xs, ms = xs ++ l :: after ∧ fuseCons s m xs = before := by
  cases ms with
  | nil =>
    cases before with
    | nil =>
      obtain ⟨rfl, rfl⟩ := List.cons.inj h
      exact .inl ⟨rfl, rfl, rfl⟩
    | cons b before => simp [fuseCons] at h
  | cons n ms =>
    suffices hrest : (m = l ∧ before = [] ∧ after = n :: ms) ∨
        ∃ xs, n :: ms = xs ++ l :: after by
      rcases hrest with hfirst | ⟨xs, hxs⟩
      · exact .inl hfirst
      · rw [hxs, fuseCons_append_cons hl] at h
        exact .inr ⟨xs, hxs, List.append_cancel_right h⟩
    rw [fuseCons] at h
    split at h
    · next hfuse =>
      cases before with
      | nil =>
        obtain ⟨rfl, -⟩ := List.cons.inj h
        simp only [Bool.and_eq_true] at hfuse
        rw [hl] at hfuse
        cases hfuse.2
      | cons b before => exact .inr ⟨n :: before, by rw [(List.cons.inj h).2]; rfl⟩
    · cases before with
      | nil =>
        obtain ⟨rfl, rfl⟩ := List.cons.inj h
        exact .inl ⟨rfl, rfl, rfl⟩
      | cons b before => exact .inr ⟨before, (List.cons.inj h).2⟩

theorem split_fuse (hl : s.contains l.kind = false) : ∀ (ms : List Lexeme) {before : List Lexeme},
    fuse s ms = before ++ l :: after →
    ∃ xs ys, ms = xs ++ l :: ys ∧ fuse s xs = before ∧ fuse s ys = after
  | [], before, h => by simp [fuse] at h
  | m :: ms, before, h => by
    rw [fuse_cons] at h
    rcases split_fuseCons h hl with ⟨rfl, rfl, rfl⟩ | ⟨xs, hxs, rfl⟩
    · exact ⟨[], ms, rfl, rfl, rfl⟩
    · obtain ⟨ys, zs, rfl, rfl, rfl⟩ := split_fuse hl ms hxs
      exact ⟨m :: ys, zs, rfl, rfl, rfl⟩

/-! ### Kinds -/

theorem map_kind_head?_pairBrackets (opened : List TokenKind) (m : Lexeme) (ms : List Lexeme) :
    m.kind = .rightBracket ∨
      ((pairBrackets opened (m :: ms)).map Lexeme.kind).head? = some m.kind := by
  cases ms with
  | nil => exact .inr rfl
  | cons n ms =>
    rw [pairBrackets]
    split
    · next hpair =>
      simp only [Bool.and_eq_true, decide_eq_true_eq] at hpair
      exact .inl hpair.1.1
    · exact .inr rfl

variable {R : TokenKind → TokenKind → Prop}

/-- What holds of neighbours after brackets are paired holds of them before, if it holds of `]` and
anything. -/
theorem isChain_of_pairBrackets (hleft : ∀ k, R .rightBracket k) (hright : ∀ k, R k .rightBracket)
    (opened : List TokenKind) (ms : List Lexeme)
    (h : ((pairBrackets opened ms).map Lexeme.kind).IsChain R) : (ms.map Lexeme.kind).IsChain R := by
  fun_induction pairBrackets opened ms with
  | case1 => exact .nil
  | case2 opened m => exact .singleton m.kind
  | case3 opened m n rest hpair ih =>
    simp only [Bool.and_eq_true, decide_eq_true_eq] at hpair
    have hrest := ih h.tail
    simp only [List.map_cons, hpair.1.1, hpair.1.2]
    refine List.isChain_cons_cons.mpr ⟨hleft _, List.isChain_cons.mpr ⟨fun k _ => hleft k, hrest⟩⟩
  | case4 opened m n rest hpair ih =>
    have hrest := ih h.tail
    refine List.isChain_cons_cons.mpr ⟨?_, hrest⟩
    rcases map_kind_head?_pairBrackets (track opened m.kind) n rest with hbracket | hhead
    · exact hbracket ▸ hright _
    · exact (List.isChain_cons.mp h).1 _ hhead

theorem map_kind_head?_fuse (s : TokenSet) (m : Lexeme) (ms : List Lexeme) :
    ((fuse s (m :: ms)).map Lexeme.kind).head? = some m.kind := by
  rw [fuse_cons]
  cases fuse s ms with
  | nil => rfl
  | cons n rest =>
    rw [fuseCons]
    split
    · rfl
    · rfl

theorem isChain_of_fuse (hleft : ∀ j k, s.contains j = true → R j k) (ms : List Lexeme)
    (h : ((fuse s ms).map Lexeme.kind).IsChain R) : (ms.map Lexeme.kind).IsChain R := by
  induction ms with
  | nil => exact .nil
  | cons m ms ih =>
    rw [fuse_cons] at h
    cases ms with
    | nil => exact .singleton _
    | cons n ms =>
      have hhead := map_kind_head?_fuse s n ms
      cases hrest : fuse s (n :: ms) with
      | nil => simp [hrest] at hhead
      | cons x rest =>
        rw [hrest] at h hhead ih
        have hx : x.kind = n.kind := Option.some.inj hhead
        rw [fuseCons] at h
        split at h
        · next hfuse =>
          simp only [Bool.and_eq_true, decide_eq_true_eq] at hfuse
          have hchain : (List.map Lexeme.kind (x :: rest)).IsChain R := by
            rw [List.map_cons, ← hfuse.1]
            exact h
          exact List.isChain_cons_cons.mpr ⟨hleft _ _ hfuse.2, ih hchain⟩
        · exact List.isChain_cons_cons.mpr ⟨hx ▸ (List.isChain_cons_cons.mp h).1, ih h.tail⟩

theorem mem_map_kind_pairBrackets {k : TokenKind} (hk : k ≠ .rightBracket)
    (opened : List TokenKind) (ms : List Lexeme) (h : k ∈ ms.map Lexeme.kind) :
    k ∈ (pairBrackets opened ms).map Lexeme.kind := by
  fun_induction pairBrackets opened ms with
  | case1 => exact h
  | case2 => exact h
  | case3 opened m n rest hpair ih =>
    simp only [Bool.and_eq_true, decide_eq_true_eq] at hpair
    simp only [List.map_cons, List.mem_cons, hpair.1.1, hpair.1.2] at h ⊢
    exact .inr (ih ((h.resolve_left hk).resolve_left hk))
  | case4 opened m n rest hpair ih =>
    rw [List.map_cons, List.mem_cons] at h ⊢
    exact h.imp_right ih

theorem mem_map_kind_fuse {k : TokenKind} (ms : List Lexeme) (h : k ∈ ms.map Lexeme.kind) :
    k ∈ (fuse s ms).map Lexeme.kind := by
  induction ms with
  | nil => exact h
  | cons m ms ih =>
    have hcons : ∀ rest : List Lexeme, k = m.kind ∨ k ∈ rest.map Lexeme.kind →
        k ∈ (fuseCons s m rest).map Lexeme.kind := by
      intro rest hk
      cases rest with
      | nil => simpa [fuseCons] using hk
      | cons n rest =>
        rw [fuseCons]
        split
        · next hfuse =>
          simp only [Bool.and_eq_true, decide_eq_true_eq] at hfuse
          simp only [List.map_cons, List.mem_cons, ← hfuse.1] at hk ⊢
          tauto
        · simpa using hk
    rw [List.map_cons, List.mem_cons] at h
    exact hcons _ (h.imp_right ih)

/-! ### The lexemes of a text -/

theorem sound_of_ofText {text : String} (h : Sound (ofText text)) : Sound (scanAll text.toList) := by
  intro m hm hbroken
  have hne : m.kind ≠ .rightBracket := by
    intro hkind
    rw [hkind] at hbroken
    exact absurd hbroken (by decide)
  obtain ⟨l, hl, hkind⟩ := List.mem_map.mp (mem_map_kind_fuse (s := TokenStream.defaultMerge) _
    (mem_map_kind_pairBrackets hne [] _ (List.mem_map_of_mem hm)))
  exact h l hl (hkind ▸ hbroken)

theorem apart_of_ofText {text : String} (h : Apart (ofText text)) :
    Apart (scanAll text.toList) := by
  have hbracket : TokenKind.rightBracket ∉ openEnded ∧ TokenKind.rightBracket ∉ wordLike := by
    decide
  refine isChain_of_pairBrackets (fun k hk => absurd hk hbracket.1) (fun k _ => hbracket.2) [] _
    (isChain_of_fuse (s := TokenStream.defaultMerge) (fun j k hj hopen => ?_) _ h)
  obtain rfl : j = .whitespace := TokenSet.contains_single.mp hj
  exact absurd hopen (by decide)

/-- Another spelling of a name or string, in whatever text the first one is read. -/
structure Respells (l : Lexeme) (new : List Char) : Prop where
  kind : l.kind = .identifier ∨ l.kind = .string
  spells : ∀ ⦃post ls⦄, scanAll (l.chars ++ post) = l :: ls → Sound (l :: ls) → Apart (l :: ls) →
    Respelled l new post ls

theorem scanAll_suffix : ∀ {ms : List Lexeme} {rest : List Char},
    scanAll (textThen ms rest) = ms ++ ls → scanAll rest = ls
  | [], _, h => h
  | m :: ms, rest, h => by
    rw [textThen_cons] at h
    obtain ⟨_, _, -, -, hrest⟩ := scanAll_append_cons h
    exact scanAll_suffix hrest

/-- Another spelling changes the one lexeme of the text and no other. -/
theorem ofText_respelled {text : String} {new : List Char} (h : ofText text = before ++ l :: after)
    (hsound : Sound (ofText text)) (hapart : Apart (ofText text)) (hnew : Respells l new) :
    ofText (String.ofList (before.flatMap Lexeme.chars ++ new ++ after.flatMap Lexeme.chars)) =
      before ++ ⟨l.kind, new⟩ :: after := by
  have hmerge : TokenStream.defaultMerge.contains l.kind = false := by
    rcases hnew.kind with hkind | hkind
    · rw [hkind]; decide
    · rw [hkind]; decide
  have hbracket : l.kind ≠ .rightBracket ∧ l.kind ≠ .rightDoubleBracket := by
    rcases hnew.kind with hkind | hkind
    · rw [hkind]; decide
    · rw [hkind]; decide
  have hchars := flatMap_chars_ofText text
  have hcut := h
  rw [ofText, ofChars] at hcut
  obtain ⟨ps, qs, hpair, rfl, rfl⟩ := split_fuse hmerge _ hcut
  obtain ⟨xs, ys, hscan, hxs, hreplace⟩ := split_pairBrackets [] hpair hbracket.1 hbracket.2
  rw [h, List.flatMap_append, List.flatMap_cons, flatMap_chars_fuse, flatMap_chars_fuse] at hchars
  rw [flatMap_chars_fuse, flatMap_chars_fuse, ← hxs]
  rw [← hxs] at hchars
  have hys : ys.flatMap Lexeme.chars = qs.flatMap Lexeme.chars := by
    have hall := flatMap_chars_scanAll text.toList
    rw [hscan, List.flatMap_append, List.flatMap_cons, ← hchars] at hall
    exact List.append_cancel_left (List.append_cancel_left hall)
  rw [← hys] at hchars ⊢
  have hsound' := sound_of_ofText hsound
  have hapart' := apart_of_ofText hapart
  rw [hscan] at hsound' hapart'
  rw [← hchars] at hscan
  have hls : scanAll (l.chars ++ ys.flatMap Lexeme.chars) = l :: ys := scanAll_suffix hscan
  have hlast : Apart (l :: ys) := by
    rw [Apart, List.map_append] at hapart'
    exact hapart'.right_of_append
  have hrespelled : Respelled l new (ys.flatMap Lexeme.chars) ys :=
    hnew.spells hls (fun x hx => hsound' x (List.mem_append_right _ hx)) hlast
  have hdone := hrespelled.scanAll_eq xs hscan hsound' hapart'
  rw [ofText, ofChars, String.toList_ofList, List.append_assoc]
  rw [textThen] at hdone
  rw [hdone, hreplace ⟨l.kind, new⟩ rfl, fuse_append_cons (l := ⟨l.kind, new⟩) hmerge]

end RSource.Lexeme
