import Mathlib.Data.List.Chain
import RSource.Proofs.Lexeme.Seam
import RSource.Proofs.Lexeme.Tiling

/-! One lexeme in place of another.  Where no name and no number is directly followed by a word, the
lexemes before and after a name or a string do not depend on how it is spelled. -/

namespace RSource.Lexeme

variable {c x y : Char} {w r r' rest rest' old new post : List Char} {k : TokenKind}
variable {l : Lexeme} {ls ms : List Lexeme}

/-- Every lexeme has its end. -/
def Sound (ls : List Lexeme) : Prop := ∀ l ∈ ls, l.kind ∉ broken

/-- No name and no number is directly followed by a word. -/
def Apart (ls : List Lexeme) : Prop :=
  (ls.map Lexeme.kind).IsChain fun j k => j ∈ openEnded → k ∉ wordLike

theorem begun_of_sound (h : Sound (scanAll rest)) : Begun rest := by
  rintro x xs rfl
  rw [scanAll_cons] at h
  exact h _ List.mem_cons_self

/-! ### First characters -/

/-- What names and strings begin with. -/
def nameStarts : List Start := [.letter, .point, .tick, .string]

theorem prolongsSymbol_eq_false (h : Start.of x ∈ nameStarts) : prolongsSymbol x = false := by
  have htails : (symbols.all fun entry =>
      entry.1.toList.tail.all fun y => !nameStarts.contains (Start.of y)) = true := by decide
  simp only [List.all_eq_true, Bool.not_eq_true', List.contains_eq_mem,
    decide_eq_false_iff_not] at htails
  cases hx : prolongsSymbol x with
  | false => rfl
  | true =>
    obtain ⟨entry, hentry, hmem⟩ := List.any_eq_true.mp hx
    exact absurd h (htails entry hentry x (by simpa using hmem))

/-- Two first characters that are the same to a lexeme before them. -/
structure Alike (x y : Char) : Prop where
  first : Start.of x ∈ nameStarts
  second : Start.of y ∈ nameStarts
  same : x = y ∨ isNameChar x = true

theorem Alike.prolongs (h : Alike x y) {start : Start} (hstart : start ≠ .symbol)
    (hx : start.prolongs c w x = false) : start.prolongs c w y = false := by
  rcases h.same with rfl | hname
  · exact hx
  have hword : prolongsWord x = true := by simp [prolongsWord, hname]
  cases start with
  | lineEnd => rfl
  | string => rfl
  | tick => rfl
  | percent => rfl
  | symbol => exact absurd rfl hstart
  | comment =>
    obtain rfl : x = '\n' := by simpa [Start.prolongs] using hx
    exact absurd hname (by decide)
  | digit =>
    rw [Start.prolongs, hname] at hx
    cases hx
  | point =>
    rw [Start.prolongs, hword] at hx
    cases hx
  | letter =>
    have hraw : w.head?.any isQuote = true := by simpa [Start.prolongs, hword] using hx
    simp [Start.prolongs, hraw]
  | space =>
    have hspace : isSpace y = false := by
      cases hy : isSpace y with
      | false => rfl
      | true =>
        have hsecond := h.second
        rw [start_of_isSpace hy] at hsecond
        exact absurd hsecond (by decide)
    have hline : y ≠ '\n' := by
      rintro rfl
      exact absurd h.second (by decide)
    simp [Start.prolongs, hspace, hline]

/-- Texts that begin alike. -/
def AlikeHeads (r r' : List Char) : Prop :=
  r.head? = r'.head? ∨ ∃ x ∈ r.head?, ∃ y ∈ r'.head?, Alike x y

theorem AlikeHeads.stops {p : Char → Bool} (h : AlikeHeads r r')
    (hp : ∀ x y, Alike x y → p x = false → p y = false) (hr : Stops p r) : Stops p r' := by
  intro y hy
  rcases h with hsame | ⟨x, hx, y', hy', halike⟩
  · exact hr y (hsame ▸ hy)
  · obtain rfl : y' = y := Option.some.inj (hy'.symm.trans hy)
    exact hp x y' halike (hr x hx)

theorem AlikeHeads.stops_word (h : AlikeHeads r r') (hr : Stops prolongsWord r) :
    Stops prolongsWord r' := by
  refine h.stops (fun x y halike hx => ?_) hr
  rcases halike.same with rfl | hname
  · exact hx
  · simp [prolongsWord, hname] at hx

/-! ### The lexeme before -/

/-- A number is cut in the same way whatever comes after the word that follows it. -/
theorem scan_number_append {start : Start} {v : List Char} (hstart : start = .digit ∨ start = .point)
    (hv : 2 ≤ v.length) (hr : Stops prolongsWord r) (hr' : Stops prolongsWord r')
    (h : start.scan c (w ++ (v ++ r)) = (k, w.length)) :
    start.scan c (w ++ (v ++ r')) = (k, w.length) := by
  have hlength : (w ++ v).length = w.length + v.length := List.length_append
  have hlong : ∀ {n m : Nat}, m = w.length → Settled n m (w ++ v).length := fun hm =>
    .inr (by omega)
  have hshort : ∀ {n m : Nat}, n = w.length → Settled n m (w ++ v).length := fun hn =>
    .inl (by omega)
  have hname : ∀ {r : List Char}, Stops prolongsWord r → Stops isNameChar r := fun hr =>
    hr.of_imp fun x hx => by simp [prolongsWord, hx]
  rw [← List.append_assoc] at h ⊢
  rcases hstart with rfl | rfl
  · rw [Start.scan] at h ⊢
    rw [scanNumber_append (hname hr) c (hlong (congrArg Prod.snd h))] at h
    rwa [scanNumber_append (hname hr') c (hshort (congrArg Prod.snd h))]
  · rw [Start.scan] at h ⊢
    rw [scanPoint_append hr (hlong (congrArg Prod.snd h))] at h
    rwa [scanPoint_append hr' (hshort (congrArg Prod.snd h))]

/-- What a lexeme needs of two texts after it to be cut in the same way before both. -/
structure SameSeam (k : TokenKind) (r r' : List Char) : Prop where
  begun : Begun r
  heads : AlikeHeads r r'
  symbol : ∃ mid s s', r = mid ++ s ∧ r' = mid ++ s' ∧
    Stops prolongsSymbol s ∧ Stops prolongsSymbol s'
  number : k ∈ numbers → (∃ x ∈ r.head?, isNameChar x = true) →
    ∃ v s s', 2 ≤ v.length ∧ r = v ++ s ∧ r' = v ++ s' ∧
      Stops prolongsWord s ∧ Stops prolongsWord s'

theorem scan_eq_of_sameSeam (hk : k ∉ broken) (h : SameSeam k r r')
    (hscan : scan c (w ++ r) = (k, w.length)) : scan c (w ++ r') = (k, w.length) := by
  by_cases hsymbol : Start.of c = .symbol
  · obtain ⟨mid, s, s', rfl, rfl, hs, hs'⟩ := h.symbol
    rw [scan_eq, hsymbol, Start.scan, ← List.append_assoc] at hscan ⊢
    rw [scanSymbol_append hs] at hscan
    rwa [scanSymbol_append hs']
  have hstops : Stops (Start.prolongs c w · (.of c)) r → scan c (w ++ r') = (k, w.length) := by
    intro hr
    have hr' : Stops (Start.prolongs c w · (.of c)) r' :=
      h.heads.stops (fun _ _ halike hx => halike.prolongs hsymbol hx) hr
    exact (scan_append_iff hk hr').mpr ((scan_append_iff hk hr).mp hscan)
  by_cases hnumber : (Start.of c).IsNumber k
  · by_cases hname : ∃ x ∈ r.head?, isNameChar x = true
    · obtain ⟨v, s, s', hv, rfl, rfl, hs, hs'⟩ := h.number hnumber.2 hname
      rw [scan_eq] at hscan ⊢
      exact scan_number_append hnumber.1 hv hs hs' hscan
    · have hr : Stops isNameChar r := by
        intro x hx
        cases hchar : isNameChar x with
        | false => rfl
        | true => exact absurd ⟨x, hx, hchar⟩ hname
      apply hstops
      rcases hnumber.1 with hstart | hstart
      · rw [hstart]
        exact hr
      · rw [hstart]
        exact h.begun.stops hr
  · rw [scan_eq] at hscan
    exact hstops (Start.stops h.begun _ hsymbol hnumber hscan)

/-! ### All lexemes before -/

/-- The characters of lexemes and others after them. -/
def textThen (ms : List Lexeme) (rest : List Char) : List Char :=
  ms.flatMap Lexeme.chars ++ rest

theorem textThen_cons (m : Lexeme) (ms : List Lexeme) (rest : List Char) :
    textThen (m :: ms) rest = m.chars ++ textThen ms rest := by
  simp [textThen]

/-- The first lexeme of a text that is known to begin with it. -/
theorem scanAll_append_cons {m : Lexeme} (h : scanAll (m.chars ++ rest) = m :: ms) :
    ∃ c w, m.chars = c :: w ∧ scan c (w ++ rest) = (m.kind, w.length) ∧ scanAll rest = ms := by
  obtain ⟨c, w, rest', hchars, hcs, hscan, hrest⟩ := scanAll_eq_cons_iff.mp h
  obtain rfl : rest = rest' := by
    rw [hchars, List.cons_append] at hcs
    exact List.append_cancel_left (List.cons.inj hcs).2
  exact ⟨c, w, hchars, hscan, hrest⟩

/-- A name or string in a text, and another spelling of it that leaves what comes after alone. -/
structure Respelled (l : Lexeme) (new post : List Char) (ls : List Lexeme) : Prop where
  kind : l.kind ∈ wordLike
  heads : ∃ x ∈ l.chars.head?, ∃ y ∈ new.head?, Alike x y
  after : scanAll (new ++ post) = ⟨l.kind, new⟩ :: ls

theorem mem_head?_append {α : Type} {a : α} {xs : List α} (h : a ∈ xs.head?) (ys : List α) :
    a ∈ (xs ++ ys).head? := by
  rw [List.head?_append, Option.mem_def.mp h]
  rfl

theorem stops_append_of_head? {p : Char → Bool} (hx : x ∈ r.head?) (hp : p x = false)
    (rest : List Char) : Stops p (r ++ rest) := by
  intro y hy
  obtain rfl : x = y := Option.some.inj ((mem_head?_append hx rest).symm.trans hy)
  exact hp

theorem Respelled.alikeHeads (h : Respelled l new post ls)
    (hms : scanAll (textThen ms (l.chars ++ post)) = ms ++ l :: ls) :
    AlikeHeads (textThen ms (l.chars ++ post)) (textThen ms (new ++ post)) := by
  cases ms with
  | nil =>
    obtain ⟨x, hx, y, hy, halike⟩ := h.heads
    exact .inr ⟨x, mem_head?_append hx post, y, mem_head?_append hy post, halike⟩
  | cons n ms =>
    rw [textThen_cons] at hms
    obtain ⟨x, v, hchars, -, -⟩ := scanAll_append_cons hms
    rw [textThen_cons, textThen_cons, hchars]
    exact .inl rfl

theorem Respelled.sameSeam (h : Respelled l new post ls) {m : Lexeme}
    (hms : scanAll (textThen ms (l.chars ++ post)) = ms ++ l :: ls)
    (hsound : Sound (ms ++ l :: ls)) (hapart : Apart (m :: (ms ++ l :: ls))) :
    SameSeam m.kind (textThen ms (l.chars ++ post)) (textThen ms (new ++ post)) := by
  obtain ⟨x, hx, y, hy, halike⟩ := h.heads
  refine ⟨begun_of_sound (hms ▸ hsound), h.alikeHeads hms, ?_, fun hnumber hname => ?_⟩
  · exact ⟨ms.flatMap Lexeme.chars, l.chars ++ post, new ++ post, rfl, rfl,
      stops_append_of_head? hx (prolongsSymbol_eq_false halike.first) post,
      stops_append_of_head? hy (prolongsSymbol_eq_false halike.second) post⟩
  · have hopen : ∀ k ∈ numbers, k ∈ openEnded := by decide
    cases ms with
    | nil =>
      -- The number would stand directly before the name.
      have hpair := (List.isChain_cons_cons.mp hapart).1
      exact absurd h.kind (hpair (hopen _ hnumber))
    | cons n ms =>
      have hfresh := (List.isChain_cons_cons.mp hapart).1 (hopen _ hnumber)
      rw [textThen_cons] at hms hname ⊢
      obtain ⟨z, v, hchars, hscan, hrest⟩ := scanAll_append_cons hms
      have hsound' : Sound (ms ++ l :: ls) := fun x hx => hsound x (List.mem_cons_of_mem _ hx)
      obtain ⟨z', hz, hname⟩ := hname
      obtain rfl : z = z' := by
        rw [hchars] at hz
        exact Option.some.inj hz
      obtain ⟨hv, hstops⟩ := word_of_fresh (begun_of_sound (hrest ▸ hsound')) hname
        (hsound n List.mem_cons_self) hfresh hscan
      refine ⟨n.chars, _, _, ?_, rfl, textThen_cons n ms _, hstops,
        (h.alikeHeads hrest).stops_word hstops⟩
      have hpos := List.length_pos_iff.mpr hv
      rw [hchars, List.length_cons]
      omega

theorem Respelled.scanAll_eq (h : Respelled l new post ls) : ∀ ms : List Lexeme,
    scanAll (textThen ms (l.chars ++ post)) = ms ++ l :: ls → Sound (ms ++ l :: ls) →
    Apart (ms ++ l :: ls) →
    scanAll (textThen ms (new ++ post)) = ms ++ ⟨l.kind, new⟩ :: ls
  | [], _, _, _ => h.after
  | m :: ms, hscan, hsound, hapart => by
    rw [textThen_cons] at hscan ⊢
    obtain ⟨c, w, hchars, hm, hms⟩ := scanAll_append_cons hscan
    have hsound' : Sound (ms ++ l :: ls) := fun x hx => hsound x (List.mem_cons_of_mem _ hx)
    have hrest := h.scanAll_eq ms hms hsound' hapart.tail
    have hseam := h.sameSeam hms hsound' hapart
    refine scanAll_eq_cons_iff.mpr ⟨c, w, _, hchars, by rw [hchars]; rfl, ?_, hrest⟩
    exact scan_eq_of_sameSeam (hsound m List.mem_cons_self) hseam hm

end RSource.Lexeme
