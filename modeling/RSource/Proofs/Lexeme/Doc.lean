import RSource.Lexeme.Doc
import RSource.Proofs.Lexeme.Ending
import RSource.Proofs.Lexeme.Tiling

/-! The lexemes of doc comments.  Each step of the lexer cuts lexemes off the front of the
characters and hands on what is left (`Cuts`), so that the lexemes of a text are all its
characters. -/

namespace RSource.Lexeme

variable {ls ms : List Lexeme} {cs mid left w : List Char} {k : TokenKind}

/-- The lexemes stand at the front of the characters with `left` after them.  None is empty or an
end of file. -/
structure Cuts (ls : List Lexeme) (left cs : List Char) : Prop where
  chars : ls.flatMap Lexeme.chars ++ left = cs
  sound : ∀ l ∈ ls, l.chars ≠ [] ∧ l.kind ≠ .endOfFile

namespace Cuts

theorem nil (cs : List Char) : Cuts [] cs cs := ⟨rfl, fun _ h => by cases h⟩

theorem append (h : Cuts ls mid cs) (h' : Cuts ms left mid) : Cuts (ls ++ ms) left cs := by
  refine ⟨?_, fun l hl => (List.mem_append.mp hl).elim (h.sound l) (h'.sound l)⟩
  rw [List.flatMap_append, List.append_assoc, h'.chars, h.chars]

theorem cons (hne : w ≠ []) (hkind : k ≠ .endOfFile) (h : Cuts ls left mid) :
    Cuts (⟨k, w⟩ :: ls) left (w ++ mid) := by
  refine ⟨?_, List.forall_mem_cons.mpr ⟨⟨hne, hkind⟩, h.sound⟩⟩
  rw [List.flatMap_cons, List.append_assoc, h.chars]

theorem char (c : Char) (hkind : k ≠ .endOfFile) (h : Cuts ls left mid) :
    Cuts (⟨k, [c]⟩ :: ls) left (c :: mid) :=
  h.cons (List.cons_ne_nil c []) hkind

theorem nonempty (hkind : k ≠ .endOfFile) (w left : List Char) :
    Cuts (nonempty k w) left (w ++ left) := by
  rw [Lexeme.nonempty]
  cases w with
  | nil => exact nil left
  | cons c cs => exact cons (List.cons_ne_nil c cs) hkind (nil left)

theorem before (h : Cuts ls [] cs) (left : List Char) : Cuts ls left (cs ++ left) := by
  refine ⟨?_, h.sound⟩
  rw [← h.chars, List.append_nil]

/-- A front that is left out when it is empty. -/
theorem front (hkind : k ≠ .endOfFile) (n : Nat) (h : Cuts ls left (cs.drop n)) :
    Cuts (Lexeme.nonempty k (cs.take n) ++ ls) left cs := by
  have hfront := nonempty hkind (cs.take n) (cs.drop n)
  rw [List.take_append_drop] at hfront
  exact hfront.append h

end Cuts

theorem drop_length_takeWhile (p : Char → Bool) (cs : List Char) :
    cs.drop (cs.takeWhile p).length = cs.dropWhile p := by
  have hsplit := List.takeWhile_append_dropWhile (p := p) (l := cs)
  calc cs.drop (cs.takeWhile p).length
    _ = (cs.takeWhile p ++ cs.dropWhile p).drop (cs.takeWhile p).length := by rw [hsplit]
    _ = cs.dropWhile p := List.drop_left

/-- What does not reach the end is closed by the character that it does not contain. -/
theorem exists_closed {d : Char} (h : (cs.takeWhile (· ≠ d)).length < cs.length) :
    ∃ rest, cs = cs.takeWhile (· ≠ d) ++ d :: rest := by
  have hsplit := List.takeWhile_append_dropWhile (p := (· ≠ d)) (l := cs)
  cases hrest : cs.dropWhile (· ≠ d) with
  | nil =>
    rw [hrest, List.append_nil] at hsplit
    exact absurd (congrArg List.length hsplit) (Nat.ne_of_lt h)
  | cons x rest =>
    have hstop := List.head?_dropWhile_not (· ≠ d) cs
    rw [hrest] at hstop
    obtain rfl : x = d := by simpa using hstop
    exact ⟨rest, by rw [← hrest, hsplit]⟩

namespace Doc

theorem nameLength?_spec {n : Nat} (h : nameLength? cs = some n) :
    cs.take n ≠ [] ∧ n ≤ cs.length := by
  cases cs with
  | nil => cases h
  | cons c cs =>
    have hne : ∀ m, (c :: cs).take (m + 1) ≠ [] := fun m => List.cons_ne_nil _ _
    rw [nameLength?] at h
    split at h
    · simp only at h
      split at h
      · next hlt =>
        obtain rfl := Option.some.inj h
        exact ⟨hne _, Nat.succ_le_succ hlt⟩
      · cases h
    · split at h
      · obtain rfl := Option.some.inj h
        rw [Nat.add_comm]
        exact ⟨hne _, Nat.succ_le_succ (runLength_le _ _)⟩
      · cases h

/-- A name is cut off. -/
theorem cuts_name {n : Nat} (h : nameLength? cs = some n) (hls : Cuts ls left (cs.drop n)) :
    Cuts (⟨.docIdentifier, cs.take n⟩ :: ls) left cs := by
  have hname := hls.cons (nameLength?_spec h).1 (k := .docIdentifier) (by decide)
  rwa [List.take_append_drop] at hname

theorem nextParameter?_spec {before after n : Nat}
    (h : nextParameter? cs = some (before, after, n)) :
    cs.drop before = ',' :: cs.drop (before + 1) ∧
      nameLength? ((cs.drop (before + 1)).drop after) = some n := by
  simp only [nextParameter?] at h
  split at h
  · next rest hcomma =>
    obtain ⟨m, hname, hfound⟩ := Option.map_eq_some_iff.mp h
    cases hfound
    have hrest : cs.drop (runLength isGap cs + 1) = rest := by
      rw [← List.drop_drop, hcomma]
      rfl
    rw [hrest]
    exact ⟨hcomma, hname⟩
  · cases h

theorem cuts_moreParameters (bound : Nat) : ∀ cs,
    Cuts (moreParameters bound cs).1 (moreParameters bound cs).2 cs := by
  induction bound with
  | zero => exact Cuts.nil
  | succ bound ih =>
    intro cs
    rw [moreParameters]
    cases hnext : nextParameter? cs with
    | none => exact Cuts.nil cs
    | some found =>
      obtain ⟨before, after, n⟩ := found
      obtain ⟨hcomma, hname⟩ := nextParameter?_spec hnext
      have hrest := (Cuts.front (k := .docWhitespace) (by decide) after
        (cuts_name hname (ih _))).char ',' (k := .docComma) (by decide)
      rw [← hcomma] at hrest
      have hall := Cuts.front (k := .docWhitespace) (by decide) before hrest
      simpa only [List.append_assoc, List.cons_append] using hall

theorem cuts_parameters (cs : List Char) : Cuts (parameters cs).1 (parameters cs).2 cs := by
  simp only [parameters]
  split
  · next n hname =>
    split
    · exact Cuts.nil cs
    · next hgap =>
      have hcut := (cuts_name hname (cuts_moreParameters cs.length _)).cons
        (w := cs.take (runLength isGap cs)) (k := .docWhitespace) ?_ (by decide)
      · rwa [List.take_append_drop] at hcut
      · intro hnil
        rw [List.take_eq_nil_iff] at hnil
        rcases hnil with hzero | rfl
        · exact hgap hzero
        · exact hgap rfl
  · exact Cuts.nil cs

theorem cuts_freeText (cs left : List Char) : Cuts (freeText cs) left (cs ++ left) := by
  have hlead := List.takeWhile_append_dropWhile (p := isGap) (l := cs)
  simp only [freeText]
  generalize cs.takeWhile isGap = lead at hlead ⊢
  generalize cs.dropWhile isGap = body at hlead ⊢
  have hbody : body = (body.reverse.dropWhile isGap).reverse ++
      (body.reverse.takeWhile isGap).reverse := by
    rw [← List.reverse_append, List.takeWhile_append_dropWhile, List.reverse_reverse]
  generalize (body.reverse.takeWhile isGap).reverse = trail at hbody ⊢
  generalize (body.reverse.dropWhile isGap).reverse = middle at hbody
  have htake : body.take (body.length - trail.length) = middle := by
    rw [hbody, List.length_append, Nat.add_sub_cancel, List.take_left]
  have hcut := ((Cuts.nonempty (k := .docWhitespace) (by decide) lead _).append
    (Cuts.nonempty (k := .docText) (by decide) middle _)).append
    (Cuts.nonempty (k := .docWhitespace) (by decide) trail left)
  rw [← List.append_assoc middle, ← hbody, ← List.append_assoc, hlead] at hcut
  rwa [htake]

/-! ### Links -/

theorem cuts_markdownLink? (h : markdownLink? cs = some ls) :
    ls ≠ [] ∧ ∃ left, Cuts ls left ('[' :: cs) := by
  simp only [markdownLink?] at h
  split at h
  · next rest hdrop =>
    split at h
    · next hclosed =>
      obtain rfl := Option.some.inj h
      obtain ⟨left, hleft⟩ := exists_closed hclosed
      have hlabel := List.takeWhile_append_dropWhile (p := (· ≠ ']')) (l := cs)
      rw [← drop_length_takeWhile, hdrop] at hlabel
      refine ⟨List.cons_ne_nil _ _, left, ?_⟩
      have hcut := Cuts.cons (w := '[' :: cs.takeWhile (· ≠ ']') ++ [']']) (k := .docText)
        (by simp) (by decide) <| Cuts.char '(' (k := .docLeftParen) (by decide) <|
        (Cuts.nonempty (k := .docText) (by decide) (rest.takeWhile (· ≠ ')')) _).append <|
        Cuts.char ')' (k := .docRightParen) (by decide) (.nil left)
      rw [← hleft] at hcut
      have hall : '[' :: cs.takeWhile (· ≠ ']') ++ [']'] ++ '(' :: rest = '[' :: cs := by
        rw [List.append_assoc, List.singleton_append, List.cons_append, hlabel]
      rwa [hall] at hcut
    · cases h
  · cases h

theorem cuts_qualified? {rest : List Char} (h : qualified? cs = some (ls, rest)) :
    Cuts ls rest cs := by
  unfold qualified? at h
  split at h
  · next name =>
    obtain ⟨n, hname, hfound⟩ := Option.map_eq_some_iff.mp h
    cases hfound
    exact (cuts_name hname (.nil _)).cons (w := [':', ':']) (by simp) (by decide)
  · obtain ⟨rfl, rfl⟩ := Prod.mk.inj (Option.some.inj h)
    exact .nil cs

theorem cuts_helpPageLink? (h : helpPageLink? cs = some ls) :
    ls ≠ [] ∧ ∃ left, Cuts ls left ('[' :: cs) := by
  obtain ⟨n, hname, h⟩ := Option.bind_eq_some_iff.mp h
  obtain ⟨⟨names, rest⟩, hnames, h⟩ := Option.bind_eq_some_iff.mp h
  have hstart : ∀ {ms left}, Cuts ms left rest →
      Cuts (⟨.docLeftBracket, ['[']⟩ :: ⟨.docIdentifier, cs.take n⟩ :: names ++ ms) left
        ('[' :: cs) := fun hms =>
    Cuts.char '[' (by decide)
      (cuts_name hname ((cuts_qualified? hnames).append hms))
  simp only at h
  split at h
  · next left =>
    obtain rfl := Option.some.inj h
    refine ⟨List.cons_ne_nil _ _, left, hstart ?_⟩
    exact Cuts.char '(' (by decide) <| Cuts.char ')' (by decide) <|
      Cuts.char ']' (by decide) (.nil left)
  · obtain rfl := Option.some.inj h
    exact ⟨List.cons_ne_nil _ _, _, hstart (Cuts.char ']' (by decide) (.nil _))⟩
  · cases h

theorem cuts_autolink? (h : autolink? cs = some ls) :
    ls ≠ [] ∧ ∃ left, Cuts ls left ('<' :: cs) := by
  simp only [autolink?] at h
  split at h
  · next hlink =>
    simp only [Bool.and_eq_true, decide_eq_true_eq] at hlink
    obtain ⟨⟨⟨⟨hclosed, hscheme⟩, -⟩, -⟩, -⟩ := hlink
    obtain rfl := Option.some.inj h
    obtain ⟨left, hleft⟩ := exists_closed hclosed
    have hne : cs.takeWhile (· ≠ '>') ≠ [] := List.ne_nil_of_length_pos (Nat.zero_lt_of_lt hscheme)
    refine ⟨List.cons_ne_nil _ _, left, ?_⟩
    have hcut := Cuts.char '<' (k := .docLeftAngle) (by decide) <|
      Cuts.cons (k := .docAutolinkUri) hne (by decide) <|
      Cuts.char '>' (k := .docRightAngle) (by decide) (.nil left)
    rwa [← hleft] at hcut
  · cases h

theorem cuts_link? {c : Char} (h : link? c cs = some ls) :
    ls ≠ [] ∧ ∃ left, Cuts ls left (c :: cs) := by
  rw [link?] at h
  split at h
  · next hc =>
    subst hc
    rcases Option.or_eq_some_iff.mp h with h | ⟨-, h⟩
    · exact cuts_markdownLink? h
    · exact cuts_helpPageLink? h
  · split at h
    · next hc =>
      subst hc
      exact cuts_autolink? h
    · cases h

/-! ### Lines -/

/-- The first character of a link is the one before which the lexer stands. -/
theorem drop_count_of_cuts {c : Char} (h : Cuts ls left (c :: cs)) (hne : ls ≠ []) :
    cs.drop (count ls - 1) = left := by
  have hcount : 0 < count ls := by
    obtain ⟨l, ls, rfl⟩ := List.exists_cons_of_ne_nil hne
    have hchars := List.length_pos_iff.mpr (h.sound l List.mem_cons_self).1
    rw [count, List.flatMap_cons, List.length_append]
    omega
  have hdrop : (c :: cs).drop (count ls) = left := by
    rw [← h.chars]
    exact List.drop_left
  obtain ⟨n, hn⟩ := Nat.exists_eq_succ_of_ne_zero (Nat.ne_of_gt hcount)
  rwa [hn] at hdrop ⊢

theorem cuts_contentFrom (cs : List Char) : ∀ (taken : Nat) (text : List Char),
    Cuts (contentFrom taken text cs) [] (text.reverse ++ cs.drop taken) := by
  induction cs with
  | nil =>
    intro taken text
    rw [contentFrom, List.drop_nil]
    exact cuts_freeText _ _
  | cons c cs ih =>
    intro taken text
    cases taken with
    | succ taken =>
      rw [contentFrom]
      exact ih taken text
    | zero =>
      rw [contentFrom]
      cases hlink : link? c cs with
      | none => simpa using ih 0 (c :: text)
      | some ls =>
        obtain ⟨hne, left, hls⟩ := cuts_link? hlink
        have hrest := ih (count ls - 1) []
        rw [drop_count_of_cuts hls hne] at hrest
        exact ((cuts_freeText text.reverse _).append hls).append hrest

theorem cuts_content (cs : List Char) : Cuts (content cs) [] cs := cuts_contentFrom cs 0 []

/-- A tag is cut off before what follows it. -/
theorem cuts_tag {rest : List Char} (h : Cuts ls left (rest.dropWhile isTagChar)) :
    Cuts (⟨.docTagName, '@' :: rest.takeWhile isTagChar⟩ :: ls) left ('@' :: rest) := by
  have hcut := h.cons (w := '@' :: rest.takeWhile isTagChar) (k := .docTagName)
    (List.cons_ne_nil _ _) (by decide)
  rwa [List.cons_append, List.takeWhile_append_dropWhile] at hcut

theorem cuts_marked (cs : List Char) : Cuts (marked cs) [] cs := by
  unfold marked
  split
  · next rest =>
    simp only [drop_length_takeWhile]
    split
    · exact cuts_content _
    · split
      · exact (cuts_tag (cuts_parameters _)).append (cuts_content _)
      · exact (cuts_tag (.nil _)).append (cuts_content _)
  · exact cuts_content cs

theorem cuts_line (cs left : List Char) : Cuts (line cs) left (cs ++ left) := by
  have hgap := List.takeWhile_append_dropWhile (p := isGap) (l := cs)
  simp only [line]
  generalize cs.takeWhile isGap = gap at hgap ⊢
  generalize cs.dropWhile isGap = body at hgap ⊢
  rw [← hgap, List.append_assoc]
  refine (Cuts.nonempty (by decide) gap _).append ?_
  split
  · next rest =>
    have hrest := List.takeWhile_append_dropWhile (p := isGap) (l := rest)
    have hcut := ((Cuts.nonempty (k := .docWhitespace) (by decide) (rest.takeWhile isGap)
      (rest.dropWhile isGap)).append (cuts_marked _)).cons (w := ['#', '\x27'])
      (k := .docMarker) (List.cons_ne_nil _ _) (by decide)
    rw [hrest] at hcut
    exact hcut.before left
  · exact Cuts.nonempty (by decide) body left

theorem cuts_lineWithEnd (cs : List Char) (ended : Bool) (left : List Char) :
    Cuts (lineWithEnd cs ended) left (cs ++ (if ended then '\n' :: left else left)) := by
  simp only [lineWithEnd]
  by_cases hreturned : cs.getLast? = some '\r'
  · obtain ⟨body, rfl⟩ := List.getLast?_eq_some_iff.mp hreturned
    simp only [hreturned, if_true, List.dropLast_concat, List.append_assoc]
    refine (cuts_line body _).append ?_
    cases ended with
    | true => exact Cuts.cons (w := ['\r', '\n']) (by simp) (by decide) (.nil left)
    | false => exact Cuts.char '\r' (by decide) (.nil left)
  · simp only [hreturned, if_false]
    refine (cuts_line cs _).append ?_
    cases ended with
    | true => exact Cuts.char '\n' (by decide) (.nil left)
    | false => exact .nil left

theorem cuts_linesFrom (cs : List Char) : ∀ current : List Char,
    Cuts (linesFrom current cs) [] (current.reverse ++ cs) := by
  induction cs with
  | nil => exact fun current => cuts_lineWithEnd current.reverse false []
  | cons c cs ih =>
    intro current
    rw [linesFrom]
    split
    · next hc =>
      subst hc
      exact (cuts_lineWithEnd current.reverse true cs).append (ih [])
    · simpa using ih (c :: current)

theorem cuts_ofChars (cs : List Char) : Cuts (ofChars cs) [] cs := cuts_linesFrom cs []

end Doc

end RSource.Lexeme
