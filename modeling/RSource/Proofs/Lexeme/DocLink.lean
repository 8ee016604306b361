import RSource.Proofs.Lexeme.DocWindow

/-! Links by byte positions.  The scanner holds the tokens of a link until it has seen all of it,
and finds the links that the characters of the window begin with. -/

namespace RSource.DocScan

open Lexeme hiding size
open Lexeme.Doc
open Text (Window size)
open Utf8 (ascii lead)

variable {text : String} {start stop : Nat} {c d : Char} {cs : List Char} {ls ms : List Lexeme}

/-! ### Links -/

/-- The lexemes that are not empty. -/
def shown (ws : List Lexeme) : List Lexeme := ws.flatMap fun l => nonempty l.kind l.chars

/-- The scanner holds the tokens of lexemes, of which those that are not empty are the link. -/
def Holds (start : Nat) (ls : List Lexeme) (link : List Token) : Prop :=
  ∃ ws, ws ≠ [] ∧ link = tile start ws ∧ ls = shown ws

theorem shown_eq {ws : List Lexeme} (h : ∀ l ∈ ws, l.chars ≠ []) : shown ws = ws := by
  induction ws with
  | nil => rfl
  | cons w ws ih =>
    obtain ⟨hw, hws⟩ := List.forall_mem_cons.mp h
    rw [shown, List.flatMap_cons, ← shown, ih hws, nonempty, List.isEmpty_eq_false_iff.mpr hw]
    rfl

/-- A link none of whose lexemes is empty. -/
theorem Holds.of_cuts {left : List Char} {link : List Token} (hne : ls ≠ []) (h : Cuts ls left cs)
    (hlink : link = tile start ls) : Holds start ls link :=
  ⟨ls, hne, hlink, (shown_eq fun l hl => (h.sound l hl).1).symm⟩

theorem flatMap_chars_shown (ws : List Lexeme) :
    (shown ws).flatMap Lexeme.chars = ws.flatMap Lexeme.chars := by
  rw [shown, List.flatMap_assoc]
  simp only [flatMap_chars_nonempty]

theorem pushAll_tile (ws : List Lexeme) : ∀ start,
    pushAll (tile start ws) = emitted start (shown ws) := by
  induction ws with
  | nil => intro start; rfl
  | cons w ws ih =>
    intro start
    have hrest := ih (start + w.size)
    rw [shown] at hrest
    rw [shown, List.flatMap_cons, emitted_nonempty_append]
    exact congrArg _ hrest

theorem stop_getLast?_tile {ws : List Lexeme} (hne : ws ≠ []) (start : Nat) :
    (tile start ws).getLast?.map (·.span.stop) =
      some (start + size (ws.flatMap Lexeme.chars)) := by
  have hsplit := List.dropLast_append_getLast hne
  rw [← hsplit, tile_append, tile, tile, List.getLast?_concat, List.flatMap_append,
    Text.size_append, List.flatMap_singleton, ← Nat.add_assoc]
  rfl

/-- Behind `c`, either no `d` is found, or the first one with characters behind it. -/
theorem find?_cons_cases (hc : c.utf8Size = 1) (hne : c ≠ d) (cs : List Char) :
    (find? (· = d) (c :: cs) = none ∧ ¬ (cs.takeWhile (· ≠ d)).length < cs.length ∧
      cs.dropWhile (· ≠ d) = []) ∨
    ∃ rest, find? (· = d) (c :: cs) = some (1 + size (cs.takeWhile (· ≠ d))) ∧
      (cs.takeWhile (· ≠ d)).length < cs.length ∧ cs.dropWhile (· ≠ d) = d :: rest := by
  rw [find?, if_neg (by simpa using hne), find?_eq (q := (· ≠ d)) (by simp), hc,
    ← drop_length_takeWhile]
  by_cases hclosed : (cs.takeWhile (· ≠ d)).length < cs.length
  · obtain ⟨rest, hrest⟩ := exists_closed hclosed
    refine .inr ⟨rest, by rw [if_pos hclosed]; rfl, hclosed, ?_⟩
    generalize cs.takeWhile (· ≠ d) = inner at hrest ⊢
    rw [hrest, List.drop_left]
  · exact .inl ⟨by rw [if_neg hclosed]; rfl, hclosed,
      List.drop_eq_nil_iff.mpr (Nat.not_lt.mp hclosed)⟩

theorem markdownLink?_of_closed {rest : List Char}
    (h : cs.dropWhile (· ≠ ']') = ']' :: '(' :: rest) : Doc.markdownLink? cs =
      if (rest.takeWhile (· ≠ ')')).length < rest.length then
        some (⟨.docText, '[' :: cs.takeWhile (· ≠ ']') ++ [']']⟩ :: ⟨.docLeftParen, ['(']⟩ ::
          nonempty .docText (rest.takeWhile (· ≠ ')')) ++ [⟨.docRightParen, [')']⟩])
      else none := by
  simp only [Doc.markdownLink?, drop_length_takeWhile, h]

theorem markdownLink?_eq_none (h : ∀ rest, cs.dropWhile (· ≠ ']') ≠ ']' :: '(' :: rest) :
    Doc.markdownLink? cs = none := by
  unfold Doc.markdownLink?
  dsimp only
  rw [drop_length_takeWhile]
  split
  · next rest hrest => exact absurd hrest (h rest)
  · rfl

theorem markdownLink?_window (h : Window text start stop ('[' :: cs)) :
    ∃ found, DocScan.markdownLink? text start stop = .ok found ∧
      Option.Rel (Holds start) (Doc.markdownLink? cs) found := by
  rw [DocScan.markdownLink?, slice_window h, ok_bind]
  rcases find?_cons_cases (c := '[') (d := ']') (by decide) (by decide) cs with
    ⟨hfind, -, hrest⟩ | ⟨after, hfind, -, hrest⟩
  · rw [hfind, markdownLink?_eq_none fun rest hafter => by rw [hrest] at hafter; cases hafter]
    exact ⟨none, rfl, .none⟩
  have hclose := h.tail.dropWhile (· ≠ ']')
  rw [hrest] at hclose
  have hparen : Window text (start + (1 + size (cs.takeWhile (· ≠ ']'))) + 1) stop after := by
    rw [← Nat.add_assoc start]
    exact hclose.tail
  rw [hfind]
  dsimp only
  by_cases hhead : after.head? = some '('
  · obtain ⟨rest, rfl⟩ := List.head?_eq_some_iff.mp hhead
    rw [if_neg (fun hne => (byte?_ne_or_le_iff hparen (by decide)).mp hne hhead),
      slice_window hparen, ok_bind, markdownLink?_of_closed hrest]
    rcases find?_cons_cases (c := '(') (d := ')') (by decide) (by decide) rest with
      ⟨hfind, hopen, -⟩ | ⟨left, hfind, hclosed, -⟩
    · rw [hfind, if_neg hopen]
      exact ⟨none, rfl, .none⟩
    · rw [hfind, if_pos hclosed]
      refine ⟨_, rfl, .some ⟨[⟨.docText, '[' :: cs.takeWhile (· ≠ ']') ++ [']']⟩,
        ⟨.docLeftParen, ['(']⟩, ⟨.docText, rest.takeWhile (· ≠ ')')⟩, ⟨.docRightParen, [')']⟩],
        List.cons_ne_nil _ _, ?_, ?_⟩⟩
      · have hsize : '['.utf8Size = 1 ∧ ']'.utf8Size = 1 ∧ '('.utf8Size = 1 ∧ ')'.utf8Size = 1 := by
          decide
        simp only [tile, tokenAt, Lexeme.size, Text.size_append, Text.size_cons, Text.size_nil,
          List.cons.injEq, Token.mk.injEq, Span.mk.injEq, true_and, and_true, hsize]
        omega
      · simp [shown, nonempty]
  · rw [if_pos ((byte?_ne_or_le_iff hparen (by decide)).mpr hhead),
      markdownLink?_eq_none fun rest hafter => hhead (by
        rw [(List.cons.inj (hrest.symm.trans hafter)).2]; rfl)]
    exact ⟨none, rfl, .none⟩

theorem window_of_cuts {left : List Char} (h : Window text start stop cs) (hls : Cuts ls left cs) :
    Window text (start + size (ls.flatMap Lexeme.chars)) stop left :=
  Text.Window.right (by rwa [hls.chars])

theorem isPrefixOf_pair_iff : [c, d].isPrefixOf cs = true ↔ ∃ rest, cs = c :: d :: rest := by
  rw [List.isPrefixOf_iff_prefix]
  exact ⟨fun ⟨rest, hrest⟩ => ⟨rest, hrest.symm⟩, fun ⟨rest, hrest⟩ => ⟨rest, hrest.symm⟩⟩

theorem qualified?_window (h : Window text start stop cs) : DocScan.qualified? text start stop =
    .ok ((Doc.qualified? cs).map fun (found : List Lexeme × List Char) =>
      (tile start found.1, start + size (found.1.flatMap Lexeme.chars))) := by
  rw [DocScan.qualified?, slice_window h, ok_bind]
  split
  · next hcolons =>
    obtain ⟨rest, rfl⟩ := isPrefixOf_pair_iff.mp hcolons
    have hname : Window text (start + 2) stop rest := h.tail.tail
    rw [nameEnd?_window hname, ok_bind, Doc.qualified?]
    cases hlength : nameLength? rest with
    | none => rfl
    | some n =>
      have hcolon : size [':', ':'] = 2 := by decide
      simp only [Option.map_some, tile, tokenAt, Lexeme.size, hcolon, List.flatMap_cons,
        List.flatMap_nil, List.append_nil, Text.size_append, Nat.add_assoc]
      rfl
  · next hcolons =>
    unfold Doc.qualified?
    split
    · next rest => exact absurd (isPrefixOf_pair_iff.mpr ⟨rest, rfl⟩) hcolons
    · rfl

/-- `()` as lexemes, if the characters begin with it. -/
def call (cs : List Char) : List Lexeme :=
  if ['(', ')'].isPrefixOf cs then [⟨.docLeftParen, ['(']⟩, ⟨.docRightParen, [')']⟩] else []

theorem cuts_call (cs : List Char) : Cuts (call cs) (cs.drop (call cs).length) cs := by
  rw [call]
  split
  · next hcall =>
    obtain ⟨rest, rfl⟩ := isPrefixOf_pair_iff.mp hcall
    exact Cuts.char '(' (by decide) (Cuts.char ')' (by decide) (.nil rest))
  · exact .nil cs

theorem called_window (h : Window text start stop cs) : called text start stop =
    .ok (tile start (call cs), start + size ((call cs).flatMap Lexeme.chars)) := by
  rw [called, slice_window h, ok_bind, call]
  split
  · rfl
  · rfl

theorem helpPageLink?_eq {qualifier : List Lexeme} {rest : List Char} {n : Nat}
    (hname : nameLength? cs = some n)
    (hqualifier : Doc.qualified? (cs.drop n) = some (qualifier, rest)) : Doc.helpPageLink? cs =
      if (rest.drop (call rest).length).head? = some ']' then
        some (⟨.docLeftBracket, ['[']⟩ :: ⟨.docIdentifier, cs.take n⟩ :: qualifier ++ call rest ++
          [⟨.docRightBracket, [']']⟩])
      else none := by
  rw [Doc.helpPageLink?, hname, Option.bind_eq_bind, Option.bind_some, hqualifier,
    Option.bind_eq_bind, Option.bind_some, call]
  dsimp only
  by_cases hcall : ['(', ')'].isPrefixOf rest = true
  · rw [if_pos hcall]
    obtain ⟨left, rfl⟩ := isPrefixOf_pair_iff.mp hcall
    cases left with
    | nil => rfl
    | cons c left =>
      by_cases hc : c = ']'
      · subst hc
        simp
      · simp [hc]
  · rw [if_neg hcall]
    cases rest with
    | nil => rfl
    | cons c left =>
      by_cases hc : c = ']'
      · subst hc
        simp
      · split
        · next hparen => exact absurd (isPrefixOf_pair_iff.mpr ⟨_, hparen⟩) hcall
        · next hbracket => exact absurd (List.cons.inj hbracket).1 hc
        · simp [hc]

theorem helpPageLink?_window (h : Window text start stop ('[' :: cs)) :
    ∃ found, DocScan.helpPageLink? text start stop = .ok found ∧
      Option.Rel (Holds start) (Doc.helpPageLink? cs) found := by
  have hfirst : Window text (start + 1) stop cs := h.tail
  rw [DocScan.helpPageLink?, nameEnd?_window hfirst, ok_bind]
  cases hname : nameLength? cs with
  | none =>
    rw [Doc.helpPageLink?, hname]
    exact ⟨none, rfl, .none⟩
  | some n =>
    have hqualifier := hfirst.drop n
    simp only [Option.map_some]
    rw [qualified?_window hqualifier, ok_bind]
    cases hfound : Doc.qualified? (cs.drop n) with
    | none =>
      rw [Doc.helpPageLink?, hname, Option.bind_eq_bind, Option.bind_some, hfound]
      exact ⟨none, rfl, .none⟩
    | some found =>
      obtain ⟨qualifier, rest⟩ := found
      have hrest := window_of_cuts hqualifier (cuts_qualified? hfound)
      have hcall := window_of_cuts hrest (cuts_call rest)
      simp only [Option.map_some]
      rw [called_window hrest, ok_bind, helpPageLink?_eq hname hfound]
      dsimp only
      by_cases hbracket : (rest.drop (call rest).length).head? = some ']'
      · rw [if_neg (fun hne => (byte?_ne_or_le_iff hcall (by decide)).mp hne hbracket),
          if_pos hbracket]
        have hlink := helpPageLink?_eq hname hfound
        rw [if_pos hbracket] at hlink
        obtain ⟨hne, left, hcuts⟩ := cuts_helpPageLink? hlink
        refine ⟨_, rfl, .some (.of_cuts hne hcuts ?_)⟩
        have hsize : size ['['] = 1 ∧ size [']'] = 1 := by decide
        simp only [List.cons_append, tile, tile_append, tokenAt, Lexeme.size, hsize,
          List.flatMap_append, Text.size_append, ← Nat.add_assoc]
      · rw [if_pos ((byte?_ne_or_le_iff hcall (by decide)).mpr hbracket), if_neg hbracket]
        exact ⟨none, rfl, .none⟩

theorem splitOnce?_eq (cs : List Char) : splitOnce? d cs =
    if (cs.takeWhile (· ≠ d)).length < cs.length then
      some (cs.takeWhile (· ≠ d), cs.drop ((cs.takeWhile (· ≠ d)).length + 1))
    else none := by
  induction cs with
  | nil => rfl
  | cons c cs ih =>
    rw [splitOnce?, List.takeWhile_cons]
    by_cases hc : c = d
    · simp [hc]
    · simp only [hc, if_false, ih, ne_eq, not_false_eq_true, decide_true, if_true,
        List.length_cons, Nat.add_lt_add_iff_right, List.drop_succ_cons]
      split
      · rfl
      · rfl

theorem autolink?_eq_none {uri : List Char} (huri : cs.takeWhile (· ≠ '>') = uri)
    (h : ¬ uri.length < cs.length ∨ ¬ (uri.takeWhile (· ≠ ':')).length < uri.length) :
    Doc.autolink? cs = none := by
  simp only [Doc.autolink?, huri]
  rcases h with h | h
  · simp only [decide_eq_false h, Bool.false_and]
    rfl
  · simp only [decide_eq_false h, Bool.and_false, Bool.false_and]
    rfl

/-- A closed link with a colon, by what turns it down. -/
theorem autolink?_of_colon {uri : List Char} (huri : cs.takeWhile (· ≠ '>') = uri)
    (hclosed : uri.length < cs.length)
    (hcolon : (uri.takeWhile (· ≠ ':')).length < uri.length) : Doc.autolink? cs =
      if (!isScheme (uri.takeWhile (· ≠ ':')) ||
          (uri.drop ((uri.takeWhile (· ≠ ':')).length + 1)).isEmpty ||
          uri.any fun c => Unicode.isBlank c || c = '<') = true then none
      else some [⟨.docLeftAngle, ['<']⟩, ⟨.docAutolinkUri, uri⟩, ⟨.docRightAngle, ['>']⟩] := by
  have hplain : (uri.all fun c => !Unicode.isBlank c && decide (c ≠ '<')) =
      !uri.any fun c => Unicode.isBlank c || c = '<' := by
    rw [List.not_any_eq_all_not]
    simp
  simp only [Doc.autolink?, huri, hplain, decide_eq_true hclosed, decide_eq_true hcolon,
    Bool.true_and]
  cases isScheme (uri.takeWhile (· ≠ ':')) with
  | false => rfl
  | true =>
    cases (uri.drop ((uri.takeWhile (· ≠ ':')).length + 1)).isEmpty with
    | true => rfl
    | false =>
      cases uri.any fun c => Unicode.isBlank c || c = '<' with
      | true => rfl
      | false => rfl

theorem autolink?_window (h : Window text start stop ('<' :: cs)) :
    ∃ found, DocScan.autolink? text start stop = .ok found ∧
      Option.Rel (Holds start) (Doc.autolink? cs) found := by
  have hfirst : Window text (start + 1) stop cs := h.tail
  obtain ⟨uri, huri⟩ : ∃ uri, cs.takeWhile (· ≠ '>') = uri := ⟨_, rfl⟩
  have hinner := hfirst.takeWhile (· ≠ '>')
  rw [huri] at hinner
  rw [DocScan.autolink?, slice_window hfirst, ok_bind, find?_eq (q := (· ≠ '>')) (by simp), huri]
  by_cases hclosed : uri.length < cs.length
  · rw [if_pos hclosed]
    dsimp only
    rw [slice_window hinner, ok_bind, splitOnce?_eq]
    by_cases hcolon : (uri.takeWhile (· ≠ ':')).length < uri.length
    · have hlink := autolink?_of_colon huri hclosed hcolon
      rw [if_pos hcolon]
      dsimp only
      split
      · next hbad =>
        rw [hlink, if_pos hbad]
        exact ⟨none, rfl, .none⟩
      · next hgood =>
        rw [if_neg hgood] at hlink
        obtain ⟨hne, left, hcuts⟩ := cuts_autolink? hlink
        have hsize : size ['<'] = 1 ∧ size ['>'] = 1 := by decide
        rw [hlink]
        refine ⟨_, rfl, .some (.of_cuts hne hcuts ?_)⟩
        simp only [tile, tokenAt, Lexeme.size, hsize]
    · rw [if_neg hcolon, autolink?_eq_none huri (.inr hcolon)]
      exact ⟨none, rfl, .none⟩
  · rw [if_neg hclosed, autolink?_eq_none huri (.inl hclosed)]
    exact ⟨none, rfl, .none⟩

theorem link?_window (h : Window text start stop (c :: cs)) :
    ∃ found, DocScan.link? text start stop = .ok found ∧
      Option.Rel (Holds start) (Doc.link? c cs) found := by
  rw [DocScan.link?, byte_window h, ok_bind, Doc.link?]
  simp only [Utf8.lead_eq_ascii_iff (d := '[') (by decide),
    Utf8.lead_eq_ascii_iff (d := '<') (by decide)]
  split
  · next hc =>
    subst hc
    obtain ⟨found, hfound, hlink⟩ := markdownLink?_window h
    rw [hfound, ok_bind]
    generalize Doc.markdownLink? cs = model at hlink ⊢
    cases hlink with
    | some hholds => exact ⟨_, rfl, .some hholds⟩
    | none => exact helpPageLink?_window h
  · split
    · next hc =>
      subst hc
      exact autolink?_window h
    · exact ⟨none, rfl, .none⟩

end RSource.DocScan
