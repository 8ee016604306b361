import Mathlib.Data.List.TakeWhile
import RSource.Proofs.Lexeme.DocLink

/-! Scanning doc comments by byte positions never fails, and gives the lexemes of the text. -/

namespace RSource.DocScan

open Lexeme hiding size
open Lexeme.Doc
open Text (Window size)
open Utf8 (ascii lead)

variable {text : String} {start stop : Nat} {c d : Char} {cs : List Char} {ls ms : List Lexeme}

/-! ### Content -/

theorem trimEndChars_append (p : Char → Bool) (cs : List Char) :
    Text.trimEndChars p cs ++ (cs.reverse.takeWhile p).reverse = cs := by
  rw [Text.trimEndChars, ← List.reverse_append, List.takeWhile_append_dropWhile,
    List.reverse_reverse]

theorem freeText_eq (cs : List Char) : freeText cs =
    nonempty .docWhitespace (cs.takeWhile isGap) ++
      nonempty .docText (Text.trimEndChars isGap (cs.dropWhile isGap)) ++
      nonempty .docWhitespace ((cs.dropWhile isGap).reverse.takeWhile isGap).reverse := by
  have htrim := trimEndChars_append isGap (cs.dropWhile isGap)
  have hlength := congrArg List.length htrim
  rw [List.length_append] at hlength
  have hmiddle : (cs.dropWhile isGap).take
      (Text.trimEndChars isGap (cs.dropWhile isGap)).length =
        Text.trimEndChars isGap (cs.dropWhile isGap) :=
    (List.prefix_iff_eq_take.mp ⟨_, htrim⟩).symm
  rw [freeText, ← hlength, Nat.add_sub_cancel, hmiddle]

/-- Unless all is trimmed at the start, no more than what is left is trimmed at the end. -/
theorem trimEndChars_of_dropWhile {p : Char → Bool} (h : cs.dropWhile p ≠ []) :
    Text.trimEndChars p cs = cs.takeWhile p ++ Text.trimEndChars p (cs.dropWhile p) := by
  have hbody : (cs.dropWhile p).reverse.dropWhile p ≠ [] := by
    obtain ⟨c, body, hc⟩ := List.exists_cons_of_ne_nil h
    have hstop := List.head?_dropWhile_not p cs
    rw [hc] at hstop
    rw [hc, ne_eq, List.dropWhile_eq_nil_iff]
    intro hall
    have hpc := hall c (by simp)
    simp [hpc] at hstop
  calc Text.trimEndChars p cs
    _ = Text.trimEndChars p (cs.takeWhile p ++ cs.dropWhile p) := by
      rw [List.takeWhile_append_dropWhile]
    _ = cs.takeWhile p ++ Text.trimEndChars p (cs.dropWhile p) := by
      rw [Text.trimEndChars, List.reverse_append, List.dropWhile_append,
        if_neg (fun hnil => hbody (List.isEmpty_iff.mp hnil)), List.reverse_append,
        List.reverse_reverse, Text.trimEndChars]

theorem flush_window (h : Window text start stop cs) :
    flush text start stop = .ok (emitted start (freeText cs)) := by
  have hstop := lt_stop_iff h
  rw [flush]
  split
  · next hle =>
    have hnil : cs = [] := by
      by_contra hne
      exact absurd (hstop.mpr hne) (Nat.not_lt.mpr hle)
    subst hnil
    rfl
  · have hcs := congrArg size (List.takeWhile_append_dropWhile (p := isGap) (l := cs))
    rw [Text.size_append] at hcs
    rw [slice_window h, ok_bind, Text.trimStartChars, freeText_eq, h.stop_eq]
    dsimp only
    by_cases hbody : cs.dropWhile isGap = []
    · have hlead := List.takeWhile_append_dropWhile (p := isGap) (l := cs)
      rw [hbody, List.append_nil] at hlead
      rw [hbody, hlead, Text.size_nil, Nat.sub_zero, if_pos rfl, push_eq]
      show Except.ok _ = Except.ok (emitted start (nonempty .docWhitespace cs ++ [] ++ []))
      rw [List.append_nil, List.append_nil]
    · have hpos := Text.size_pos hbody
      have hmiddle := congrArg size (trimEndChars_append isGap (cs.dropWhile isGap))
      rw [Text.size_append] at hmiddle
      rw [if_neg (by omega), trimEndChars_of_dropWhile hbody, Text.size_append]
      generalize Text.trimEndChars isGap (cs.dropWhile isGap) = middle at hmiddle ⊢
      generalize ((cs.dropWhile isGap).reverse.takeWhile isGap).reverse = trail at hmiddle ⊢
      generalize cs.takeWhile isGap = lead at hcs ⊢
      have hfirst : size cs - size (cs.dropWhile isGap) = size lead := by omega
      have hlast : start + size cs - (size cs - (size lead + size middle)) =
          start + size lead + size middle := by omega
      have hend : start + size cs = start + size lead + size middle + size trail := by omega
      rw [hfirst, hlast, hend, List.append_assoc, List.append_assoc, emitted_nonempty_append,
        emitted_nonempty_append, ← push_eq]
      rfl

theorem flatMap_chars_freeText (cs : List Char) : (freeText cs).flatMap Lexeme.chars = cs := by
  simpa using (cuts_freeText cs []).chars

theorem contentFrom_drop (taken : Nat) (free : List Char) : ∀ cs,
    Doc.contentFrom taken free cs = Doc.contentFrom 0 free (cs.drop taken) := by
  induction taken with
  | zero => intro cs; rfl
  | succ taken ih =>
    intro cs
    cases cs with
    | nil => rfl
    | cons c cs =>
      rw [Doc.contentFrom]
      exact ih cs

theorem contentFrom_window (n : Nat) : ∀ (cs free : List Char) (start : Nat),
    Window text start stop (free ++ cs) → cs.length < n →
      contentFrom text n start (start + size free) stop =
        .ok (emitted start (Doc.contentFrom 0 free.reverse cs)) := by
  induction n with
  | zero => intro cs _ _ _ hn; exact absurd hn (Nat.not_lt_zero _)
  | succ n ih =>
    intro cs free start h hn
    have hrest := h.right
    rw [contentFrom]
    cases cs with
    | nil =>
      rw [if_neg (fun hlt => (lt_stop_iff hrest).mp hlt rfl), Doc.contentFrom, List.reverse_reverse]
      rw [List.append_nil] at h
      exact flush_window h
    | cons c cs =>
      rw [if_pos ((lt_stop_iff hrest).mpr (List.cons_ne_nil c cs))]
      obtain ⟨found, hfound, hlink⟩ := link?_window hrest
      rw [hfound, ok_bind, Doc.contentFrom]
      generalize hmodel : Doc.link? c cs = model at hlink ⊢
      cases hlink with
      | none =>
        obtain ⟨after, hall⟩ := hrest.exists_rest
        have hmore := ih cs (free ++ [c]) start (by simpa using h) (Nat.lt_of_succ_lt_succ hn)
        rw [Text.size_append, ← Nat.add_assoc, List.reverse_append] at hmore
        dsimp only
        rw [slice_window hall, ok_bind]
        exact hmore
      | @some ls _ hholds =>
        obtain ⟨hne, left, hcuts⟩ := cuts_link? hmodel
        obtain ⟨ws, hws, rfl, rfl⟩ := hholds
        have hleft := window_of_cuts hrest hcuts
        have hshorter : left.length < n := by
          rw [← drop_count_of_cuts hcuts hne, List.length_drop]
          rw [List.length_cons] at hn
          omega
        have hmore := ih left [] _ (by simpa using hleft) hshorter
        dsimp only
        rw [flush_window h.left, ok_bind, stop_getLast?_tile hws, Option.getD_some,
          contentFrom_drop, drop_count_of_cuts hcuts hne, pushAll_tile, List.reverse_reverse,
          List.append_assoc, emitted_append, emitted_append, flatMap_chars_freeText,
          ← flatMap_chars_shown]
        rw [Text.size_nil, Nat.add_zero] at hmore
        rw [hmore, ok_bind, List.append_assoc]
        rfl

theorem content_window (h : Window text start stop cs) :
    contentFrom text (turns text) start start stop = .ok (emitted start (content cs)) :=
  contentFrom_window _ cs [] start h (length_lt_turns h)

theorem tagEnd_of_le (h : stop ≤ start) : tagEnd text start stop = .ok start := by
  rw [tagEnd, turns, skip, if_neg (Nat.not_lt.mpr h)]
  rfl

/-- A line that begins with no tag. -/
theorem tagged_of_head?_ne (h : Window text start stop cs) (hat : cs.head? ≠ some '@') :
    tagged text start stop = .ok ([], start) := by
  rw [tagged]
  split
  · next hfirst =>
    -- The byte belongs to what comes after an empty window, and no name follows it there.
    have hnil : cs = [] := by
      cases cs with
      | nil => rfl
      | cons c rest =>
        rw [byte?, h.firstByte, Option.some_inj, Utf8.lead_eq_ascii_iff (by decide)] at hfirst
        exact absurd (congrArg some hfirst) hat
    subst hnil
    have hstop := h.stop_eq
    rw [Text.size_nil] at hstop
    rw [tagEnd_of_le (by omega), ok_bind, if_neg (Nat.lt_irrefl _)]
    rfl
  · rfl

theorem marked_of_head?_ne (hat : cs.head? ≠ some '@') : marked cs = content cs := by
  unfold marked
  split
  · next rest => exact absurd rfl hat
  · rfl

/-- A tag before other lexemes. -/
theorem emitted_tag {w : List Char} (start : Nat) (ls : List Lexeme) :
    emitted start (⟨.docTagName, '@' :: w⟩ :: ls) =
      push .docTagName start (start + 1 + size w) ++ emitted (start + 1 + size w) ls := by
  rw [emitted_cons_eq _ _ (List.cons_ne_nil _ _), Text.size_cons, ← Nat.add_assoc]
  rfl

/-- The tag of a line is cut off, and what is left is its content. -/
theorem tagged_window (h : Window text start stop cs) : ∃ ls left,
    tagged text start stop = .ok (emitted start ls, start + size (ls.flatMap Lexeme.chars)) ∧
      Cuts ls left cs ∧ marked cs = ls ++ content left := by
  by_cases hat : cs.head? = some '@'
  · obtain ⟨rest, rfl⟩ := List.head?_eq_some_iff.mp hat
    have hname : Window text (start + 1) stop rest := h.tail
    have hfirst : byte? text start = some (ascii '@') := h.firstByte
    have hafter := hname.dropWhile isTagChar
    rw [tagged, if_pos hfirst, tagEnd_window hname, ok_bind, marked]
    simp only [drop_length_takeWhile]
    by_cases hnil : rest.takeWhile isTagChar = []
    · rw [hnil, if_neg (by simp)]
      exact ⟨[], '@' :: rest, rfl, .nil _, rfl⟩
    have htag : Window text start (start + 1 + size (rest.takeWhile isTagChar))
        ('@' :: rest.takeWhile isTagChar) := by
      rw [← List.takeWhile_append_dropWhile (p := isTagChar) (l := rest), ← List.cons_append] at h
      rw [Nat.add_assoc]
      exact h.left
    have hpos := Text.size_pos hnil
    have hparam : '@' :: rest.takeWhile isTagChar = "@param".toList ↔
        rest.takeWhile isTagChar = "param".toList := by
      rw [show "@param".toList = '@' :: "param".toList from rfl, List.cons_inj_right]
    have hsome : (rest.takeWhile isTagChar).isEmpty = false := List.isEmpty_eq_false_iff.mpr hnil
    rw [if_pos (by omega), slice_window htag, ok_bind]
    simp only [hparam, hsome, Bool.false_eq_true, if_false]
    split
    · rw [names_window hafter, ok_bind]
      refine ⟨_, _, ?_, cuts_tag (cuts_parameters _), rfl⟩
      rw [emitted_tag, List.flatMap_cons, Text.size_append, Text.size_cons, ← Nat.add_assoc,
        ← Nat.add_assoc]
      rfl
    · refine ⟨_, _, ?_, cuts_tag (.nil _), rfl⟩
      rw [emitted_tag, List.flatMap_cons, Text.size_append, Text.size_cons, ← Nat.add_assoc,
        ← Nat.add_assoc, emitted_nil, List.append_nil]
      rfl
  · exact ⟨[], cs, tagged_of_head?_ne h hat, .nil cs, marked_of_head?_ne hat⟩

theorem line_window (h : Window text start stop cs) :
    line text start stop = .ok (emitted start (Doc.line cs)) := by
  have hbody := h.dropWhile isGap
  rw [line, gapEnd_window h, ok_bind, slice_window hbody, ok_bind, Doc.line]
  dsimp only
  by_cases hmarker : ['#', '\x27'].isPrefixOf (cs.dropWhile isGap) = true
  · obtain ⟨rest, hrest⟩ := isPrefixOf_pair_iff.mp hmarker
    rw [if_pos hmarker, hrest]
    rw [hrest] at hbody
    have hafter : Window text (start + size (cs.takeWhile isGap) + 2) stop rest := hbody.tail.tail
    have hmarked := hafter.dropWhile isGap
    obtain ⟨ls, left, htagged, hcuts, heq⟩ := tagged_window hmarked
    have hleft := window_of_cuts hmarked hcuts
    rw [gapEnd_window hafter, ok_bind, htagged, ok_bind, content_window hleft, ok_bind]
    have hsize : size ['#', '\x27'] = 2 := by decide
    simp only [heq, List.cons_append]
    rw [emitted_nonempty_append, emitted_cons_eq _ _ (List.cons_ne_nil _ _),
      emitted_nonempty_append, emitted_append, hsize]
    simp only [List.append_assoc, pure_eq_ok]
  · rw [if_neg hmarker, emitted_nonempty_append]
    split
    · next rest hrest => exact absurd (isPrefixOf_pair_iff.mpr ⟨rest, hrest⟩) hmarker
    · rw [← push_eq, ← hbody.stop_eq]
      rfl

/-! ### Lines -/

/-- A line without a carriage return at its end. -/
def unreturned (w : List Char) : List Char := if w.getLast? = some '\r' then w.dropLast else w

theorem window_unreturned (h : Window text start stop cs) :
    Window text start (start + size (unreturned cs)) (unreturned cs) := by
  rw [unreturned]
  split
  · next hreturn =>
    obtain ⟨body, rfl⟩ := List.getLast?_eq_some_iff.mp hreturn
    rw [List.dropLast_concat]
    exact h.left
  · rw [← h.stop_eq]
    exact h

theorem contentEnd_window (h : Window text start stop cs) : contentEnd text start stop =
    .ok (start + size (unreturned cs)) := by
  have hlt := lt_stop_iff h
  rw [contentEnd]
  rcases List.eq_nil_or_concat cs with rfl | ⟨xs, c, rfl⟩
  · rw [if_neg (fun hne => hlt.mp hne rfl), h.stop_eq]
    rfl
  · rw [List.concat_eq_append] at *
    rw [if_pos (hlt.mpr (by simp)), byte, byte?, h.lastByte, unreturned, List.getLast?_concat,
      List.dropLast_concat, h.stop_eq]
    simp only [ok_bind, pure_eq_ok, Utf8.lastByte_eq_ascii_iff (d := '\r') (by decide),
      Option.some_inj]
    split
    · next hc =>
      subst hc
      rw [Text.size_append]
      rfl
    · rfl

theorem linesFrom_append {w : List Char} (hw : '\n' ∉ w) (more : List Char) : ∀ current,
    linesFrom current (w ++ more) = linesFrom (w.reverse ++ current) more := by
  induction w with
  | nil => intro current; rfl
  | cons c w ih =>
    intro current
    rw [List.mem_cons, not_or] at hw
    rw [List.cons_append, linesFrom, if_neg (Ne.symm hw.1), ih hw.2, List.reverse_cons,
      List.append_assoc, List.singleton_append]

theorem lines_of_le {n : Nat} (h : Text.byteLength text ≤ start) :
    lines text (n + 1) start = .ok [] := by
  rw [lines, if_neg (Nat.not_lt.mpr h)]
  rfl

/-- A line with its end, when it stands at a position. -/
theorem emitted_lineWithEnd (w : List Char) (ended : Bool) (start : Nat) :
    emitted start (lineWithEnd w ended) = emitted start (Doc.line (unreturned w)) ++
      (if ended then push .docNewline (start + size (unreturned w)) (start + size w + 1)
      else push .docWhitespace (start + size (unreturned w)) (start + size w)) := by
  have hchars := (cuts_line (unreturned w) []).chars
  rw [List.append_nil, List.append_nil] at hchars
  rw [lineWithEnd, ← unreturned, emitted_append, hchars]
  by_cases hreturn : w.getLast? = some '\r'
  · obtain ⟨body, rfl⟩ := List.getLast?_eq_some_iff.mp hreturn
    have hbody : unreturned (body ++ ['\r']) = body := by
      rw [unreturned, if_pos hreturn, List.dropLast_concat]
    rw [hbody, if_pos hreturn, if_pos hreturn, Text.size_append]
    cases ended with
    | true => exact congrArg _ (push_eq .docNewline (start + size body) ['\r', '\n']).symm
    | false => exact congrArg _ (push_eq .docWhitespace (start + size body) ['\r']).symm
  · have hbody : unreturned w = w := if_neg hreturn
    rw [hbody, if_neg hreturn, if_neg hreturn]
    cases ended with
    | true => exact congrArg _ (push_eq .docNewline (start + size w) ['\n']).symm
    | false => exact congrArg _ (push_eq .docWhitespace (start + size w) []).symm

theorem takeWhile_of_not_mem {w : List Char} (hw : d ∉ w) (more : List Char) :
    (w ++ more).takeWhile (· ≠ d) = w ++ more.takeWhile (· ≠ d) :=
  List.takeWhile_append_of_pos fun c hc => by simpa using fun hd : c = d => hw (hd ▸ hc)

theorem find?_of_not_mem {w : List Char} (hw : d ∉ w) (more : List Char) :
    find? (· = d) (w ++ d :: more) = some (size w) := by
  rw [find?_eq (q := (· ≠ d)) (by simp), takeWhile_of_not_mem hw]
  simp

theorem find?_eq_none (hcs : d ∉ cs) : find? (· = d) cs = none := by
  have hall := takeWhile_of_not_mem hcs []
  rw [List.append_nil, List.takeWhile_nil, List.append_nil] at hall
  rw [find?_eq (q := (· ≠ d)) (by simp), hall, if_neg (Nat.lt_irrefl _)]

/-- One turn over a line that a line feed ends. -/
theorem lines_of_ended {n : Nat} {w more : List Char} {ts : List Token} (hw : '\n' ∉ w)
    (h : Window text start (Text.byteLength text) (w ++ '\n' :: more))
    (hts : lines text n (start + size w + 1) = .ok ts) :
    lines text (n + 1) start = .ok (emitted start (lineWithEnd w true) ++ ts) := by
  have hline := h.left
  have hbefore : start + size w < Text.byteLength text :=
    (lt_stop_iff h.right).mpr (List.cons_ne_nil _ _)
  rw [lines, if_pos (by omega), slice_window h, ok_bind, find?_of_not_mem hw, Option.map_some,
    Option.getD_some]
  dsimp only
  rw [contentEnd_window hline, ok_bind, line_window (window_unreturned hline), ok_bind,
    if_pos hbefore, hts, ok_bind, emitted_lineWithEnd, if_pos rfl]
  rfl

/-- The last turn, over a line that the text ends. -/
theorem lines_of_last {n : Nat} (hne : cs ≠ []) (hcs : '\n' ∉ cs)
    (h : Window text start (Text.byteLength text) cs) :
    lines text (n + 2) start = .ok (emitted start (lineWithEnd cs false)) := by
  have hcontent := contentEnd_window h
  have hline := line_window (window_unreturned h)
  rw [lines, if_pos ((lt_stop_iff h).mpr hne), slice_window h, ok_bind, find?_eq_none hcs,
    Option.map_none, Option.getD_none]
  dsimp only
  rw [hcontent, ok_bind, hline, ok_bind, if_neg (Nat.lt_irrefl _), lines_of_le (Nat.le_succ _),
    ok_bind, List.append_nil, emitted_lineWithEnd, ← h.stop_eq]
  rfl

theorem lines_window (n : Nat) : ∀ {cs : List Char} {start : Nat},
    Window text start (Text.byteLength text) cs → cs.length < n →
      lines text n start = .ok (emitted start (linesFrom [] cs)) := by
  induction n with
  | zero => intro cs _ _ hn; exact absurd hn (Nat.not_lt_zero _)
  | succ n ih =>
    intro cs start h hn
    by_cases hended : '\n' ∈ cs
    · obtain ⟨w, more, rfl, hw⟩ := List.eq_append_cons_of_mem hended
      have hshorter : more.length < n := by
        rw [List.length_append, List.length_cons] at hn
        omega
      have hwhole := congrArg size (cuts_lineWithEnd w true []).chars
      rw [List.append_nil, if_pos rfl, Text.size_append] at hwhole
      rw [lines_of_ended hw h (ih h.right.tail hshorter), linesFrom_append hw, linesFrom,
        if_pos rfl, List.append_nil, List.reverse_reverse, emitted_append, hwhole,
        ← Nat.add_assoc]
      rfl
    · have hmodel := linesFrom_append hended [] []
      rw [List.append_nil, List.append_nil, linesFrom, List.reverse_reverse] at hmodel
      rw [hmodel]
      by_cases hne : cs = []
      · subst hne
        have hend : Text.byteLength text ≤ start := Nat.le_of_eq h.stop_eq
        rw [lines_of_le hend]
        rfl
      · have hpos := List.length_pos_iff.mpr hne
        obtain ⟨m, rfl⟩ := Nat.exists_eq_succ_of_ne_zero (n := n) (by omega)
        exact lines_of_last hne hended h

/-- The scanner never fails, and gives the tokens of the text. -/
theorem scan_eq (text : String) : scan text = .ok ((lexDoc text).map Token.capped) := by
  have hwhole := Window.ofText text
  have hchars := (cuts_ofChars text.toList).chars
  rw [List.append_nil] at hchars
  rw [scan, lines_window _ hwhole (length_lt_turns hwhole), ok_bind, lexDoc, place_eq_tile, hchars,
    Text.size_toList, Nat.zero_add, List.map_append]
  rfl

end RSource.DocScan
