import RSource.Proofs.Lexeme.Spelling

/-! How names are written.  What a rename puts in place of an identifier or a string literal is a
spelling that is read as one. -/

namespace RSource.Rename

open Lexeme

variable {c quote : Char} {w post : List Char} {l : Lexeme} {ls : List Lexeme}
variable {old name text : String}

/-! ### Identifiers -/

theorem scanAll_of_isPlain (h : isPlain name = true) :
    name.toList.head? ≠ some backtick ∧ scanAll name.toList = [⟨.identifier, name.toList⟩] := by
  rw [isPlain, Bool.and_eq_true] at h
  obtain ⟨hhead, hlex⟩ := h
  split at hlex
  · next token ending hpair =>
    simp only [Bool.and_eq_true, beq_iff_eq] at hlex
    have hlast : ending.kind = .endOfFile := by
      have hend := congrArg List.getLast? (lex_eq_tile name)
      rw [hpair, List.getLast?_concat] at hend
      exact congrArg Token.kind (Option.some.inj hend)
    have htoken : IsToken .identifier name := by
      rw [IsToken, hpair, List.map_cons, List.map_singleton, hlex.1, hlast]
    exact ⟨by simpa [backtick] using hhead, htoken.scanAll_eq (by decide) (by decide)⟩
  · cases hlex

theorem toList_backticked (name : String) :
    (toString "`" ++ toString name ++ toString "`").toList =
      backtick :: (name.toList ++ [backtick]) := by
  rw [String.toList_append, String.toList_append]
  rfl

theorem respells_identifierText (hl : l.kind = .identifier) (hold : l.chars = old.toList)
    (h : identifierText old name = .ok text) : Respells l text.toList := by
  rw [identifierText] at h
  split at h
  · split at h
    · cases h
    · next hname =>
      obtain rfl := Except.ok.inj h
      rw [toList_backticked]
      exact respells_backticked hl (by simpa [backtick] using hname)
  · next hplain =>
    obtain rfl := Except.ok.inj h
    simp only [Bool.or_eq_true, not_or, Bool.not_eq_eq_eq_not, Bool.not_true,
      Bool.not_eq_false] at hplain
    obtain ⟨hhead, hscan⟩ := scanAll_of_isPlain hplain.2
    refine respells_word hl ?_ hhead hscan
    intro hback
    obtain ⟨x, xs, hcons⟩ : ∃ x xs, old.toList = x :: xs := by
      cases hchars : old.toList with
      | nil => simp [hold, hchars] at hback
      | cons x xs => exact ⟨x, xs, rfl⟩
    rw [hold, hcons] at hback
    obtain rfl : x = backtick := Option.some.inj hback
    exact hplain.1 (by rw [hcons]; rfl)

/-! ### String literals -/

theorem size_replicate_dash (n : Nat) : Text.size (List.replicate n '-') = n := by
  induction n with
  | zero => rfl
  | succ n ih =>
    rw [List.replicate_succ, Text.size_cons, ih, Nat.add_comm]
    rfl

/-- The pieces of a text that is given as characters in three parts. -/
theorem slice_pieces (before middle after : List Char) {start stop : Nat}
    (hold : old.toList = before ++ middle ++ after) (hstart : start = Text.size before)
    (hstop : stop = start + Text.size middle) :
    Text.slice old ⟨start, stop⟩ = String.ofList middle := by
  subst hstart hstop
  rw [← Text.slice_ofList before middle after, ← hold, String.ofList_toList]

theorem size_isQuote (h : isQuote quote = true) : quote.utf8Size = 1 := by
  rcases isQuote_cases h with rfl | rfl
  · decide
  · decide

/-- What is written between delimiters of known text. -/
theorem stringText_eq {before middle after : List Char} {opening closing : Nat}
    (hdelimiters : StringLiteral.delimiters? old = some (opening, closing))
    (hold : old.toList = before ++ middle ++ after) (hopening : opening = Text.size before)
    (hclosing : closing = Text.size after) (h : stringText old name = .ok text) :
    hasPart after name.toList = false ∧ text.toList = before ++ name.toList ++ after ∧
      (opening ≤ 1 → (before.getLast?).getD '"' ∉ name.toList ∧ '\\' ∉ name.toList) := by
  have hlength : Text.byteLength old = Text.size before + Text.size middle + Text.size after := by
    rw [← Text.size_toList, hold, Text.size_append, Text.size_append]
  have hopener : Text.slice old ⟨0, opening⟩ = String.ofList before :=
    slice_pieces [] before (middle ++ after) (by simp [hold]) rfl (by simp [hopening])
  have hcloser : Text.slice old ⟨Text.byteLength old - closing, Text.byteLength old⟩ =
      String.ofList after :=
    slice_pieces (before ++ middle) after [] (by simp [hold])
      (by rw [Text.size_append]; omega) (by omega)
  simp only [stringText, hdelimiters, hopener, hcloser, String.toList_ofList] at h
  split at h
  · cases h
  · next hfree =>
    obtain rfl := Except.ok.inj h
    simp only [Bool.or_eq_true, Bool.and_eq_true, decide_eq_true_eq, not_or, not_and,
      Bool.not_eq_true, List.contains_eq_mem] at hfree
    refine ⟨hfree.1, ?_, fun hle => ?_⟩
    · simp
    · exact not_or.mp (by simpa using hfree.2 hle)

theorem delimiters?_quoted {body : List Char} (hstart : Start.of c = .string)
    (hold : old.toList = c :: (body ++ [c])) : StringLiteral.delimiters? old = some (1, 1) := by
  have hsize : 2 ≤ Text.byteLength old := by
    have hpos := c.utf8Size_pos
    rw [← Text.size_toList, hold, Text.size_cons, Text.size_append, Text.size_cons]
    omega
  rw [StringLiteral.delimiters?, hold]
  split
  · next hr =>
    obtain ⟨rfl, -⟩ := List.cons.inj hr
    exact absurd hstart (by decide)
  · next hr =>
    obtain ⟨rfl, -⟩ := List.cons.inj hr
    exact absurd hstart (by decide)
  · rw [if_pos hsize]

theorem size_rawCloser {bracket close : Char} (dashes : Nat) (hquote : isQuote quote = true)
    (hbracket : closingBracket? bracket = some close) :
    Text.size (rawCloser close dashes quote) = dashes + 2 := by
  have hclose : close.utf8Size = 1 := by
    rcases closingBracket?_cases hbracket with ⟨-, rfl⟩ | ⟨-, rfl⟩ | ⟨-, rfl⟩
    · decide
    · decide
    · decide
  rw [rawCloser, Text.size_append, Text.size_cons, size_replicate_dash, Text.size_cons, hclose,
    size_isQuote hquote, Text.size_nil]
  omega

/-- What stands before the contents of a raw string. -/
def rawOpener (c quote bracket : Char) (dashes : Nat) : List Char :=
  c :: quote :: (List.replicate dashes '-' ++ [bracket])

theorem size_rawOpener {bracket close : Char} (dashes : Nat) (hc : c = 'r' ∨ c = 'R')
    (hquote : isQuote quote = true) (hbracket : closingBracket? bracket = some close) :
    Text.size (rawOpener c quote bracket dashes) = 3 + dashes := by
  have hletter : c.utf8Size = 1 := by
    rcases hc with rfl | rfl
    · decide
    · decide
  have hopen : bracket.utf8Size = 1 := by
    rcases closingBracket?_cases hbracket with ⟨rfl, -⟩ | ⟨rfl, -⟩ | ⟨rfl, -⟩
    · decide
    · decide
    · decide
  rw [rawOpener, Text.size_cons, Text.size_cons, Text.size_append, size_replicate_dash,
    Text.size_cons, hletter, hopen, size_isQuote hquote, Text.size_nil]
  omega

theorem cons_rawText (c quote bracket close : Char) (dashes : Nat) (part : List Char) :
    c :: rawText quote bracket close dashes part =
      rawOpener c quote bracket dashes ++ part ++ rawCloser close dashes quote := by
  simp [rawText, rawOpener]

theorem delimiters?_raw {bracket close : Char} {dashes : Nat} {part : List Char}
    (hc : c = 'r' ∨ c = 'R') (hquote : isQuote quote = true)
    (hbracket : closingBracket? bracket = some close)
    (hold : old.toList = c :: rawText quote bracket close dashes part) :
    StringLiteral.delimiters? old = some (3 + dashes, 2 + dashes) := by
  have hsize : 5 + 2 * dashes ≤ Text.byteLength old := by
    rw [← Text.size_toList, hold, cons_rawText, Text.size_append, Text.size_append,
      size_rawOpener dashes hc hquote hbracket, size_rawCloser dashes hquote hbracket]
    omega
  have hdashes : ((List.replicate dashes '-' ++
      bracket :: (part ++ rawCloser close dashes quote)).takeWhile (· == '-')).length = dashes :=
    runLength_dashes (ne_dash_of_closingBracket? hbracket).1 dashes _
  rw [StringLiteral.delimiters?, hold, rawText]
  rcases hc with rfl | rfl
  · simp only [size_isQuote hquote, if_true, hdashes, if_pos hsize]
  · simp only [size_isQuote hquote, if_true, hdashes, if_pos hsize]

theorem respells_stringText (hl : l.kind = .string) (hold : l.chars = old.toList)
    (h : stringText old name = .ok text) : Respells l text.toList := by
  refine ⟨.inr hl, fun post ls hscan hsound hapart => ?_⟩
  obtain ⟨c, w, hchars, hw, -⟩ := scanAll_append_cons hscan
  rw [hl] at hw
  have hfirst : old.toList = c :: w := hold.symm.trans hchars
  cases stringForm_of_scan hw with
  | quoted hstart body hbody =>
    subst hbody
    have hpieces : old.toList = [c] ++ body ++ [c] := hfirst
    have hone : c.utf8Size = 1 := size_isQuote (Start.known hstart)
    obtain ⟨-, htext, hplain⟩ := stringText_eq (delimiters?_quoted hstart hfirst) hpieces
      (by rw [Text.size_cons, hone]; rfl) (by rw [Text.size_cons, hone]; rfl) h
    obtain ⟨hquote, hescape⟩ := hplain (Nat.le_refl 1)
    rw [htext]
    exact respelled_string hl hchars hscan (scan_quoted hstart hquote hescape post)
  | raw hc quote bracket close dashes part hquote hbracket hraw =>
    subst hraw
    have hpieces := hfirst.trans (cons_rawText c quote bracket close dashes part)
    obtain ⟨hfree, htext, -⟩ := stringText_eq (delimiters?_raw hc hquote hbracket hfirst) hpieces
      (size_rawOpener dashes hc hquote hbracket).symm
      (by rw [size_rawCloser dashes hquote hbracket, Nat.add_comm]) h
    rw [htext, ← cons_rawText]
    exact respelled_string hl hchars hscan (scan_raw hc hquote hbracket hfree post)

end RSource.Rename
