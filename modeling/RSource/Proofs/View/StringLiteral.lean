import RSource.Proofs.Except
import RSource.Proofs.Lexeme.ReadBack
import RSource.Proofs.Lexeme.Reserved
import RSource.Proofs.Reparse
import RSource.Proofs.Tree.Rows

/-! The parts of string literals.  The text of a literal is an opener, contents and the closer that
belongs to the opener, and the contents do not end before the closer (`exists_delimited`).  What is
counted off the text are these parts (`Delimited.parts`), so that every literal has a name. -/

namespace RSource

open Lexeme Rename

variable {c quote : Char} {cs w post opener contents closer : List Char} {text : String}

/-- A text does not stand before the first place where it stands. -/
theorem Lexeme.not_prefix_of_distanceTo? {goal : List Char} {n m : Nat}
    (h : distanceTo? goal cs = some n) (hm : m < n) : ¬ goal <+: cs.drop m := by
  induction cs generalizing n m with
  | nil =>
    cases goal with
    | nil =>
      obtain rfl := Option.some.inj h
      exact absurd hm (Nat.not_lt_zero m)
    | cons g goal => cases h
  | cons c cs ih =>
    rw [distanceTo?] at h
    split at h
    · obtain rfl := Option.some.inj h
      exact absurd hm (Nat.not_lt_zero m)
    · next hprefix =>
      obtain ⟨n, hn, rfl⟩ := Option.map_eq_some_iff.mp h
      cases m with
      | zero => exact fun hfirst => hprefix (List.isPrefixOf_iff_prefix.mpr hfirst)
      | succ m => exact ih hn (Nat.lt_of_succ_lt_succ hm)

/-- A closed raw string ends where its closer first stands. -/
theorem Lexeme.not_prefix_of_scanRaw {bracket close : Char} {dashes : Nat} {part : List Char}
    (hbracket : closingBracket? bracket = some close)
    (h : scanRaw quote (List.replicate dashes '-' ++
        bracket :: (part ++ rawCloser close dashes quote)) =
      (.string, (rawText quote bracket close dashes part).length)) :
    ∀ n < part.length,
      ¬ rawCloser close dashes quote <+: (part ++ rawCloser close dashes quote).drop n := by
  obtain ⟨bracket', body, close', m, hdrop, hbracket', hgoal, hlength⟩ := scanRaw_eq_string_iff.mp h
  rw [runLength_dashes (ne_dash_of_closingBracket? hbracket).1] at hdrop hgoal hlength
  rw [List.drop_left' List.length_replicate] at hdrop
  obtain ⟨rfl, rfl⟩ := List.cons.inj hdrop
  obtain rfl := Option.some.inj (hbracket'.symm.trans hbracket)
  have hm : m = part.length := by
    simp only [rawText, List.length_cons, List.length_append, List.length_replicate,
      length_rawCloser] at hlength
    omega
  exact fun n hn => not_prefix_of_distanceTo? hgoal (hm ▸ hn)

namespace StringLiteral

/-- An opener, contents and the closer that belongs to the opener.  A quoted literal has the same
quote at both ends and characters between them that do not end it.  A raw one has a letter, a quote,
dashes and a bracket, and ends where the matching bracket, as many dashes and the same quote stand for
the first time. -/
inductive Delimited : List Char → List Char → List Char → Prop
  | quoted {quote : Char} {contents : List Char} (hquote : isQuote quote = true)
      (h : Escaped quote contents) : Delimited [quote] contents [quote]
  | raw {letter quote bracket close : Char} {dashes : Nat} {contents : List Char}
      (hletter : letter = 'r' ∨ letter = 'R') (hquote : isQuote quote = true)
      (hbracket : closingBracket? bracket = some close)
      (hfirst : ∀ n < contents.length,
        ¬ rawCloser close dashes quote <+: (contents ++ rawCloser close dashes quote).drop n) :
      Delimited (rawOpener letter quote bracket dashes) contents (rawCloser close dashes quote)

theorem exists_delimited_of_scan (h : scan c (w ++ post) = (.string, w.length)) :
    ∃ opener contents closer, Delimited opener contents closer ∧
      c :: w = opener ++ contents ++ closer := by
  cases stringForm_of_scan h with
  | quoted hstart body hbody =>
    rw [scan_eq, hstart, Start.scan, scanString_append_iff, scanString_eq_iff] at h
    obtain ⟨contents, rfl, hcontents⟩ := exists_escaped_of_quotedLength h
    exact ⟨[c], contents, [c], .quoted (Start.known hstart) hcontents, rfl⟩
  | raw hc quote bracket close dashes part hquote hbracket hraw =>
    subst hraw
    rw [rawText, List.cons_append, scan_cons_quote hc hquote] at h
    exact ⟨rawOpener c quote bracket dashes, part, rawCloser close dashes quote,
      .raw hc hquote hbracket (not_prefix_of_scanRaw hbracket ((scanRaw_append_iff _ post).mp h)),
      cons_rawText c quote bracket close dashes part⟩

/-- The text of a string token is a literal. -/
theorem exists_delimited {before after : List Lexeme} {l : Lexeme}
    (h : ofText text = before ++ l :: after) (hl : l.kind = .string) :
    ∃ opener contents closer, Delimited opener contents closer ∧
      l.chars = opener ++ contents ++ closer := by
  obtain ⟨c, w, hchars, hscan⟩ := exists_scan_of_ofText h (by rw [hl]; decide) (by rw [hl]; decide)
    (by rw [hl]; decide)
  rw [hchars]
  rw [hl] at hscan
  exact exists_delimited_of_scan hscan

theorem Delimited.delimiters?_eq (h : Delimited opener contents closer) :
    delimiters? (String.ofList (opener ++ contents ++ closer)) =
      some (Text.size opener, Text.size closer) := by
  cases h with
  | @quoted quote _ hquote _ =>
    have hstart : Start.of quote = .string := by
      rcases isQuote_cases hquote with rfl | rfl
      · decide
      · decide
    rw [Text.size_cons, size_isQuote hquote]
    exact delimiters?_quoted hstart String.toList_ofList
  | @raw letter quote bracket close dashes _ hletter hquote hbracket _ =>
    rw [size_rawOpener dashes hletter hquote hbracket, size_rawCloser dashes hquote hbracket,
      Nat.add_comm dashes 2, ← cons_rawText]
    exact delimiters?_raw hletter hquote hbracket String.toList_ofList

/-- A text is a literal with these parts, and what is read off it agrees with them: the delimiters are
counted as they are, without an overlap, with a cut between characters on both sides of the contents. -/
structure Parts (text : String) (opener contents closer : List Char) : Prop where
  delimited : Delimited opener contents closer
  spelled : text = String.ofList (opener ++ contents ++ closer)
  counted : delimiters? text = some (Text.size opener, Text.size closer)
  apart : Text.size opener + Text.size contents + Text.size closer = Text.byteLength text
  opened : Text.isBoundary text (Text.size opener) = true
  closed : Text.isBoundary text (Text.byteLength text - Text.size closer) = true
  read : contents? text = some (String.ofList contents)

theorem Delimited.parts (h : Delimited opener contents closer)
    (htext : text = String.ofList (opener ++ contents ++ closer)) :
    Parts text opener contents closer := by
  have hcounted : delimiters? text = some (Text.size opener, Text.size closer) :=
    htext ▸ h.delimiters?_eq
  have hsize : Text.size opener + Text.size contents + Text.size closer =
      Text.byteLength text := by
    rw [htext, ← Text.size_eq_byteLength, Text.size_append, Text.size_append]
  have hcut : Text.byteLength text - Text.size closer = Text.size (opener ++ contents) := by
    rw [← hsize, Text.size_append, Nat.add_sub_cancel]
  refine ⟨h, htext, hcounted, hsize, ?_, ?_, contents?_eq hcounted ?_⟩
  · rw [htext, List.append_assoc]
    exact Text.isBoundary_ofList _ _
  · rw [hcut, htext]
    exact Text.isBoundary_ofList _ _
  · rw [htext, String.toList_ofList, String.toList_ofList]

/-- Every string token has parts. -/
theorem exists_parts {token : Token} (htoken : token ∈ lex text) (hkind : token.kind = .string) :
    ∃ opener contents closer, Parts (token.text text) opener contents closer := by
  rw [lex_eq_tile] at htoken
  rcases List.mem_append.mp htoken with htoken | htoken
  · obtain ⟨before, l, after, hsplit, rfl⟩ := mem_tile htoken
    obtain ⟨opener, contents, closer, hdelimited, hchars⟩ := exists_delimited hsplit hkind
    have htext := slice_lexeme hsplit
    rw [hchars, ← Nat.zero_add (Text.size _)] at htext
    exact ⟨opener, contents, closer, hdelimited.parts htext⟩
  · obtain rfl := List.mem_singleton.mp htoken
    cases hkind

/-- Every string literal of a parsed text is a string token of it. -/
theorem exists_token_of_isKind {limit : Nat} {p : Parse} {id : NodeId}
    (hp : parse text limit = .ok p) (hid : p.tree.isKind .stringLiteralExpression id) :
    ∃ token ∈ lex text, token.kind = .string ∧ p.tree.textOf id = token.text text := by
  obtain ⟨os, more, hfound⟩ := Grammar.found (lex text)
  have hbuild := (parseTokens_eq_ok hfound hp).1
  obtain ⟨leaf, -, hspan, k, hk, hleaf⟩ :=
    hfound.exists_tokenLeaf hbuild (of_decide_eq_true hid) rfl (by decide) rfl
  obtain rfl := List.mem_singleton.mp hk
  obtain ⟨before, l, after, hsplit, hkind, -, htext⟩ := exists_lexeme_of_leaf hfound hbuild hleaf
  have hsame : p.tree.textOf id = p.tree.textOf leaf := by
    rw [SyntaxTree.textOf, SyntaxTree.textOf, hspan]
  exact ⟨_, List.mem_of_getElem? (getElem?_lex hsplit), hkind,
    hsame.trans (htext.trans (slice_lexeme hsplit).symm)⟩

end StringLiteral

open StringLiteral

/-- Whatever the text is, every string token in it is an opener, contents and the closer that belongs
to the opener, where the closer of a raw string does not stand any earlier, and these are the parts
that are counted off its text.  Every string literal of the parsed text is such a token, so that it
has a name. -/
theorem parts_of_lex (text : String) :
    (∀ token ∈ lex text, token.kind = .string →
      ∃ opener contents closer, Parts (token.text text) opener contents closer) ∧
    ∀ limit p, parse text limit = .ok p → ∀ id, p.tree.isKind .stringLiteralExpression id →
      ∃ token ∈ lex text, token.kind = .string ∧ p.tree.textOf id = token.text text ∧
        (name? p.tree id).isSome := by
  refine ⟨fun token => exists_parts, fun limit p hp id hid => ?_⟩
  obtain ⟨token, htoken, hkind, htext⟩ := exists_token_of_isKind hp hid
  obtain ⟨opener, contents, closer, hparts⟩ := exists_parts htoken hkind
  refine ⟨token, htoken, hkind, htext, ?_⟩
  rw [name?, htext, hparts.read]
  rfl

/-- A raw string with one dash whose contents are a bracket and a quote. -/
theorem parts_of_lex_raw : ∃ token ∈ lex "R\"-[]\"]-\"", token.kind = .string ∧
    (∃ opener contents closer, Parts (token.text "R\"-[]\"]-\"") opener contents closer) ∧
    contents? (token.text "R\"-[]\"]-\"") = some "]\"" ∧
    ∃ p, parse "R\"-[]\"]-\"" 1 = .ok p ∧ p.tree.isKind .stringLiteralExpression 1 = true ∧
      ∃ token ∈ lex "R\"-[]\"]-\"", token.kind = .string ∧
        p.tree.textOf 1 = token.text "R\"-[]\"]-\"" ∧ (name? p.tree 1).isSome := by
  have hlex : (⟨.string, ⟨0, 9⟩⟩ : Token) ∈ lex "R\"-[]\"]-\"" := by
    decide +kernel
  have hread : contents? (Token.text ⟨.string, ⟨0, 9⟩⟩ "R\"-[]\"]-\"") = some "]\"" := by
    decide +kernel
  have hparse : (parse "R\"-[]\"]-\"" 1).toOption.any
      (fun p => p.tree.isKind .stringLiteralExpression 1) = true := by
    decide +kernel
  obtain ⟨p, hp, hid⟩ := exists_of_any_toOption hparse
  obtain ⟨htokens, hliterals⟩ := parts_of_lex "R\"-[]\"]-\""
  exact ⟨_, hlex, rfl, htokens _ hlex rfl, hread, p, hp, hid, hliterals 1 p hp 1 hid⟩

end RSource
