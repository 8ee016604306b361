import RSource.Proofs.Lexeme.Cover
import RSource.Proofs.Lexeme.Paired
import RSource.Proofs.Lexeme.ReadBack
import RSource.Proofs.Text.Utf8

/-! Reserved words.  A reserved word is read as a keyword, whatever ASCII character or line end
comes after it.  Directly before some characters outside ASCII it is read as a name: before those
whose UTF-8 form begins with a byte that letters or numbers begin with too. -/

namespace RSource

open Lexeme
open Utf8 (leadByte leadByte_lt head?_encodeChar)

variable {c : Char} {text : String}

/-! ### First bytes -/

theorem head?_encodeChar_eq_iff {d : Char} :
    (Utf8.encodeChar d).head? = (Utf8.encodeChar c).head? ↔
      leadByte d.toNat = leadByte c.toNat := by
  rw [head?_encodeChar, head?_encodeChar, Option.some_inj]
  refine ⟨fun h => ?_, fun h => by rw [h]⟩
  have hnat := congrArg UInt8.toNat h
  rwa [Utf8.toNat_byte (leadByte_lt d), Utf8.toNat_byte (leadByte_lt c)] at hnat

/-- The character is outside ASCII, and the first byte of its UTF-8 form is that of some letter or
number. -/
def BeginsLikeName (c : Char) : Prop :=
  0x80 ≤ c.toNat ∧ ∃ d, (Unicode.isLetter d || Unicode.isNumber d) = true ∧
    (Utf8.encodeChar d).head? = (Utf8.encodeChar c).head?

/-- For each first byte outside ASCII that letters or numbers have, one of them. -/
def leadSamples : List Nat := [
  0xAA, 0xC0, 0x100, 0x140, 0x180, 0x1C0, 0x200, 0x240, 0x280, 0x2C0, 0x370, 0x386, 0x3C0, 0x400,
  0x440, 0x480, 0x4C0, 0x500, 0x540, 0x580, 0x5D0, 0x620, 0x640, 0x680, 0x6C0, 0x710, 0x74D, 0x780,
  0x7CA, 0x800, 0x1000, 0x2071, 0x3005, 0x4000, 0x5000, 0x6000, 0x7000, 0x8000, 0x9000, 0xA000,
  0xB000, 0xC000, 0xD000, 0xF900, 0x10000]

theorem exists_leadSample : ∀ k < 0xF1, 0xC2 ≤ k → k ≠ 0xCC → k ≠ 0xEE →
    ∃ n ∈ leadSamples, leadByte n = k := by
  decide +kernel

theorem isLetter_leadSamples : ∀ n ∈ leadSamples,
    Unicode.isLetter (Char.ofNat n) = true ∧ (Char.ofNat n).toNat = n := by
  decide +kernel

/-- No letter and no number begins with the byte CC or EE, or with one from F1 on. -/
theorem bounds_of_covers {ranges : List Unicode.Range} {d : Char}
    (hranges : ranges ∈ [Unicode.letterRanges, Unicode.numberRanges])
    (h : Unicode.covers ranges d = true) :
    ¬ (0x300 ≤ d.toNat ∧ d.toNat < 0x340) ∧ ¬ (0xE000 ≤ d.toNat ∧ d.toNat < 0xF000) ∧
      d.toNat < 0x40000 := by
  have hall : ∀ ranges ∈ [Unicode.letterRanges, Unicode.numberRanges], ∀ r ∈ ranges,
      (r.2 < 0x300 ∨ 0x340 ≤ r.1) ∧ (r.2 < 0xE000 ∨ 0xF000 ≤ r.1) ∧ r.2 < 0x40000 := by
    decide +kernel
  obtain ⟨r, hr, hin⟩ := List.any_eq_true.mp h
  simp only [Bool.and_eq_true, decide_eq_true_eq] at hin
  have hbounds := hall ranges hranges r hr
  omega

theorem sharesLeadByte_iff : sharesLeadByte c = true ↔ BeginsLikeName c := by
  have hc := Utf8.toNat_cases c
  simp only [BeginsLikeName, head?_encodeChar_eq_iff]
  constructor
  · intro h
    simp only [sharesLeadByte, Bool.and_eq_true, Bool.not_eq_true', decide_eq_true_eq,
      Bool.and_eq_false_iff, decide_eq_false_iff_not] at h
    have hlead : leadByte c.toNat < 0xF1 ∧ 0xC2 ≤ leadByte c.toNat ∧ leadByte c.toNat ≠ 0xCC ∧
        leadByte c.toNat ≠ 0xEE := by
      simp only [leadByte]
      repeat' split
      all_goals omega
    obtain ⟨n, hn, hsame⟩ := exists_leadSample _ hlead.1 hlead.2.1 hlead.2.2.1 hlead.2.2.2
    obtain ⟨hletter, hcode⟩ := isLetter_leadSamples n hn
    exact ⟨by omega, Char.ofNat n, by rw [hletter]; rfl, by rw [hcode, hsame]⟩
  · rintro ⟨hascii, d, hname, hsame⟩
    have hd : 0x80 ≤ d.toNat := by
      simp only [leadByte] at hsame
      repeat' split at hsame
      all_goals omega
    have hbounds : ¬ (0x300 ≤ d.toNat ∧ d.toNat < 0x340) ∧
        ¬ (0xE000 ≤ d.toNat ∧ d.toNat < 0xF000) ∧ d.toNat < 0x40000 := by
      rw [Bool.or_eq_true, Unicode.isLetter, Unicode.isNumber, if_neg (by omega),
        if_neg (by omega)] at hname
      exact hname.elim (bounds_of_covers (by simp)) (bounds_of_covers (by simp))
    have hcbounds : ¬ (0x300 ≤ c.toNat ∧ c.toNat < 0x340) ∧
        ¬ (0xE000 ≤ c.toNat ∧ c.toNat < 0xF000) ∧ c.toNat < 0x40000 := by
      simp only [leadByte] at hsame
      repeat' split at hsame
      all_goals omega
    simp only [sharesLeadByte, Bool.and_eq_true, Bool.not_eq_true', decide_eq_true_eq,
      Bool.and_eq_false_iff, decide_eq_false_iff_not]
    omega

namespace Lexeme

variable {w rest : List Char} {k : TokenKind} {entry : String × TokenKind}

/-! ### Scanning -/

theorem reserved?_of_mem (h : entry ∈ reserved) : reserved? entry.1.toList = some entry.2 := by
  have hall : ∀ entry ∈ reserved, reserved? entry.1.toList = some entry.2 := by decide
  exact hall entry h

/-- Reserved words begin with two letters or with two points. -/
theorem exists_cons_of_reserved (h : entry ∈ reserved) : ∃ c q w, entry.1.toList = c :: q :: w ∧
    (Start.of c = .letter ∧ isQuote q = false ∨ c = '.' ∧ q = '.') := by
  have hall : ∀ entry ∈ reserved, (entry.1.toList.head?.any fun c =>
      entry.1.toList.tail.head?.any fun q =>
        decide (Start.of c = .letter ∧ isQuote q = false ∨ c = '.' ∧ q = '.')) = true := by
    decide
  have hentry := hall entry h
  simp only [Option.any_eq_true, decide_eq_true_eq] at hentry
  obtain ⟨c, hc, q, hq, hform⟩ := hentry
  obtain ⟨v, hv⟩ := List.head?_eq_some_iff.mp hc
  rw [hv, List.tail_cons] at hq
  obtain ⟨w, rfl⟩ := List.head?_eq_some_iff.mp hq
  exact ⟨c, q, w, hv, hform⟩

/-- What is spelled like a reserved word is read as a word. -/
theorem scan_of_reserved (h : entry ∈ reserved) (hchars : entry.1.toList = c :: w)
    (hscan : scan c (w ++ rest) = (k, w.length)) :
    k = if rest.head?.any sharesLeadByte then .identifier else entry.2 := by
  obtain ⟨c', q, v, hspelled, hform⟩ := exists_cons_of_reserved h
  obtain ⟨rfl, rfl⟩ := List.cons.inj (hspelled.symm.trans hchars)
  have hword : scanWord c' (q :: v ++ rest) = (k, (q :: v).length) := by
    rw [List.cons_append] at hscan ⊢
    rw [scan_eq] at hscan
    rcases hform with ⟨hletter, hquote⟩ | ⟨rfl, rfl⟩
    · rw [hletter, Start.scan, scanLetter, ← isQuote, hquote, Bool.and_false] at hscan
      exact hscan
    · exact hscan
  rw [scanWord] at hword
  have hrun : runLength isNameChar (q :: v ++ rest) = (q :: v).length := congrArg Prod.snd hword
  have hkind := congrArg Prod.fst hword
  simp only [hrun, List.take_left, List.drop_left, wordKind] at hkind
  rw [← hkind, ← hchars, reserved?_of_mem h, Option.getD_some]

/-! ### The lexemes of a text -/

variable {before after : List Lexeme} {l : Lexeme}

/-- A lexeme that is not put together from others is scanned where it stands. -/
theorem exists_scan_of_ofText (h : ofText text = before ++ l :: after)
    (hmerge : TokenStream.defaultMerge.contains l.kind = false) (hsingle : l.kind ≠ .rightBracket)
    (hdouble : l.kind ≠ .rightDoubleBracket) : ∃ c w, l.chars = c :: w ∧
      scan c (w ++ after.flatMap Lexeme.chars) = (l.kind, w.length) := by
  have hcut := h
  rw [ofText, ofChars] at hcut
  obtain ⟨ps, qs, hpair, rfl, rfl⟩ := split_fuse hmerge _ hcut
  obtain ⟨xs, ys, hscan, hxs, -⟩ := split_pairBrackets [] hpair hsingle hdouble
  have htext := flatMap_chars_ofText text
  have hall := flatMap_chars_scanAll text.toList
  rw [h, List.flatMap_append, List.flatMap_cons, flatMap_chars_fuse, flatMap_chars_fuse] at htext
  rw [hscan, List.flatMap_append, List.flatMap_cons, hxs, ← htext] at hall
  have hys : ys.flatMap Lexeme.chars = qs.flatMap Lexeme.chars :=
    List.append_cancel_left (List.append_cancel_left hall)
  have hrest : scanAll (l.chars ++ ys.flatMap Lexeme.chars) = l :: ys := by
    have hsuffix : scanAll (textThen xs (l.chars ++ ys.flatMap Lexeme.chars)) = xs ++ l :: ys := by
      rw [textThen, hxs, hys, htext, hscan]
    exact scanAll_suffix hsuffix
  obtain ⟨c, w, hchars, hc, -⟩ := scanAll_append_cons hrest
  rw [flatMap_chars_fuse, ← hys]
  exact ⟨c, w, hchars, hc⟩

theorem isSpace_of_mem_ofText (h : l ∈ ofText text) (hkind : l.kind = .whitespace) :
    l.chars.head?.any isSpace = true := by
  have hstart : ∀ start : Start, .whitespace ∈ start.kinds → start = .space := by
    intro start
    cases start <;> decide
  refine forall_mem_ofText (P := fun m => m.kind = .whitespace → m.chars.head?.any isSpace = true)
    (fun c cs hscan => ?_) (fun _ _ _ _ hnone => by cases hnone) (fun m n hm _ hspace => ?_) text
    l h hkind
  · exact Start.known (hstart _ (hscan ▸ scan_kind c cs))
  · have hhead := hm hspace
    cases hchars : m.chars with
    | nil => rw [hchars] at hhead; cases hhead
    | cons x xs => rw [hchars] at hhead; exact hhead

/-- A lexeme that is spelled like a reserved word is no white space and no bracket. -/
theorem kind_ne_of_reserved (h : l ∈ ofText text) (hentry : entry ∈ reserved)
    (hchars : l.chars = entry.1.toList) :
    TokenStream.defaultMerge.contains l.kind = false ∧ l.kind ≠ .rightBracket ∧
      l.kind ≠ .rightDoubleBracket := by
  have hspelled : ∀ entry ∈ reserved, entry.1.toList.head?.any isSpace = false ∧
      entry.1.toList ≠ closer.chars ∧ entry.1.toList ≠ doubleCloser.chars := by
    decide
  obtain ⟨hspace, hcloser, hdoubleCloser⟩ := hspelled entry hentry
  have hmerge : TokenStream.defaultMerge.contains l.kind = false := by
    refine Bool.eq_false_iff.mpr fun hcontains => ?_
    have hhead := isSpace_of_mem_ofText h (TokenSet.contains_single.mp hcontains)
    rw [hchars, hspace] at hhead
    cases hhead
  have hdouble : l.kind ≠ .rightDoubleBracket := fun hkind => by
    have heq := chars_of_mem_pairBrackets (unpaired_of_mem_scanAll _) l
      (mem_of_mem_fuse hmerge h) hkind
    exact hdoubleCloser (by rw [← hchars, heq])
  refine ⟨hmerge, fun hkind => ?_, hdouble⟩
  have heq := (unpaired_of_mem_scanAll _ l (mem_scanAll_of_mem_ofText h hmerge hdouble)).2 hkind
  exact hcloser (by rw [← hchars, heq])

end Lexeme

/-- A token that is spelled like a reserved word is that keyword, unless the next character is
outside ASCII and its UTF-8 form begins like that of a letter or number: then, and only then, the
token is an identifier. -/
theorem kind_of_reserved {t : Token} {entry : String × TokenKind} (ht : t ∈ lex text)
    (hentry : entry ∈ reserved) (hword : t.text text = entry.1) :
    (t.kind = .identifier ↔
      ∃ c cs, Text.charsFrom? t.span.stop text.toList = some (c :: cs) ∧ BeginsLikeName c) ∧
    (t.kind ≠ .identifier → t.kind = entry.2) := by
  have hnames : ∀ entry ∈ reserved, entry.1 ≠ "" ∧ entry.2 ≠ .identifier := by decide
  obtain ⟨hne, hkeyword⟩ := hnames entry hentry
  rw [lex_eq_tile] at ht
  rcases List.mem_append.mp ht with ht | hend
  · obtain ⟨before, l, after, hsplit, rfl⟩ := mem_tile ht
    rw [Nat.zero_add] at hword ⊢
    have hchars : l.chars = entry.1.toList := by
      rw [← hword, Token.text, slice_lexeme hsplit, String.toList_ofList]
    have hmem : l ∈ ofText text := by rw [hsplit]; simp
    obtain ⟨hmerge, hsingle, hdouble⟩ := kind_ne_of_reserved hmem hentry hchars
    obtain ⟨c, w, hcons, hscan⟩ := exists_scan_of_ofText hsplit hmerge hsingle hdouble
    have hkind := scan_of_reserved hentry (hchars.symm.trans hcons) hscan
    have hfrom : Text.charsFrom? (l.tokenAt (Text.size (before.flatMap Lexeme.chars))).span.stop
        text.toList = some (after.flatMap Lexeme.chars) := by
      have htext := Text.charsFrom?_append (before.flatMap Lexeme.chars ++ l.chars)
        (after.flatMap Lexeme.chars)
      rw [Text.size_append, List.append_assoc, ← List.flatMap_cons, ← List.flatMap_append, ← hsplit,
        flatMap_chars_ofText] at htext
      exact htext
    rw [hfrom]
    have hnext : (after.flatMap Lexeme.chars).head?.any sharesLeadByte = true ↔
        ∃ c cs, some (after.flatMap Lexeme.chars) = some (c :: cs) ∧ BeginsLikeName c := by
      cases after.flatMap Lexeme.chars with
      | nil => simp
      | cons c cs => simp [sharesLeadByte_iff]
    rw [← hnext]
    show (l.kind = _ ↔ _) ∧ (l.kind ≠ _ → l.kind = _)
    rw [hkind]
    split
    · next hshares => exact ⟨⟨fun _ => hshares, fun _ => rfl⟩, fun h => absurd rfl h⟩
    · next hshares => exact ⟨⟨fun h => absurd h hkeyword, fun h => absurd h hshares⟩, fun _ => rfl⟩
  · obtain rfl := List.mem_singleton.mp hend
    exact absurd (hword.symm.trans (text_endOfFile text)) hne

theorem kind_of_reserved_true :
    (⟨.identifier, ⟨0, 4⟩⟩ : Token) ∈ lex "TRUE\u00a0" ∧ ("TRUE", .trueKeyword) ∈ reserved ∧
      ∃ c cs, Text.charsFrom? 4 "TRUE\u00a0".toList = some (c :: cs) ∧ BeginsLikeName c := by
  have htoken : (⟨.identifier, ⟨0, 4⟩⟩ : Token) ∈ lex "TRUE\u00a0" := by decide +kernel
  have hentry : ("TRUE", .trueKeyword) ∈ reserved := by decide
  have hword : Token.text ⟨.identifier, ⟨0, 4⟩⟩ "TRUE\u00a0" = "TRUE" := by decide +kernel
  exact ⟨htoken, hentry, (kind_of_reserved htoken hentry hword).1.mp rfl⟩

/-- Reserved words are not always kept from being identifiers: `TRUE` before a no-break space. -/
theorem identifier_reserved : ¬ ∀ text, ∀ t ∈ lex text, t.kind = .identifier →
    ∀ entry ∈ reserved, t.text text ≠ entry.1 := by
  intro h
  have htoken : (⟨.identifier, ⟨0, 4⟩⟩ : Token) ∈ lex "TRUE\u00a0" := by decide +kernel
  exact h _ _ htoken rfl ("TRUE", .trueKeyword) (by decide) (by decide +kernel)

end RSource
