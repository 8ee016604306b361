import RSource.Proofs.Lexeme.Written

/-! How names are read back.  A reader takes off what a rename puts around a name: backticks around
the name of an identifier, the delimiters of a string literal. -/

namespace RSource

variable {c : Char} {cs rest : List Char} {drop : Char → Bool} {old name text : String}

/-! ### Identifiers -/

theorem dropWhile_eq_self (h : ∀ c ∈ cs, drop c = false) : cs.dropWhile drop = cs := by
  cases cs with
  | nil => rfl
  | cons c cs => exact List.dropWhile_cons_of_neg (by simp [h c List.mem_cons_self])

theorem Text.trim_eq_self (h : ∀ c ∈ text.toList, drop c = false) : Text.trim drop text = text := by
  have hreverse : text.toList.reverse.dropWhile drop = text.toList.reverse :=
    dropWhile_eq_self fun c hc => h c (List.mem_reverse.mp hc)
  rw [trim, trimStartChars, dropWhile_eq_self h, trimEndChars, hreverse, List.reverse_reverse,
    String.ofList_toList]

/-- A character that is dropped may as well stand on both sides. -/
theorem Text.trim_surrounded (h : drop c = true) (cs : List Char) :
    Text.trim drop (String.ofList (c :: (cs ++ [c]))) = Text.trim drop (String.ofList cs) := by
  have hlast : ∀ ds : List Char, trimEndChars drop (ds ++ [c]) = trimEndChars drop ds := by
    intro ds
    rw [trimEndChars, List.reverse_concat, List.dropWhile_cons_of_pos h, trimEndChars]
  rw [trim, trim, String.toList_ofList, String.toList_ofList, trimStartChars, trimStartChars,
    List.dropWhile_cons_of_pos h, List.dropWhile_append, List.dropWhile_cons_of_pos h,
    List.dropWhile_nil]
  cases hrest : cs.dropWhile drop with
  | nil => rfl
  | cons d ds => rw [List.isEmpty_cons, if_neg Bool.false_ne_true, hlast]

theorem infix_of_go (h : afterDoubleColon.go cs = some rest) : [':', ':'] <:+: cs := by
  fun_induction afterDoubleColon.go cs with
  | case1 after => exact ⟨[], after, rfl⟩
  | case2 x cs _ ih => exact (ih h).trans (List.infix_cons_iff.mpr (.inr List.infix_rfl))
  | case3 => cases h

theorem afterDoubleColon_eq_self (h : ¬ [':', ':'] <:+: cs) : afterDoubleColon cs = cs := by
  rw [afterDoubleColon]
  cases hgo : afterDoubleColon.go cs with
  | none => rfl
  | some rest => exact absurd (infix_of_go hgo) h

/-- Characters other than colons on both sides add no double colon. -/
theorem not_infix_surrounded (hc : c ≠ ':') (h : ¬ [':', ':'] <:+: cs) :
    ¬ [':', ':'] <:+: c :: (cs ++ [c]) := by
  intro hinfix
  rcases List.infix_cons_iff.mp hinfix with hprefix | hinfix
  · exact hc (List.cons_prefix_cons.mp hprefix).1.symm
  · rcases List.infix_concat_iff.mp hinfix with hsuffix | hinfix
    · obtain ⟨before, heq⟩ := hsuffix
      have hlast := congrArg List.getLast? heq
      rw [List.getLast?_concat, List.getLast?_append] at hlast
      exact hc (Option.some.inj hlast).symm
    · exact h hinfix

namespace Lexeme

theorem all_of_runLength {p : Char → Bool} (h : runLength p cs = cs.length) :
    ∀ x ∈ cs, p x = true := by
  have hall := all_take_runLength (p := p) cs
  rwa [h, List.take_length] at hall

theorem mem_of_mem_fuse {s : TokenSet} {l : Lexeme} {ls : List Lexeme}
    (hl : s.contains l.kind = false) (h : l ∈ fuse s ls) : l ∈ ls := by
  induction ls with
  | nil => exact h
  | cons m ls ih =>
    have hcons : l = m ∨ l ∈ fuse s ls := by
      change l ∈ fuseCons s m (fuse s ls) at h
      cases hrest : fuse s ls with
      | nil =>
        rw [hrest, fuseCons] at h
        exact .inl (List.mem_singleton.mp h)
      | cons n ns =>
        rw [hrest, fuseCons] at h
        split at h
        · next hfused =>
          rcases List.mem_cons.mp h with rfl | h
          · rw [(Bool.and_eq_true_iff.mp hfused).2] at hl
            cases hl
          · exact .inr (List.mem_cons_of_mem n h)
        · exact List.mem_cons.mp h
    exact hcons.elim (· ▸ List.mem_cons_self) fun h => List.mem_cons_of_mem m (ih h)

/-- A lexeme that is not put together from others is scanned as it is. -/
theorem mem_scanAll_of_mem_ofText {l : Lexeme} (h : l ∈ ofText text)
    (hmerge : TokenStream.defaultMerge.contains l.kind = false)
    (hpair : l.kind ≠ .rightDoubleBracket) : l ∈ scanAll text.toList := by
  have hpaired : l.kind = .rightDoubleBracket ∨ l ∈ scanAll text.toList :=
    forall_mem_pairBrackets (P := fun m => m.kind = .rightDoubleBracket ∨ m ∈ scanAll text.toList)
      (fun _ _ _ _ => .inl rfl) [] (fun _ hm => .inr hm) l (mem_of_mem_fuse hmerge h)
  exact hpaired.resolve_left hpair

/-- A name that is read without backticks is made of the characters of names. -/
theorem isNameChar_of_scan (htick : c ≠ backtick) (h : scan c cs = (.identifier, cs.length)) :
    ∀ x ∈ c :: cs, isNameChar x = true := by
  have hstart := start_of_identifier (congrArg Prod.fst h)
  refine List.forall_mem_cons.mpr ⟨(word_of_start hstart htick).2, ?_⟩
  rw [scan_eq] at h
  -- After a point the lexeme may be a number, which no identifier is.
  rcases (word_of_start hstart htick).1 with hform | hform
  · rw [hform] at h
    have hword := scanWord_of_scanLetter (by decide) (by decide) h
    exact all_of_runLength (congrArg Prod.snd hword)
  · rw [hform, Start.scan] at h
    cases cs with
    | nil => simp
    | cons d cs =>
      rw [scanPoint] at h
      split at h
      · have hnumber : (scanFraction (d :: cs)).1 ∈ numbers := suffixed_kind _ _
        have hname : TokenKind.identifier ∉ numbers := by decide
        rw [h] at hnumber
        exact absurd hnumber hname
      split at h
      · exact all_of_runLength (congrArg Prod.snd h)
      · cases congrArg Prod.snd h

end Lexeme

namespace Rename

open Lexeme

theorem isNameChar_of_isPlain (h : isPlain name = true) :
    ∀ x ∈ name.toList, isNameChar x = true := by
  obtain ⟨hhead, hscan⟩ := scanAll_of_isPlain h
  obtain ⟨c, w, -, hname, hone⟩ := scanAll_eq_singleton_iff.mp hscan
  rw [hname] at hhead ⊢
  refine isNameChar_of_scan ?_ hone
  rintro rfl
  exact hhead rfl

theorem backtick_not_mem (h : identifierText old name = .ok text) : backtick ∉ name.toList := by
  rw [identifierText] at h
  split at h
  · split at h
    · cases h
    · next hname => simpa [backtick] using hname
  · next hplain =>
    simp only [Bool.or_eq_true, not_or, Bool.not_eq_eq_eq_not, Bool.not_true,
      Bool.not_eq_false] at hplain
    have hbacktick : isNameChar backtick = false := by decide
    intro hmem
    rw [isNameChar_of_isPlain hplain.2 _ hmem] at hbacktick
    cases hbacktick

/-- A name without `::` is read back but for what is dropped at its ends. -/
theorem trim_identifierText (h : identifierText old name = .ok text)
    (hcolon : ¬ [':', ':'] <:+: name.toList) (hdrop : drop backtick = true) :
    Text.trim drop (String.ofList (afterDoubleColon text.toList)) = Text.trim drop name := by
  rw [identifierText] at h
  split at h
  · split at h
    · cases h
    · obtain rfl := Except.ok.inj h
      rw [toList_backticked, afterDoubleColon_eq_self (not_infix_surrounded (by decide) hcolon),
        Text.trim_surrounded hdrop, String.ofList_toList]
  · obtain rfl := Except.ok.inj h
    rw [afterDoubleColon_eq_self hcolon, String.ofList_toList]

/-! ### String literals -/

/-- A string literal looks like one. -/
theorem stringForm_of_mem {l : Lexeme} (h : l ∈ ofText text) (hl : l.kind = .string) :
    ∃ c w, l.chars = c :: w ∧ StringForm c w := by
  have hmem : l ∈ scanAll text.toList :=
    mem_scanAll_of_mem_ofText h (by rw [hl]; decide) (by rw [hl]; decide)
  refine forall_mem_scanAll (P := fun l => l.kind = .string → ∃ c w, l.chars = c :: w ∧
    StringForm c w) ?_ text.toList l hmem hl
  intro c cs hkind
  have hscan : scan c (cs.take (scan c cs).2 ++ cs.drop (scan c cs).2) =
      (.string, (cs.take (scan c cs).2).length) := by
    rw [List.take_append_drop, List.length_take_of_le (scan_le c cs), ← hkind]
  exact ⟨c, cs.take (scan c cs).2, rfl, stringForm_of_scan hscan⟩

theorem contents?_eq {before after : List Char}
    (hdelimiters : StringLiteral.delimiters? text = some (Text.size before, Text.size after))
    (htext : text.toList = before ++ name.toList ++ after) :
    StringLiteral.contents? text = some name := by
  have hlength : Text.byteLength text - Text.size after =
      Text.size before + Text.size name.toList := by
    rw [← Text.size_toList, htext, Text.size_append, Text.size_append, Nat.add_sub_cancel]
  have hslice := Text.slice?_ofList before name.toList after
  rw [← htext, String.ofList_toList, String.ofList_toList] at hslice
  rw [StringLiteral.contents?, hdelimiters]
  simp only [Option.bind_eq_bind, Option.bind_some]
  rw [hlength, hslice]

/-- What is written between the delimiters of a string literal is read back. -/
theorem contents?_stringText {c : Char} {w : List Char} (hold : old.toList = c :: w)
    (hform : StringForm c w) (h : stringText old name = .ok text) :
    StringLiteral.contents? text = some name := by
  cases hform with
  | quoted hstart body hbody =>
    subst hbody
    have hone : Text.size [c] = 1 := by
      rw [Text.size_cons, size_isQuote (Start.known hstart)]
      rfl
    obtain ⟨-, htext, -⟩ := stringText_eq (delimiters?_quoted hstart hold)
      (show old.toList = [c] ++ body ++ [c] from hold) hone.symm hone.symm h
    have hdelimiters := delimiters?_quoted hstart htext
    rw [← hone] at hdelimiters
    exact contents?_eq hdelimiters htext
  | raw hc quote bracket close dashes part hquote hbracket hraw =>
    subst hraw
    have hopener := size_rawOpener dashes hc hquote hbracket
    have hcloser : Text.size (rawCloser close dashes quote) = 2 + dashes := by
      rw [size_rawCloser dashes hquote hbracket, Nat.add_comm]
    obtain ⟨-, htext, -⟩ := stringText_eq (delimiters?_raw hc hquote hbracket hold)
      (hold.trans (cons_rawText c quote bracket close dashes part)) hopener.symm hcloser.symm h
    have hdelimiters := delimiters?_raw hc hquote hbracket
      (htext.trans (cons_rawText c quote bracket close dashes name.toList).symm)
    rw [← hopener, ← hcloser] at hdelimiters
    exact contents?_eq hdelimiters htext

end Rename

end RSource
