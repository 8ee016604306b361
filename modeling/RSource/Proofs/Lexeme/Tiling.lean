import RSource.Proofs.Lexeme.Boundary
import RSource.Proofs.Text.Piece
import RSource.Token.Stream

/-! The tokens of a text tile it.  They are lexemes laid end to end, so that the text of each is the
characters of its lexeme, and no token but the last is an end of file. -/

namespace RSource

namespace Lexeme

/-- The tokens of lexemes that stand end to end from an offset on. -/
def tile (offset : Nat) : List Lexeme → List Token
  | [] => []
  | l :: ls => l.tokenAt offset :: tile (offset + l.size) ls

variable {ls ms : List Lexeme} {offset : Nat}

theorem place_eq_tile (offset : Nat) (ls : List Lexeme) :
    place offset ls = tile offset ls ++
      [⟨.endOfFile, .point (offset + Text.size (ls.flatMap Lexeme.chars))⟩] := by
  induction ls generalizing offset with
  | nil => simp [place, tile]
  | cons l ls ih =>
    rw [place, tile, ih, List.cons_append, List.flatMap_cons, Text.size_append, ← Nat.add_assoc]
    rfl

theorem tile_append (offset : Nat) (ls ms : List Lexeme) :
    tile offset (ls ++ ms) =
      tile offset ls ++ tile (offset + Text.size (ls.flatMap Lexeme.chars)) ms := by
  induction ls generalizing offset with
  | nil => simp [tile]
  | cons l ls ih =>
    rw [List.cons_append, tile, tile, ih, List.cons_append, List.flatMap_cons, Text.size_append,
      ← Nat.add_assoc]
    rfl

theorem length_scanAfter_le (n : Nat) (cs : List Char) : (scanAfter n cs).length ≤ cs.length := by
  fun_induction scanAfter n cs with
  | case1 => exact Nat.le_refl _
  | case2 n c cs ih => exact Nat.le_succ_of_le ih
  | case3 c cs kind n _ ih => exact Nat.succ_le_succ ih

theorem length_tile (ls : List Lexeme) (offset : Nat) : (tile offset ls).length = ls.length := by
  induction ls generalizing offset with
  | nil => rfl
  | cons l ls ih => rw [tile, List.length_cons, List.length_cons, ih]

theorem start_le_stop_of_mem_tile {t : Token} (h : t ∈ tile offset ls) :
    t.span.start ≤ t.span.stop := by
  induction ls generalizing offset with
  | nil => cases h
  | cons l ls ih =>
    rcases List.mem_cons.mp h with rfl | h
    · exact Nat.le_add_right _ _
    · exact ih h

theorem kind_of_mem_tile {t : Token} (h : t ∈ tile offset ls) : ∃ l ∈ ls, l.kind = t.kind := by
  induction ls generalizing offset with
  | nil => simp [tile] at h
  | cons l ls ih =>
    rcases List.mem_cons.mp h with rfl | h
    · exact ⟨l, List.mem_cons_self, rfl⟩
    · obtain ⟨m, hm, hkind⟩ := ih h
      exact ⟨m, List.mem_cons_of_mem _ hm, hkind⟩

theorem mem_tile {t : Token} : ∀ {ls : List Lexeme} {offset : Nat}, t ∈ tile offset ls →
    ∃ before l after, ls = before ++ l :: after ∧
      t = l.tokenAt (offset + Text.size (before.flatMap Lexeme.chars))
  | l :: ls, offset, h => by
    rcases List.mem_cons.mp h with rfl | h
    · exact ⟨[], l, ls, rfl, rfl⟩
    · obtain ⟨before, m, after, rfl, rfl⟩ := mem_tile h
      refine ⟨l :: before, m, after, rfl, ?_⟩
      rw [List.flatMap_cons, Text.size_append, ← Nat.add_assoc]
      rfl

/-- The text of a token is its lexeme. -/
theorem map_text_tile (ls : List Lexeme) : ∀ before after : List Char,
    (tile (Text.size before) ls).map
        (·.text (String.ofList (before ++ ls.flatMap Lexeme.chars ++ after))) =
      ls.map fun l => String.ofList l.chars := by
  induction ls with
  | nil => intro _ _; rfl
  | cons l ls ih =>
    intro before after
    have hfirst := Text.slice_ofList before l.chars (ls.flatMap Lexeme.chars ++ after)
    have hrest := ih (before ++ l.chars) after
    simp only [Text.size_append, List.append_assoc] at hfirst hrest
    rw [tile, List.map_cons, List.map_cons, List.flatMap_cons, List.append_assoc, List.append_assoc]
    congr 1

theorem flatMap_chars_fuseCons (s : TokenSet) (l : Lexeme) (ls : List Lexeme) :
    (fuseCons s l ls).flatMap Lexeme.chars = l.chars ++ ls.flatMap Lexeme.chars := by
  cases ls with
  | nil => rfl
  | cons m ls =>
    rw [fuseCons]
    split
    · simp
    · simp

theorem flatMap_chars_fuse (s : TokenSet) (ls : List Lexeme) :
    (fuse s ls).flatMap Lexeme.chars = ls.flatMap Lexeme.chars := by
  induction ls with
  | nil => rfl
  | cons l ls ih =>
    rw [fuse, List.foldr_cons, flatMap_chars_fuseCons, List.flatMap_cons, ← ih]
    rfl

/-! ### Kinds -/

theorem scan_ne_endOfFile (c : Char) (cs : List Char) : (scan c cs).1 ≠ .endOfFile := by
  have hnone : ∀ start : Start, .endOfFile ∉ start.kinds := by
    intro start
    cases start <;> decide
  intro h
  exact hnone _ (h ▸ scan_kind c cs)

section

variable {P : Lexeme → Prop}

theorem forall_mem_scanAll (h : ∀ c cs, P ⟨(scan c cs).1, c :: cs.take (scan c cs).2⟩)
    (cs : List Char) : ∀ l ∈ scanAll cs, P l := by
  -- What is left after a lexeme is shorter but no tail of the list: the induction is on its length.
  generalize hlength : cs.length = k
  induction k using Nat.strongRecOn generalizing cs with
  | _ k ih =>
    intro l hl
    cases cs with
    | nil => cases hl
    | cons c cs =>
      rw [scanAll_cons] at hl
      rcases List.mem_cons.mp hl with rfl | hl
      · exact h c cs
      · refine ih _ ?_ _ rfl l hl
        rw [← hlength]
        exact Nat.lt_succ_of_le (by simp)

theorem forall_mem_pairBrackets
    (hpair : ∀ l m, P l → P m → P ⟨.rightDoubleBracket, l.chars ++ m.chars⟩)
    (opened : List TokenKind) (h : ∀ l ∈ ls, P l) : ∀ l ∈ pairBrackets opened ls, P l := by
  fun_induction pairBrackets opened ls with
  | case1 => exact h
  | case2 => exact h
  | case3 opened m n rest _ ih =>
    intro l hl
    rcases List.mem_cons.mp hl with rfl | hl
    · exact hpair m n (h m (by simp)) (h n (by simp))
    · exact ih (fun x hx => h x (by simp [hx])) l hl
  | case4 opened m n rest _ ih =>
    intro l hl
    rcases List.mem_cons.mp hl with rfl | hl
    · exact h _ List.mem_cons_self
    · exact ih (fun x hx => h x (List.mem_cons_of_mem _ hx)) l hl

theorem forall_mem_fuse {s : TokenSet} (hfuse : ∀ l m, P l → P m → P ⟨l.kind, l.chars ++ m.chars⟩)
    (h : ∀ l ∈ ls, P l) : ∀ l ∈ fuse s ls, P l := by
  have hcons : ∀ m ms, P m → (∀ l ∈ ms, P l) → ∀ l ∈ fuseCons s m ms, P l := by
    intro m ms hm hms
    cases ms with
    | nil => simpa [fuseCons] using hm
    | cons n ms =>
      have hrest := List.forall_mem_cons.mp hms
      rw [fuseCons]
      split
      · exact List.forall_mem_cons.mpr ⟨hfuse m n hm hrest.1, hrest.2⟩
      · exact List.forall_mem_cons.mpr ⟨hm, hms⟩
  induction ls with
  | nil => exact h
  | cons m ls ih =>
    obtain ⟨hm, hls⟩ := List.forall_mem_cons.mp h
    exact hcons m (fuse s ls) hm (ih hls)

end

/-- The lexemes of a text as its tokens have them. -/
def ofText (text : String) : List Lexeme :=
  fuse TokenStream.defaultMerge (ofChars text.toList)

theorem flatMap_chars_ofText (text : String) :
    (ofText text).flatMap Lexeme.chars = text.toList := by
  rw [ofText, flatMap_chars_fuse, flatMap_chars_ofChars]

/-- What holds of a scanned lexeme and is kept when neighbours are joined. -/
theorem forall_mem_ofText {P : Lexeme → Prop}
    (hscan : ∀ c cs, P ⟨(scan c cs).1, c :: cs.take (scan c cs).2⟩)
    (hpair : ∀ l m, P l → P m → P ⟨.rightDoubleBracket, l.chars ++ m.chars⟩)
    (hfuse : ∀ l m, P l → P m → P ⟨l.kind, l.chars ++ m.chars⟩) (text : String) :
    ∀ l ∈ ofText text, P l :=
  forall_mem_fuse hfuse (forall_mem_pairBrackets hpair [] (forall_mem_scanAll hscan _))

theorem kind_ne_endOfFile_of_mem_ofChars {cs : List Char} {l : Lexeme} (h : l ∈ ofChars cs) :
    l.kind ≠ .endOfFile :=
  forall_mem_pairBrackets (P := (·.kind ≠ .endOfFile)) (fun _ _ _ _ => by simp) []
    (forall_mem_scanAll scan_ne_endOfFile cs) l h

theorem kind_ne_endOfFile_of_mem_ofText {text : String} {l : Lexeme} (h : l ∈ ofText text) :
    l.kind ≠ .endOfFile :=
  forall_mem_fuse (P := (·.kind ≠ .endOfFile)) (fun _ _ hl _ => hl)
    (fun _ => kind_ne_endOfFile_of_mem_ofChars) l h

theorem chars_ne_nil_of_mem_ofText {text : String} {l : Lexeme} (h : l ∈ ofText text) :
    l.chars ≠ [] :=
  forall_mem_ofText (P := (·.chars ≠ [])) (fun _ _ => by simp) (fun _ _ hl _ => by simp [hl])
    (fun _ _ hl _ => by simp [hl]) text l h

end Lexeme

open Lexeme

theorem Text.charsFrom?_zero (cs : List Char) : Text.charsFrom? 0 cs = some cs := by
  cases cs <;> rfl

theorem Text.charsFrom?_append (xs ys : List Char) :
    Text.charsFrom? (Text.size xs) (xs ++ ys) = some ys := by
  induction xs with
  | nil => exact Text.charsFrom?_zero ys
  | cons x xs ih =>
    have hx := x.utf8Size_pos
    rw [List.cons_append, Text.size_cons, Text.charsFrom?, if_neg (by omega), if_neg (by omega),
      Nat.add_sub_cancel_left, ih]

theorem Text.add_size_of_charsFrom? {offset : Nat} {cs ds : List Char}
    (h : Text.charsFrom? offset cs = some ds) : offset + Text.size ds = Text.size cs := by
  fun_induction Text.charsFrom? offset cs with
  | case1 => cases h; rfl
  | case2 => cases h
  | case3 => cases h; exact Nat.zero_add _
  | case4 => cases h
  | case5 offset c cs _ hlt ih =>
    have hrest := ih h
    rw [Text.size_cons]
    omega

theorem lex_eq_place (text : String) : lex text = place 0 (ofText text) := rfl

theorem lex_eq_tile (text : String) :
    lex text = tile 0 (ofText text) ++ [⟨.endOfFile, .point (Text.byteLength text)⟩] := by
  rw [lex_eq_place, place_eq_tile, flatMap_chars_ofText, Text.size_toList, Nat.zero_add]

/-- The token of a lexeme of a text. -/
theorem getElem?_lex {text : String} {before after : List Lexeme} {l : Lexeme}
    (h : ofText text = before ++ l :: after) :
    (lex text)[before.length]? =
      some (l.tokenAt (Text.size (before.flatMap Lexeme.chars))) := by
  rw [lex_eq_tile, h, tile_append, List.append_assoc, Nat.zero_add,
    List.getElem?_append_right (Nat.le_of_eq (length_tile _ _)), length_tile, Nat.sub_self]
  rfl

theorem slice?_of_chars {text : String} {before after : List Lexeme} {l : Lexeme}
    (h : (before ++ l :: after).flatMap Lexeme.chars = text.toList) :
    Text.slice? text (l.tokenAt (Text.size (before.flatMap Lexeme.chars))).span =
      some (String.ofList l.chars) := by
  have hpiece := Text.slice?_ofList (before.flatMap Lexeme.chars) l.chars
    (after.flatMap Lexeme.chars)
  rw [List.flatMap_append, List.flatMap_cons, ← List.append_assoc] at h
  rw [h, String.ofList_toList] at hpiece
  exact hpiece

/-- The text of the token is the lexeme. -/
theorem slice?_lexeme {text : String} {before after : List Lexeme} {l : Lexeme}
    (h : ofText text = before ++ l :: after) :
    Text.slice? text (l.tokenAt (Text.size (before.flatMap Lexeme.chars))).span =
      some (String.ofList l.chars) :=
  slice?_of_chars (h ▸ flatMap_chars_ofText text)

theorem slice_lexeme {text : String} {before after : List Lexeme} {l : Lexeme}
    (h : ofText text = before ++ l :: after) :
    Text.slice text (l.tokenAt (Text.size (before.flatMap Lexeme.chars))).span =
      String.ofList l.chars := by
  rw [Text.slice, slice?_lexeme h, Option.getD_some]

/-- The end of file stands behind the lexemes. -/
theorem takeWhile_place {ls : List Lexeme} (h : ∀ l ∈ ls, l.kind ≠ .endOfFile) (offset : Nat) :
    (place offset ls).takeWhile (·.kind ≠ .endOfFile) = tile offset ls := by
  rw [place_eq_tile, List.takeWhile_append_of_pos]
  · simp
  · intro t ht
    obtain ⟨l, hl, hkind⟩ := kind_of_mem_tile ht
    simpa [← hkind] using h l hl

theorem takeWhile_lex (text : String) :
    (lex text).takeWhile (·.kind ≠ .endOfFile) = tile 0 (ofText text) :=
  takeWhile_place (fun _ => kind_ne_endOfFile_of_mem_ofText) 0

/-- The texts of the tokens before the end of the file are the text. -/
theorem join_text_lex (text : String) :
    String.join (((lex text).takeWhile (·.kind ≠ .endOfFile)).map (·.text text)) = text := by
  have hpieces := map_text_tile (ofText text) [] []
  rw [List.nil_append, List.append_nil, flatMap_chars_ofText, String.ofList_toList,
    Text.size_nil] at hpieces
  rw [takeWhile_lex, hpieces, ← String.toList_inj, String.toList_join, List.flatMap_map]
  simpa using flatMap_chars_ofText text

end RSource
