import RSource.Proofs.Stub.Extracted
import RSource.Proofs.Tree.Edited
import RSource.Proofs.Tree.Rows

/-! The number of bytes that stored stubs take.  A source with a long name has few other tokens, and
no more stubs than tokens, so that the stubs of any source take fewer bytes than eight bytes can
count. -/

namespace RSource

open scoped Computability
open Lexeme (ofText)

variable {text : String} {limit : Nat}

/-- Every token takes a byte, so there are few besides a long one. -/
theorem Lexeme.length_add_size_le {before after : List Lexeme} {l : Lexeme}
    (h : ofText text = before ++ l :: after) :
    (lex text).length + l.size ≤ Text.byteLength text + 2 := by
  have hcount (ls : List Lexeme) (hne : ∀ l ∈ ls, l.chars ≠ []) :
      ls.length ≤ Text.size (ls.flatMap Lexeme.chars) := by
    induction ls with
    | nil => exact Nat.le_refl _
    | cons l ls ih =>
      obtain ⟨hl, hls⟩ := List.forall_mem_cons.mp hne
      have hpos := Text.size_pos hl
      have hrest := ih hls
      rw [List.flatMap_cons, Text.size_append, List.length_cons]
      omega
  have hne : ∀ m ∈ before ++ l :: after, m.chars ≠ [] := fun m hm =>
    chars_ne_nil_of_mem_ofText (h ▸ hm)
  have hbefore := hcount before fun m hm => hne m (by simp [hm])
  have hafter := hcount after fun m hm => hne m (by simp [hm])
  have hlex : (lex text).length = before.length + (after.length + 1) + 1 := by
    rw [lex_eq_tile, h, List.length_append, length_tile, List.length_append]
    rfl
  have hsize : Text.byteLength text = Text.size (before.flatMap Lexeme.chars) +
      (l.size + Text.size (after.flatMap Lexeme.chars)) := by
    rw [← Text.size_toList, ← flatMap_chars_ofText, h, List.flatMap_append, Text.size_append,
      List.flatMap_cons, Text.size_append]
    rfl
  omega

namespace StubTree

variable {tokens : List Token} {os : List Outline} {more : List Nat} {t : SyntaxTree} {u : StubTree}

/-- A node that is written as a name spans one token. -/
theorem exists_token_of_nameOf? {id : NodeId} {name : String} (h : Grammar.Found tokens os more)
    (hbuild : SyntaxTree.build text tokens (Outline.node .file os).events = .ok t)
    (hname : nameOf? t id = some name) :
    ∃ x ∈ tokens, x.kind ≠ .endOfFile ∧ t.span id = x.span := by
  have hone {kind : NodeKind} {kinds : List TokenKind} (hid : t.kind? id = some kind)
      (hkind : kind.tokenKind? = none) (hfile : kind ≠ .file)
      (hrows : Production.children tokens .lenient kind = Production.token tokens kinds)
      (hkinds : .endOfFile ∉ kinds) : ∃ x ∈ tokens, x.kind ≠ .endOfFile ∧ t.span id = x.span := by
    obtain ⟨m, parent, ps, rfl, hholds, hdressed, hrow⟩ := h.exists_row hbuild hid hkind hfile
    rw [hrows] at hrow
    obtain ⟨i, x, rfl, hx, hxkind⟩ := hrow
    obtain ⟨y, hy, hm⟩ := hdressed.of_singleton
    obtain rfl := Option.some.inj (hx.symm.trans hy)
    refine ⟨x, List.mem_of_getElem? hx, fun heq => hkinds (heq ▸ hxkind), ?_⟩
    have hlabel := congrArg Rose.label hm
    rw [Rose.label_map] at hlabel
    rw [hholds.span_eq, hlabel]
    rfl
  rw [nameOf?] at hname
  split at hname
  · next hid => exact hone hid rfl (by decide) rfl (by decide)
  · next hid => exact hone hid rfl (by decide) rfl (by decide)
  · cases hname

/-- A name leaves room for so many tokens only. -/
theorem byteLength_name_add_le {p : Parse} (hp : parse text limit = .ok p) (id : Option NodeId) :
    nameOrUnnamed p.tree id = unnamed ∨
      Text.byteLength (nameOrUnnamed p.tree id) + (lex text).length ≤ Text.byteLength text + 2 := by
  obtain ⟨os, more, hfound⟩ := Grammar.found (lex text)
  have hbuild := (parseTokens_eq_ok hfound hp).1
  have htext := SyntaxTree.text_of_build hbuild
  rw [nameOrUnnamed]
  cases hname : id.bind (nameOf? p.tree) with
  | none => exact .inl rfl
  | some name =>
    right
    obtain ⟨id, -, hname⟩ := Option.bind_eq_some_iff.mp hname
    obtain ⟨x, hx, hkind, hspan⟩ := exists_token_of_nameOf? hfound hbuild hname
    rw [lex_eq_tile, List.mem_append, List.mem_singleton] at hx
    rcases hx with hx | rfl
    · obtain ⟨before, l, after, hlexemes, rfl⟩ := Lexeme.mem_tile hx
      have hle := Text.size_le_of_sublist (nameOf?_sublist_textOf hname)
      have hcount := Lexeme.length_add_size_le hlexemes
      rw [SyntaxTree.textOf, hspan, htext, Nat.zero_add, slice_lexeme hlexemes, Text.size_toList,
        String.toList_ofList] at hle
      rw [Option.getD_some]
      rw [Lexeme.size] at hcount
      omega
    · exact absurd rfl hkind

/-! ### Records -/

theorem length_write_ofStub_le (s : Stub) :
    (StubRecord.ofStub s).write.length ≤ 30 + Text.byteLength s.name := by
  obtain ⟨declaration, parent, span⟩ := s
  cases declaration <;> cases parent <;>
    simp [StubRecord.write, StubRecord.ofStub, Bytes.ofOption, Bytes.ofText, Utf8.length_encode] <;>
    omega

theorem length_encode_le {n : Nat} (hname : ∀ s ∈ u.stubs, Text.byteLength s.name ≤ n) :
    u.encode.length ≤ 17 + u.size * (30 + n) := by
  have hrecords : ∀ stubs : List Stub, (∀ s ∈ stubs, Text.byteLength s.name ≤ n) →
      (stubs.flatMap (StubRecord.write ∘ StubRecord.ofStub)).length ≤
        stubs.length * (30 + n) := by
    intro stubs hstubs
    induction stubs with
    | nil => exact Nat.zero_le _
    | cons s stubs ih =>
      obtain ⟨hs, hstubs⟩ := List.forall_mem_cons.mp hstubs
      have hrest := ih hstubs
      have hrecord := length_write_ofStub_le s
      rw [List.flatMap_cons, List.length_append, List.length_cons, Nat.succ_mul]
      rw [Function.comp_apply]
      omega
  have hle := hrecords u.stubs.toList fun s hs => hname s (Array.mem_toList_iff.mp hs)
  have hsize : u.stubs.toList.length = u.size := Array.length_toList
  rw [hsize] at hle
  rw [encode, Bytes.ofList, List.length_append, List.length_append, List.length_append,
    Bytes.length_ofNat, Bytes.length_ofNat, Bytes.length_ofNat]
  omega

theorem byteLength_le_of_ofSource (h : ofSource text limit = .ok u) :
    Text.byteLength text ≤ maxOffset := by
  refine Nat.le_of_not_lt fun hlarge => ?_
  rw [ofSource_tooLarge hlarge] at h
  cases h

/-- The stubs of any source can be counted in bytes. -/
theorem length_encode_lt (h : ofSource text limit = .ok u) :
    u.encode.length < Bytes.capacity 8 := by
  have hsize := byteLength_le_of_ofSource h
  obtain ⟨p, hp, rfl⟩ := ofSource_eq_ok_iff.mp h
  obtain ⟨os, more, hfound⟩ := Grammar.found (lex text)
  have hcount := size_ofTree_le hfound (parseTokens_eq_ok hfound hp).1
  have hlex := length_lex_le text
  have hmax : maxOffset = 4294967295 := rfl
  have hunnamed : Text.byteLength unnamed = 9 := by decide
  have hname : ∀ s ∈ (ofTree p.tree).stubs,
      Text.byteLength s.name ≤ Text.byteLength text + 11 - (lex text).length := by
    intro s hs
    obtain ⟨id, hname⟩ := (drawn_ofTree s hs).name
    rw [hname]
    rcases byteLength_name_add_le hp id with heq | hle
    · rw [heq]
      omega
    · omega
  have hencode := length_encode_le hname
  -- Where there are many tokens the names are short, and the other way round.
  have hproduct : (ofTree p.tree).size *
      (30 + (Text.byteLength text + 11 - (lex text).length)) ≤ 4294967336 * 2147483688 := by
    rcases Nat.le_total (lex text).length 2147483648 with hfew | hmany
    · rw [Nat.mul_comm]
      exact Nat.mul_le_mul (by omega) (by omega)
    · exact Nat.mul_le_mul (by omega) (by omega)
  have hcapacity : Bytes.capacity 8 = 18446744073709551616 := rfl
  omega

end StubTree

end RSource
