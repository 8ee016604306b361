import RSource.Proofs.Except
import RSource.Proofs.Lexeme.Leading
import RSource.Proofs.Lossless
import RSource.Proofs.Tree.Leading
import RSource.View.DocString

/-! The documentation of a function.  Doc comments at the start of a source stand in leaves before
the first statement; the walk back from the statement meets the line ends in between, the one that
ends the last doc comment among them. -/

namespace RSource.DocString

open Lexeme (Visible finish isSpace nonempty scanAll stops_cons)

/-! ### Documentation at the start of a source -/

/-- A doc comment on a line of its own: what stands before the marker and what stands behind it. -/
structure DocLine where
  indent : List Char
  content : List Char
  indent_space : ∀ c ∈ indent, isSpace c
  newline_not_mem : '\n' ∉ content
  not_marker : ¬ marker <+: content

namespace DocLine

def comment (line : DocLine) : List Char := marker ++ line.content

def chars (line : DocLine) : List Char := line.indent ++ line.comment ++ ['\n']

/-- What the line says. -/
def text (line : DocLine) : String := Text.trimBlank (.ofList line.content)

def lexemes (line : DocLine) : List Lexeme :=
  nonempty .whitespace line.indent ++ [⟨.comment, line.comment⟩, ⟨.newline, ['\n']⟩]

theorem lineOf_comment (line : DocLine) : lineOf (.ofList line.comment) = line.text := by
  have hafter : Text.after? marker line.comment = some line.content := by
    rw [Text.after?, comment, if_pos (by simp), List.drop_left]
  have hrest : ∀ bound, withoutMarkers bound line.content = line.content := by
    intro bound
    cases bound with
    | zero => rfl
    | succ bound =>
      have hnone : Text.after? marker line.content = none :=
        if_neg (by simpa using line.not_marker)
      rw [withoutMarkers, hnone]
  obtain ⟨bound, hbound⟩ : ∃ bound, (String.ofList line.comment).length = bound + 1 :=
    ⟨line.content.length + 1, by rw [String.length_ofList]; rfl⟩
  rw [lineOf, hbound, String.toList_ofList, withoutMarkers, hafter, text]
  exact congrArg (fun cs => Text.trimBlank (.ofList cs)) (hrest bound)

end DocLine

/-- The lexemes of a line without code. -/
def blankLexemes (w : List Char) : List Lexeme :=
  if w = ['\r'] then [⟨.newline, ['\r', '\n']⟩] else nonempty .whitespace w ++ [⟨.newline, ['\n']⟩]

/-- Doc comments on consecutive lines, blank lines, and the indentation of what comes next. -/
structure Block where
  lines : List DocLine
  blanks : List (List Char)
  indent : List Char
  lines_ne_nil : lines ≠ []
  blanks_space : ∀ w ∈ blanks, ∀ c ∈ w, isSpace c
  indent_space : ∀ c ∈ indent, isSpace c

namespace Block

def chars (block : Block) : List Char :=
  block.lines.flatMap DocLine.chars ++ (block.blanks.flatMap (· ++ ['\n']) ++ block.indent)

def lexemes (block : Block) : List Lexeme :=
  block.lines.flatMap DocLine.lexemes ++
    (block.blanks.flatMap blankLexemes ++ nonempty .whitespace block.indent)

end Block

/-! ### Its lexemes -/

theorem finish_line (line : DocLine) (rest : List Char) :
    finish (scanAll (line.chars ++ rest)) = line.lexemes ++ finish (scanAll rest) := by
  have hcomment : scanAll (line.comment ++ '\n' :: rest) =
      ⟨.comment, line.comment⟩ :: ⟨.newline, ['\n']⟩ :: scanAll rest := by
    have hcontent : '\n' ∉ '\x27' :: line.content := by simpa using line.newline_not_mem
    rw [← Lexeme.scanAll_newline]
    exact Lexeme.scanAll_comment hcontent rest
  have hstops : Lexeme.Stops isSpace (line.comment ++ '\n' :: rest) := stops_cons (by decide)
  have hscan : scanAll (line.chars ++ rest) = nonempty .whitespace line.indent ++
      ⟨.comment, line.comment⟩ :: ⟨.newline, ['\n']⟩ :: scanAll rest := by
    rw [DocLine.chars, List.append_assoc, List.append_assoc, List.singleton_append,
      Lexeme.scanAll_space line.indent_space hstops fun _ => by simp [DocLine.comment, marker],
      hcomment]
  rw [hscan, Lexeme.finish_space _ (by simp), DocLine.lexemes, List.append_assoc]
  simp

theorem finish_blank {w : List Char} (hw : ∀ c ∈ w, isSpace c) (rest : List Char) :
    finish (scanAll (w ++ ['\n'] ++ rest)) = blankLexemes w ++ finish (scanAll rest) := by
  rw [List.append_assoc, List.singleton_append, blankLexemes]
  split
  next hreturn =>
    rw [hreturn, List.singleton_append, Lexeme.scanAll_returned, Lexeme.finish_newline,
      List.singleton_append]
  next hreturn =>
    rw [Lexeme.scanAll_space hw (stops_cons (by decide)) fun h => absurd h hreturn,
      Lexeme.scanAll_newline, Lexeme.finish_space _ (by simp), Lexeme.finish_newline,
      List.append_assoc, List.singleton_append]

theorem finish_flatMap {α : Type} {f : α → List Char} {g : α → List Lexeme} {as : List α}
    (h : ∀ a ∈ as, ∀ rest, finish (scanAll (f a ++ rest)) = g a ++ finish (scanAll rest))
    (rest : List Char) :
    finish (scanAll (as.flatMap f ++ rest)) = as.flatMap g ++ finish (scanAll rest) := by
  induction as with
  | nil => rfl
  | cons a as ih =>
    obtain ⟨ha, has⟩ := List.forall_mem_cons.mp h
    rw [List.flatMap_cons, List.append_assoc, ha, ih has, List.flatMap_cons, List.append_assoc]

/-- The block is lexemes of its own, whatever code comes behind it. -/
theorem exists_ofText (block : Block) {code : List Char} (hcode : Visible code) :
    ∃ l ls, Lexeme.ofText (.ofList (block.chars ++ code)) = block.lexemes ++ l :: ls ∧
      l.kind.isLayout = false := by
  obtain ⟨l, ls, hfinish, hl⟩ := hcode.exists_finish
  refine ⟨l, ls, ?_, hl⟩
  have hlast : finish (scanAll (block.indent ++ code)) =
      nonempty .whitespace block.indent ++ l :: ls := by
    rw [Lexeme.scanAll_space block.indent_space hcode.stops fun _ => hcode.head?_ne,
      Lexeme.finish_space, hfinish]
    rw [hfinish]
    rintro m ⟨⟩ hm
    rw [hm] at hl
    cases hl
  rw [Lexeme.ofText_eq_finish, Block.chars, Block.lexemes, List.append_assoc, List.append_assoc,
    finish_flatMap (fun line _ => finish_line line),
    finish_flatMap (fun w hw => finish_blank (block.blanks_space w hw)), hlast, List.append_assoc,
    List.append_assoc]

theorem isLayout_of_mem_lexemes (block : Block) : ∀ l ∈ block.lexemes, l.kind.isLayout = true := by
  have hspace : ∀ w, ∀ l ∈ nonempty .whitespace w, l.kind.isLayout = true := by
    intro w l hl
    cases w with
    | nil => cases hl
    | cons c w =>
      obtain rfl := List.mem_singleton.mp hl
      rfl
  have hline : ∀ line : DocLine, ∀ l ∈ line.lexemes, l.kind.isLayout = true := fun line =>
    List.forall_mem_append.mpr ⟨hspace line.indent, by simp; decide⟩
  have hblank : ∀ w, ∀ l ∈ blankLexemes w, l.kind.isLayout = true := by
    intro w
    rw [blankLexemes]
    split
    · simp; decide
    · exact List.forall_mem_append.mpr ⟨hspace w, by simp; decide⟩
  exact List.forall_mem_append.mpr ⟨List.forall_mem_flatMap.mpr fun line _ => hline line,
    List.forall_mem_append.mpr ⟨List.forall_mem_flatMap.mpr fun w _ => hblank w,
      hspace block.indent⟩⟩

/-! ### The walk back -/

variable {t : SyntaxTree} {ids rest : List NodeId} {id : NodeId} {gap : Nat}

theorem linesBefore_newline (h : t.tokenKind? id = some .newline) (ids : List NodeId) :
    linesBefore t gap (id :: ids) =
      if maxGap ≤ gap then [] else linesBefore t (gap + 1) ids := by
  rw [linesBefore, h]

theorem linesBefore_space (h : t.tokenKind? id = some .whitespace) (ids : List NodeId) :
    linesBefore t gap (id :: ids) = linesBefore t gap ids := by
  rw [linesBefore, h]

theorem linesBefore_doc {line : DocLine} (h : t.tokenKind? id = some .comment)
    (htext : t.textOf id = .ofList line.comment) (ids : List NodeId) :
    linesBefore t gap (id :: ids) = line.text :: linesBefore t 0 ids := by
  have hmarker : marker.isPrefixOf (t.textOf id).toList = true := by
    rw [htext, String.toList_ofList, DocLine.comment]
    simp
  rw [linesBefore, h, htext, ← line.lineOf_comment]
  rw [htext] at hmarker
  exact if_pos hmarker

/-- The nodes are leaves that read as these lexemes. -/
def Reads (t : SyntaxTree) (ids : List NodeId) (ls : List Lexeme) : Prop :=
  ids.map (fun id => (t.tokenKind? id, t.textOf id)) =
    ls.map fun l => (some l.kind, String.ofList l.chars)

theorem Reads.cons {l : Lexeme} {ls : List Lexeme} (h : Reads t ids (l :: ls)) :
    ∃ id more, ids = id :: more ∧ t.tokenKind? id = some l.kind ∧
      t.textOf id = .ofList l.chars ∧ Reads t more ls := by
  obtain ⟨id, more, rfl, hid, hmore⟩ := List.map_eq_cons_iff.mp h
  exact ⟨id, more, rfl, (Prod.mk.inj hid).1, (Prod.mk.inj hid).2, hmore⟩

theorem Reads.append {ls ms : List Lexeme} (h : Reads t ids (ls ++ ms)) :
    ∃ front back, ids = front ++ back ∧ Reads t front ls ∧ Reads t back ms := by
  rw [Reads, List.map_append] at h
  exact List.map_eq_append_iff.mp h

theorem Reads.eq_nil (h : Reads t ids []) : ids = [] := List.map_eq_nil_iff.mp h

theorem Reads.reverse {ls : List Lexeme} (h : Reads t ids ls) :
    Reads t ids.reverse ls.reverse := by
  rw [Reads, List.map_reverse, List.map_reverse, h]

theorem linesBefore_indent {w : List Char} (h : Reads t ids (nonempty .whitespace w))
    (rest : List NodeId) : linesBefore t gap (ids ++ rest) = linesBefore t gap rest := by
  rcases Lexeme.nonempty_cases .whitespace w with hnil | hone
  · rw [hnil] at h
    rw [h.eq_nil, List.nil_append]
  · rw [hone] at h
    obtain ⟨id, more, rfl, hid, -, hmore⟩ := h.cons
    rw [hmore.eq_nil]
    exact linesBefore_space hid rest

theorem reverse_nonempty (k : TokenKind) (w : List Char) :
    (nonempty k w).reverse = nonempty k w := by
  cases w with
  | nil => rfl
  | cons c w => rfl

/-- A blank line is one more line end. -/
theorem linesBefore_blank {w : List Char} (h : Reads t ids (blankLexemes w).reverse)
    (rest : List NodeId) :
    linesBefore t gap (ids ++ rest) =
      if maxGap ≤ gap then [] else linesBefore t (gap + 1) rest := by
  obtain ⟨ending, v, hblank⟩ : ∃ ending v,
      (blankLexemes w).reverse = ⟨.newline, ending⟩ :: nonempty .whitespace v := by
    rw [blankLexemes]
    split
    · exact ⟨_, [], rfl⟩
    · exact ⟨['\n'], w, by rw [List.reverse_append, reverse_nonempty]; rfl⟩
  rw [hblank] at h
  obtain ⟨id, more, rfl, hid, -, hmore⟩ := h.cons
  rw [List.cons_append, linesBefore_newline hid, linesBefore_indent hmore]

theorem linesBefore_blanks {ws : List (List Char)} (hgap : gap ≤ maxGap)
    (h : Reads t ids (ws.flatMap fun w => (blankLexemes w).reverse)) (rest : List NodeId) :
    linesBefore t gap (ids ++ rest) =
      if gap + ws.length ≤ maxGap then linesBefore t (gap + ws.length) rest else [] := by
  induction ws generalizing gap ids with
  | nil => rw [h.eq_nil, List.length_nil, Nat.add_zero, if_pos hgap, List.nil_append]
  | cons w ws ih =>
    obtain ⟨front, back, rfl, hfront, hback⟩ := h.append
    rw [List.append_assoc, linesBefore_blank hfront, List.length_cons]
    by_cases hfull : maxGap ≤ gap
    · rw [if_pos hfull, if_neg (by omega)]
    · rw [if_neg hfull, ih (Nat.lt_of_not_le hfull) hback,
        Nat.succ_add_eq_add_succ]

/-- A doc comment is behind one more line end, its own. -/
theorem linesBefore_line {line : DocLine} (h : Reads t ids line.lexemes.reverse)
    (rest : List NodeId) :
    linesBefore t gap (ids ++ rest) =
      if maxGap ≤ gap then [] else line.text :: linesBefore t 0 rest := by
  rw [DocLine.lexemes, List.reverse_append, reverse_nonempty] at h
  obtain ⟨ending, more, rfl, hending, -, hmore⟩ := h.cons
  obtain ⟨comment, more, rfl, hcomment, htext, hmore⟩ := hmore.cons
  rw [List.cons_append, linesBefore_newline hending, List.cons_append,
    linesBefore_doc hcomment htext, linesBefore_indent hmore]

theorem linesBefore_lines {lines : List DocLine} (hgap : gap < maxGap)
    (h : Reads t ids (lines.flatMap fun line => line.lexemes.reverse)) :
    linesBefore t gap ids = lines.map DocLine.text := by
  induction lines generalizing gap ids with
  | nil => rw [h.eq_nil]; rfl
  | cons line lines ih =>
    obtain ⟨front, back, rfl, hfront, hback⟩ := h.append
    rw [linesBefore_line hfront, if_neg (Nat.not_le_of_lt hgap), ih (by decide) hback,
      List.map_cons]

/-- The whole block is found unless there are blank lines for all of the gap. -/
theorem linesBefore_block {block : Block} (h : Reads t ids block.lexemes) :
    linesBefore t 0 ids.reverse =
      if block.blanks.length < maxGap then (block.lines.map DocLine.text).reverse else [] := by
  have hback := h.reverse
  rw [Block.lexemes, List.reverse_append, List.reverse_append, reverse_nonempty,
    List.reverse_flatMap, List.reverse_flatMap, List.append_assoc] at hback
  obtain ⟨indent, more, hids, hindent, hmore⟩ := hback.append
  obtain ⟨blanks, lines, rfl, hblanks, hlines⟩ := hmore.append
  rw [hids, linesBefore_indent hindent, linesBefore_blanks (Nat.zero_le _) hblanks,
    List.length_reverse, Nat.zero_add]
  rcases Nat.lt_trichotomy block.blanks.length maxGap with hlt | heq | hgt
  · rw [if_pos hlt.le, if_pos hlt, linesBefore_lines hlt hlines, List.map_reverse]
  · obtain ⟨line, earlier, hlast⟩ :=
      List.exists_cons_of_ne_nil (List.reverse_ne_nil_iff.mpr block.lines_ne_nil)
    rw [hlast] at hlines
    obtain ⟨front, back, rfl, hfront, -⟩ := hlines.append
    rw [if_pos heq.le, if_neg (by omega), linesBefore_line hfront, if_pos heq.ge]
  · rw [if_neg (by omega), if_neg (by omega)]

theorem takeWhile_lex_block (block : Block) {code : List Char} (hcode : Visible code) :
    (lex (.ofList (block.chars ++ code))).takeWhile (·.kind.isLayout) =
      Lexeme.tile 0 block.lexemes := by
  obtain ⟨l, ls, htext, hl⟩ := exists_ofText block hcode
  rw [lex_eq_tile, htext, Lexeme.tile_append, List.append_assoc, List.takeWhile_append_of_pos]
  · have hcode : ¬ (l.tokenAt (0 + Text.size (block.lexemes.flatMap Lexeme.chars))).kind.isLayout =
        true := Bool.eq_false_iff.mp hl
    rw [Lexeme.tile, List.cons_append,
      List.takeWhile_cons_of_neg (p := fun x : Token => x.kind.isLayout) hcode, List.append_nil]
  · intro x hx
    obtain ⟨m, hm, hkind⟩ := Lexeme.kind_of_mem_tile hx
    rw [← hkind]
    exact isLayout_of_mem_lexemes block m hm

theorem flatMap_chars_block (block : Block) {code : List Char} (hcode : Visible code) :
    ∃ after, block.chars ++ code = block.lexemes.flatMap Lexeme.chars ++ after := by
  obtain ⟨l, ls, htext, -⟩ := exists_ofText block hcode
  have hchars := Lexeme.flatMap_chars_ofText (.ofList (block.chars ++ code))
  rw [htext, List.flatMap_append, String.toList_ofList] at hchars
  exact ⟨_, hchars.symm⟩

theorem reads_block {block : Block} {code : List Char} (hcode : Visible code)
    (htext : t.text = .ofList (block.chars ++ code))
    (h : t.Leaves ids ((lex t.text).takeWhile (·.kind.isLayout))) :
    Reads t ids block.lexemes := by
  rw [htext, takeWhile_lex_block block hcode] at h
  obtain ⟨after, hafter⟩ := flatMap_chars_block block hcode
  have htexts := Lexeme.map_text_tile block.lexemes [] after
  rw [List.nil_append, ← hafter, ← htext] at htexts
  have hkinds := congrArg (List.map some) (Lexeme.map_kind_tile 0 block.lexemes)
  rw [List.map_map, List.map_map] at hkinds
  rw [Reads, ← List.zip_map', ← List.zip_map', h.map_tokenKind?, h.map_textOf]
  exact congrArg₂ List.zip hkinds htexts

/-! ### Only what stands before the statement -/

/-- The node is a doc comment. -/
def isDoc (t : SyntaxTree) (id : NodeId) : Bool :=
  t.isTokenOf .comment id && marker.isPrefixOf (t.textOf id).toList

theorem isLayout_of_tokenKind? {kind : TokenKind} (h : t.tokenKind? id = some kind)
    (hkind : kind.isLayout = true) : t.isLayout id = true := by
  obtain ⟨node, hnode, htoken⟩ := Option.bind_eq_some_iff.mp h
  rw [SyntaxTree.isLayout, hnode, Option.any_some, NodeKind.isLayout, htoken]
  exact hkind

/-- The lines are the doc comments among some nearest nodes, all of which are layout. -/
def Near (t : SyntaxTree) (ids : List NodeId) (lines : List String) : Prop :=
  ∃ near, near <+: ids.takeWhile t.isLayout ∧
    lines = (near.filter (isDoc t)).map fun c => lineOf (t.textOf c)

namespace Near

variable {lines : List String} {kind : TokenKind}

theorem nil (t : SyntaxTree) (ids : List NodeId) : Near t ids [] :=
  ⟨[], List.nil_prefix, rfl⟩

theorem skip (h : Near t ids lines) (hid : t.tokenKind? id = some kind)
    (hkind : kind.isLayout = true) (hdoc : isDoc t id = false) : Near t (id :: ids) lines := by
  obtain ⟨near, hnear, hlines⟩ := h
  refine ⟨id :: near, ?_, ?_⟩
  · rw [List.takeWhile_cons_of_pos (isLayout_of_tokenKind? hid hkind)]
    exact (List.prefix_cons_inj id).mpr hnear
  · rw [hlines, List.filter_cons_of_neg (Bool.eq_false_iff.mp hdoc)]

theorem doc (h : Near t ids lines) (hid : t.tokenKind? id = some .comment)
    (hdoc : isDoc t id = true) : Near t (id :: ids) (lineOf (t.textOf id) :: lines) := by
  obtain ⟨near, hnear, hlines⟩ := h
  refine ⟨id :: near, ?_, ?_⟩
  · rw [List.takeWhile_cons_of_pos (isLayout_of_tokenKind? hid rfl)]
    exact (List.prefix_cons_inj id).mpr hnear
  · rw [hlines, List.filter_cons_of_pos hdoc, List.map_cons]

end Near

theorem isDoc_of_comment (h : t.tokenKind? id = some .comment) :
    isDoc t id = marker.isPrefixOf (t.textOf id).toList := by
  rw [isDoc, SyntaxTree.isTokenOf, h, decide_eq_true rfl, Bool.true_and]

theorem isDoc_of_ne {kind : TokenKind} (h : t.tokenKind? id = some kind) (hkind : kind ≠ .comment) :
    isDoc t id = false := by
  rw [isDoc, SyntaxTree.isTokenOf, h, decide_eq_false (by simpa using hkind), Bool.false_and]

/-- The walk back takes doc comments only, and ends where layout does. -/
theorem near_linesBefore (t : SyntaxTree) (gap : Nat) (ids : List NodeId) :
    Near t ids (linesBefore t gap ids) := by
  fun_induction linesBefore t gap ids with
  | case1 => exact .nil t _
  | case2 gap id ids hkind hmarker ih => exact ih.doc hkind ((isDoc_of_comment hkind).trans hmarker)
  | case3 => exact .nil t _
  | case4 gap id ids hkind hmarker _ ih =>
    exact ih.skip hkind rfl ((isDoc_of_comment hkind).trans (Bool.eq_false_iff.mpr hmarker))
  | case5 => exact .nil t _
  | case6 gap id ids hkind _ ih => exact ih.skip hkind rfl (isDoc_of_ne hkind (by decide))
  | case7 gap id ids hkind ih => exact ih.skip hkind rfl (isDoc_of_ne hkind (by decide))
  | case8 => exact .nil t _

/-! ### The documentation of a parsed function -/

theorem anchor_eq {function statement : NodeId} (hparent : t.parent? function = some statement)
    (hstatement : t.isKind .file statement = false) : anchor t function = statement := by
  rw [anchor, hparent, Option.filter_some, hstatement]
  rfl

/-- Doc comments at the start of a source document the function that the first statement assigns,
unless blank lines take up all of the gap; and for every source all that documents a function from
above is doc comments among the layout right before the statement around it, so that none stands
before another statement. -/
theorem docString_of_parse {text : String} {limit : Nat} {p : Parse}
    (hp : parse text limit = .ok p) (function : NodeId) :
    (∀ (block : Block) (code : List Char) (statement : NodeId),
      text = .ofList (block.chars ++ code) → Visible code →
      (p.tree.significantChildren p.tree.root).head? = some statement →
      p.tree.isKind .assignmentStatement statement = true →
      p.tree.parent? function = some statement →
      docString? p.tree function = if block.blanks.length < maxGap
        then some ("\n".intercalate (block.lines.map DocLine.text))
        else joined? (opening p.tree function)) ∧
    ∃ near, near <+: (p.tree.siblingsBefore (anchor p.tree function)).takeWhile p.tree.isLayout ∧
      docString? p.tree function =
        (joined? ((near.filter (isDoc p.tree)).map fun c => lineOf (p.tree.textOf c)).reverse).or
          (joined? (opening p.tree function)) := by
  refine ⟨fun block code statement htext hcode hfirst hkind hparent => ?_, ?_⟩
  · obtain ⟨os, more, hfound⟩ := Grammar.found (lex text)
    have hbuild := (parseTokens_eq_ok hfound hp).1
    have hstatement : p.tree.kind? statement = some .assignmentStatement := by
      simpa [SyntaxTree.isKind] using hkind
    obtain ⟨ids, hbefore, hleaves⟩ :=
      hfound.exists_leading hbuild hfirst hstatement rfl (by decide)
    have htree := SyntaxTree.text_of_build hbuild
    have hanchor : anchor p.tree function = statement :=
      anchor_eq hparent (by simp [SyntaxTree.isKind, hstatement])
    have habove : above p.tree function = if block.blanks.length < maxGap
        then block.lines.map DocLine.text else [] := by
      rw [above, hanchor, hbefore,
        linesBefore_block (reads_block hcode (htree.trans htext) (htree.symm ▸ hleaves))]
      split <;> simp
    rw [docString?, habove]
    split
    · rw [joined?, if_neg (by simpa using block.lines_ne_nil), Option.some_or]
    · rfl
  · obtain ⟨near, hnear, hlines⟩ :=
      near_linesBefore p.tree 0 (p.tree.siblingsBefore (anchor p.tree function))
    exact ⟨near, hnear, by rw [docString?, above, hlines]⟩

/-- Two doc comments and a blank line. -/
def blankBlock : Block :=
  ⟨[⟨[], [' ', 'a'], List.forall_mem_nil _, by decide, by decide⟩,
    ⟨[], [' ', 'b'], List.forall_mem_nil _, by decide, by decide⟩], [[]], [],
    List.cons_ne_nil _ _, by simp, List.forall_mem_nil _⟩

theorem docString_of_parse_blank :
    ∃ p, parse "#' a\n#' b\n\nf <- function() 1" 1 = .ok p ∧
      p.tree.isKind .functionExpression 18 = true ∧ docString? p.tree 18 = some "a\nb" := by
  have hparse : (parse "#' a\n#' b\n\nf <- function() 1" 1).toOption.any (fun p =>
      p.tree.isKind .functionExpression 18 && p.tree.parent? 18 == some 19 &&
        p.tree.isKind .assignmentStatement 19 &&
        (p.tree.significantChildren p.tree.root).head? == some 19) = true := by
    decide +kernel
  obtain ⟨p, hp, hsome⟩ := exists_of_any_toOption hparse
  simp only [Bool.and_eq_true, beq_iff_eq] at hsome
  obtain ⟨⟨⟨hfunction, hparent⟩, hkind⟩, hfirst⟩ := hsome
  have hdoc := (docString_of_parse hp 18).1 blankBlock "f <- function() 1".toList 19
    (by decide +kernel) (by decide) hfirst hkind hparent
  exact ⟨p, hp, hfunction, hdoc.trans ((if_pos (by decide)).trans (by decide +kernel))⟩

/-- Two blank lines are a gap too many. -/
theorem docString_lost : ∃ p, parse "#' a\n#' b\n\n\nf <- function() 1" 1 = .ok p ∧
    p.tree.isKind .functionExpression 19 = true ∧ p.tree.parent? 19 = some 20 ∧
    p.tree.isKind .assignmentStatement 20 = true ∧ docString? p.tree 19 = none := by
  have hparse : (parse "#' a\n#' b\n\n\nf <- function() 1" 1).toOption.any (fun p =>
      p.tree.isKind .functionExpression 19 && p.tree.parent? 19 == some 20 &&
        p.tree.isKind .assignmentStatement 20 && docString? p.tree 19 == none) = true := by
    decide +kernel
  obtain ⟨p, hp, hsome⟩ := exists_of_any_toOption hparse
  simp only [Bool.and_eq_true, beq_iff_eq] at hsome
  obtain ⟨⟨⟨hfunction, hparent⟩, hkind⟩, hdoc⟩ := hsome
  exact ⟨p, hp, hfunction, hparent, hkind, hdoc⟩

end RSource.DocString
