import RSource.Proofs.Grammar.Climbing
import RSource.Proofs.Lossless

/-! The levels of operators are those of the grammar.  A term that has the parentheses its operators
ask for is parsed without errors, and its tree is the term. -/

namespace RSource

open Lexeme

/-! ### The cursor at a term -/

namespace Cursor

/-- A cursor at words with blanks between them, the last ones of a text. -/
theorem At.exists_spells : ∀ (ls : List Lexeme) {place : Nat} {c : Cursor},
    (∀ l ∈ ls, l.kind.isLayout = false ∧ l.kind ≠ .endOfFile) →
    c.At place false (ls.intersperse blank) →
    ∃ d, c.Spells place (ls.map Lexeme.kind) d ∧ d.kind = .endOfFile
  | [], _, c, _, hc => ⟨c, rfl, hc.ended⟩
  | [l], _, c, h, hc => by
    obtain ⟨hlayout, hend⟩ := h l List.mem_cons_self
    obtain ⟨htakes, hline, hnext⟩ := hc.takes hlayout hend
    exact ⟨c.advance, ⟨⟨htakes.index, htakes.kind, hend, hline, htakes.remaining⟩, rfl⟩,
      hnext.ended⟩
  | l :: m :: ls, place, c, h, hc => by
    obtain ⟨hlayout, hend⟩ := h l List.mem_cons_self
    have hsplit : (l :: m :: ls).intersperse blank =
        l :: blank :: (m :: ls).intersperse blank := rfl
    rw [hsplit] at hc
    obtain ⟨htakes, hline, hnext⟩ := hc.takes hlayout hend
    obtain ⟨d, hd, hlast⟩ := At.exists_spells (m :: ls)
      (fun x hx => h x (List.mem_cons_of_mem _ hx)) (hnext.trivia rfl)
    exact ⟨d, ⟨⟨htakes.index, htakes.kind, hend, hline, htakes.remaining⟩, hd⟩, hlast⟩

end Cursor

/-! ### Statements -/

namespace Grammar

open RSource.Parser

theorem parses_manyFor_none {p : Parser (Option (List Outline))} {context : Context} {c : Cursor}
    (h : Parses p context c c none) (items : List Item) :
    Parses (manyFor p items) context c c [] := by
  cases items with
  | nil => rfl
  | cons item items => exact h.bind rfl

theorem parses_statement_none {expressions : Expressions} {context : Context} {c : Cursor}
    (hend : c.kind = .endOfFile) :
    Parses (statement? expressions .empty) context c c none := by
  have hatEnd : c.atEnd = true := by simp [Cursor.atEnd, hend]
  rw [Parses, statement?, isAt, look_bind, hend, if_neg (by decide), look_bind, hatEnd,
    Bool.true_or, if_pos rfl]
  rfl

theorem parses_statement {expressions : Expressions} {context : Context} {c d : Cursor}
    {o : Outline} (hc : starters.contains c.kind = true)
    (h : Parses (expressions Rule.all) context c d (some o))
    (hends : statementEnds .empty d = true) :
    Parses (statement? expressions .empty) context c d (some [o]) := by
  have hkind : ∀ k, starters.contains k = false → c.kind ≠ k := by
    rintro k hk rfl
    rw [hc] at hk
    cases hk
  have hsemi : ¬ c.kind = .semicolon := hkind _ rfl
  have hopen : ¬ (c.atEnd || TokenSet.empty.contains c.kind) = true := by
    simpa [Cursor.atEnd] using hkind .endOfFile rfl
  rw [Parses, statement?_of_starter hsemi hopen hc, bind_apply, h]
  simp only [look_bind, hends, if_true]
  rfl

end Grammar

/-! ### The parse of a term -/

namespace Term

open RSource.Parser RSource.Grammar

variable {e : Term}

theorem visible (e : Term) : ∀ l ∈ e.lexemes, l.kind.isLayout = false ∧ l.kind ≠ .endOfFile := by
  intro l hl
  have hvisible := (e.stands l hl).1.visible
  refine ⟨hvisible, fun hend => ?_⟩
  obtain ⟨c, w, -, hscan⟩ := (e.stands l hl).1.scan_eq
  have hkind := scan_ne_endOfFile c w
  rw [hscan] at hkind
  exact hkind hend

/-- A term begins like an expression. -/
theorem exists_starter (e : Term) : ∃ k ks, e.kinds = k :: ks ∧ starters.contains k = true := by
  induction e with
  | name word =>
    refine ⟨word.kind, [], rfl, ?_⟩
    rw [List.mem_singleton.mp word.mem]
    rfl
  | number word =>
    refine ⟨word.kind, [], rfl, ?_⟩
    have hmem := word.mem
    simp only [List.mem_cons, List.not_mem_nil, or_false] at hmem
    rcases hmem with h | h | h
    all_goals rw [h]; rfl
  | group inner ih => exact ⟨.leftParen, _, rfl, rfl⟩
  | binary operator left right ihl ihr =>
    obtain ⟨k, ks, hkinds, hk⟩ := ihl
    refine ⟨k, ks ++ operator.kind :: right.kinds, ?_, hk⟩
    rw [← List.cons_append, ← hkinds]
    simp [kinds, lexemes]

/-- A source that is a term is read as one statement. -/
theorem Ordered.source {c d : Cursor} (he : e.Ordered) (hspells : c.Spells 0 e.kinds d)
    (hend : d.kind = .endOfFile) :
    Parses Grammar.source .statements c d (.node .file [e.outline 0]) := by
  have hroom := hspells.remaining
  have hdepth := e.depth_lt
  rw [length_kinds] at hroom
  have hcloses : Closes (Rule.all.drop 0) d.kind := by rw [hend]; decide
  have hexpression : Parses (expressionsUpTo (c.remaining + 1) Rule.all) .statements c d
      (some (e.outline 0)) :=
    he.read.1 .statements (Nat.zero_le _) (by omega) hspells hcloses
  have hstarter : starters.contains c.kind = true := by
    obtain ⟨k, ks, hkinds, hk⟩ := e.exists_starter
    rw [hkinds] at hspells
    rw [hspells.1.2.1]
    exact hk
  have hstatements : Parses (statements (expressionsUpTo (c.remaining + 1)) .empty) .statements c d
      [e.outline 0] := by
    have hends : statementEnds .empty d = true := by simp [statementEnds, Cursor.atEnd, hend]
    rw [Parses, statements, many, look_bind, Cursor.items, manyFor]
    exact (parses_statement hstarter hexpression hends).bind
      ((parses_manyFor_none (parses_statement_none hend) c.after).bind rfl)
  rw [Parses, Grammar.source, look_bind]
  exact (hstatements.row (parses_row_nil _ _)).node .file

theorem print_tokens (e : Term) :
    lex e.print = Lexeme.place 0 (e.lexemes.intersperse blank) := by
  rw [lex_eq_place, e.ofText_print]

/-- A term that is written with blanks between its words is read as one statement. -/
theorem Ordered.source_print (he : e.Ordered) :
    ∃ d, Parses Grammar.source .statements (.ofTokens (lex e.print)) d
      (.node .file [e.outline 0]) := by
  have hat := Cursor.at_ofTokens (e.lexemes.intersperse blank)
  rw [← e.print_tokens] at hat
  obtain ⟨d, hspells, hend⟩ := hat.exists_spells e.lexemes e.visible
  exact ⟨d, he.source hspells hend⟩

theorem map_intersperse {α β : Type} (f : α → β) (x : α) : ∀ xs : List α,
    (xs.intersperse x).map f = (xs.map f).intersperse (f x)
  | [] => rfl
  | [_] => rfl
  | y :: z :: xs => congrArg (f y :: f x :: ·) (map_intersperse f x (z :: xs))

/-- The words of the term and the blanks between them are the texts of the tokens. -/
theorem map_text_tokens (e : Term) :
    ((lex e.print).takeWhile (·.kind ≠ .endOfFile)).map (·.text e.print) =
      e.words.intersperse " " := by
  have hpieces := map_text_tile (e.lexemes.intersperse blank) [] []
  rw [List.nil_append, List.append_nil, ← e.ofText_print, flatMap_chars_ofText,
    String.ofList_toList, Text.size_nil] at hpieces
  rw [takeWhile_lex, hpieces, e.ofText_print]
  have hwords : e.lexemes.map (fun l => String.ofList l.chars) = e.words := by
    have := congrArg (List.map String.ofList) e.map_chars_lexemes
    simpa [Function.comp_def] using this
  rw [map_intersperse, hwords]
  rfl

end Term

theorem Grammar.Found.outline_eq {tokens : List Token} {os ps : List Outline} {more : List Nat}
    {d : Cursor} (hfound : Found tokens os more)
    (h : Parser.Parses Grammar.source .statements (.ofTokens tokens) d (.node .file ps)) :
    os = ps := by
  have houtline := hfound.outline
  rw [h] at houtline
  simpa using houtline.symm

/-- What is read without a problem is parsed without errors. -/
theorem parse_of_parses {text : String} {os : List Outline} {d : Cursor}
    (hsize : Text.byteLength text ≤ maxOffset)
    (h : Parser.Parses Grammar.source .statements (.ofTokens (lex text)) d (.node .file os))
    (limit : Nat) :
    ∃ p, parse text limit = .ok p ∧ p.errors = [] ∧ p.tree.outline = [.node .file os] ∧
      p.tree.text = text ∧ p.tree.leaves = (lex text).takeWhile (·.kind ≠ .endOfFile) := by
  obtain ⟨p, hp, htext, hleaves⟩ := parseTokens_ok hsize (lex text) limit
  obtain ⟨os', more, hfound⟩ := Grammar.found (lex text)
  obtain ⟨hbuild, herrors⟩ := parseTokens_eq_ok hfound hp
  have hos := hfound.outline_eq h
  refine ⟨p, hp, ?_, ?_, htext, hleaves⟩
  · rw [herrors, Parser.run, h]
    exact List.take_nil
  · rw [SyntaxTree.build_outline text rfl hfound.plain hfound.significant hfound.ending hbuild,
      hos]

/-- A term in which each operand has the parentheses that it needs is parsed without errors, and the
tree is that of the term. -/
theorem parse_print {e : Term} (he : e.Ordered) (hsize : Text.byteLength e.print ≤ maxOffset)
    (limit : Nat) :
    ∃ p, parse e.print limit = .ok p ∧ p.errors = [] ∧
      p.tree.outline = [.node .file [e.outline 0]] ∧
      p.tree.leaves.map (·.text p.tree.text) = e.words.intersperse " " := by
  obtain ⟨d, hsource⟩ := he.source_print
  obtain ⟨p, hp, herrors, houtline, htext, hleaves⟩ := parse_of_parses hsize hsource limit
  exact ⟨p, hp, herrors, houtline, by rw [htext, hleaves, e.map_text_tokens]⟩

theorem parse_print_assignment :
    let x : Term := .name ⟨"x", .identifier, by decide, by decide +kernel⟩
    let two : Term := .number ⟨"2", .numeric, by decide, by decide +kernel⟩
    let minus : Operator := .symbol .sum "-" .minus (by decide)
    let power : Operator := .symbol .power "^" .power (by decide)
    let arrow : Operator := .symbol .leftArrow "<-" .leftAssign (by decide)
    let e : Term := .binary arrow x
      (.binary minus (.binary minus x two) (.binary power x (.binary power two two)))
    e.Ordered ∧ Text.byteLength e.print ≤ maxOffset ∧
      ∃ p, parse e.print 1 = .ok p ∧ p.errors = [] ∧
        p.tree.outline = [.node .file [e.outline 0]] ∧
        p.tree.leaves.map (·.text p.tree.text) = e.words.intersperse " " := by
  intro x two minus power arrow e
  have he : e.Ordered := by
    simp [e, x, two, minus, power, arrow, Term.Ordered, Operator.level, Level.grouping, Level.rank,
      Term.rank]
  have hsize : Text.byteLength e.print ≤ maxOffset := by decide +kernel
  exact ⟨he, hsize, parse_print he hsize 1⟩

end RSource
