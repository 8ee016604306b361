import RSource.Proofs.Except
import RSource.Proofs.Grammar.Built
import RSource.Proofs.Lexeme.Cover
import RSource.Proofs.Lexeme.Doc
import RSource.Proofs.Parser.Trace

/-! Where errors stand.  A parser goes over its items once, from the first to the last, and keeps
one error at each; so the errors of a parse come in the order of the text, and no two are about the
same token. -/

namespace RSource

namespace Lexeme

variable {ls : List Lexeme} {text : String} {t : Token}

/-- Each token starts behind the one before it. -/
theorem pairwise_start_place (hne : ∀ l ∈ ls, l.chars ≠ []) (offset : Nat) :
    (place offset ls).Pairwise (fun t u => t.span.start < u.span.start) ∧
      ∀ t ∈ place offset ls, offset ≤ t.span.start := by
  induction ls generalizing offset with
  | nil =>
    refine ⟨List.pairwise_singleton _ _, fun t ht => ?_⟩
    obtain rfl := List.mem_singleton.mp ht
    exact Nat.le_refl _
  | cons l ls ih =>
    obtain ⟨hl, hls⟩ := List.forall_mem_cons.mp hne
    obtain ⟨hrest, hstarts⟩ := ih hls (offset + l.size)
    have hpos : 0 < l.size := Text.size_pos hl
    refine ⟨List.pairwise_cons.mpr ⟨fun t ht => ?_, hrest⟩, List.forall_mem_cons.mpr ⟨?_, ?_⟩⟩
    · have hle := hstarts t ht
      show offset < t.span.start
      omega
    · exact Nat.le_refl _
    · intro t ht
      have hle := hstarts t ht
      omega

theorem cuts_ofText (text : String) : Cuts (ofText text) [] text.toList := by
  refine ⟨?_, fun l hl => ⟨chars_ne_nil_of_mem_ofText hl, kind_ne_endOfFile_of_mem_ofText hl⟩⟩
  rw [flatMap_chars_ofText, List.append_nil]

namespace Cuts

theorem flatMap_chars (h : Cuts ls [] text.toList) : ls.flatMap Lexeme.chars = text.toList := by
  rw [← h.chars, List.append_nil]

theorem place_eq (h : Cuts ls [] text.toList) :
    place 0 ls = tile 0 ls ++ [⟨.endOfFile, .point (Text.byteLength text)⟩] := by
  rw [place_eq_tile, h.flatMap_chars, Text.size_toList, Nat.zero_add]

/-- Only the last token is an end of file. -/
theorem eq_ending (h : Cuts ls [] text.toList) (ht : t ∈ place 0 ls)
    (hkind : t.kind = .endOfFile) : t = ⟨.endOfFile, .point (Text.byteLength text)⟩ := by
  rw [h.place_eq] at ht
  rcases List.mem_append.mp ht with ht | ht
  · obtain ⟨l, hl, hl'⟩ := kind_of_mem_tile ht
    exact absurd (hl'.trans hkind) (h.sound l hl).2
  · exact List.mem_singleton.mp ht

end Cuts

end Lexeme

/-- The items of tokens that end with an end of file are the tokens that are not layout. -/
theorem Item.map_token_ofTokens {last : Token} (hlast : last.kind = .endOfFile) (ts : List Token) :
    ∀ (place : Nat) (newline : Bool) (before : Option Token),
      (ofTokens place newline before (ts ++ [last])).map Item.token =
        (ts ++ [last]).filter fun t => !t.kind.isLayout := by
  have hend : last.kind.isLayout = false := by rw [hlast]; rfl
  induction ts with
  | nil =>
    intro place newline before
    rw [List.nil_append, List.filter_cons_of_pos (by rw [hend]; rfl)]
    simp [ofTokens, hlast, TokenKind.isTrivia]
  | cons t ts ih =>
    intro place newline before
    rw [List.cons_append, ofTokens, List.filter_cons, TokenKind.isLayout]
    by_cases hnewline : t.kind == .newline
    · rw [if_pos hnewline, hnewline, Bool.or_true, ih]
      rfl
    · rw [if_neg hnewline]
      by_cases htrivia : t.kind.isTrivia
      · rw [if_pos htrivia, htrivia, Bool.true_or, ih]
        rfl
      · rw [if_neg htrivia, List.map_cons, ih]
        simp [hnewline, htrivia]

/-- The errors of a text come in the order of its significant tokens, at most one for each; after
the last token there is a place for one more. -/
structure ErrorsAlong (text : String) (tokens : List Token) (errors : List ParseError) : Prop where
  ordered : errors.Pairwise fun e e' => e.span.start < e'.span.start
  once : (errors.map ParseError.span).Nodup
  about : ∀ e ∈ errors, (∃ t ∈ tokens, t.kind.isLayout = false ∧ t.kind ≠ .endOfFile ∧
    e.span = t.span) ∨ e.span = .point (Text.byteLength text)
  boundary : ∀ e ∈ errors, ∀ offset ∈ [e.span.start, e.span.stop],
    Text.isBoundary text offset = true

open Lexeme

namespace Lexeme.Cuts

variable {ls : List Lexeme} {text : String} {item : Item}

theorem map_token_items (h : Cuts ls [] text.toList) :
    (Item.ofTokens 0 false none (place 0 ls)).map Item.token =
      (place 0 ls).filter fun t => !t.kind.isLayout := by
  rw [h.place_eq]
  exact Item.map_token_ofTokens rfl _ 0 false none

/-- Each item starts behind the one before it. -/
theorem pairwise_start_items (h : Cuts ls [] text.toList) :
    (Item.ofTokens 0 false none (place 0 ls)).Pairwise
      fun i j => i.token.span.start < j.token.span.start := by
  have hstarts := (pairwise_start_place (fun l hl => (h.sound l hl).1) 0).1
  have htokens : ((Item.ofTokens 0 false none (place 0 ls)).map Item.token).Pairwise
      fun t u => t.span.start < u.span.start := by
    rw [h.map_token_items]
    exact hstarts.sublist List.filter_sublist
  rwa [List.pairwise_map] at htokens

theorem token_of_mem_items (h : Cuts ls [] text.toList)
    (hitem : item ∈ Item.ofTokens 0 false none (place 0 ls)) :
    item.token ∈ place 0 ls ∧ item.token.kind.isLayout = false := by
  have hmem := List.mem_map_of_mem (f := Item.token) hitem
  rw [h.map_token_items, List.mem_filter, Bool.not_eq_true'] at hmem
  exact hmem

/-- An error at an item is about its token; at the end of the file it is about the end. -/
theorem focus_of_mem_items (h : Cuts ls [] text.toList)
    (hitem : item ∈ Item.ofTokens 0 false none (place 0 ls)) :
    item.focus = item.token.span ∧ (item.token.kind = .endOfFile →
      item.token.span = .point (Text.byteLength text)) := by
  have hmem := (h.token_of_mem_items hitem).1
  by_cases hkind : item.token.kind = .endOfFile
  · have hending := h.eq_ending hmem hkind
    refine ⟨?_, fun _ => congrArg Token.span hending⟩
    rw [Item.focus, hending]
    rfl
  · refine ⟨?_, fun hend => absurd hend hkind⟩
    rw [Item.focus, if_neg (by simpa using hkind)]

end Lexeme.Cuts

/-- What is built goes along the text. -/
theorem errorsAlong_of_built {sighted : Prop} {p : Parser Outline} (hp : Parser.Built sighted p)
    {ls : List Lexeme} {text : String} (hcuts : Cuts ls [] text.toList) (context : Context)
    (limit : Nat) : ErrorsAlong text (place 0 ls) ((p.run context (place 0 ls)).2.take limit) := by
  obtain ⟨hplaces, habout⟩ := hp.run context (place 0 ls)
  have hstarts := List.pairwise_iff_getElem.mp hcuts.pairwise_start_items
  have hordered : (p.run context (place 0 ls)).2.Pairwise
      fun e e' => e.span.start < e'.span.start := by
    refine hplaces.imp_of_mem fun {e e'} he he' hlt => ?_
    obtain ⟨item, hitem, hspan⟩ := habout e he
    obtain ⟨item', hitem', hspan'⟩ := habout e' he'
    obtain ⟨hi, rfl⟩ := List.getElem?_eq_some_iff.mp hitem
    obtain ⟨hi', rfl⟩ := List.getElem?_eq_some_iff.mp hitem'
    rw [hspan, hspan', Item.focus_start, Item.focus_start]
    exact hstarts _ _ hi hi' hlt
  have hspans : ∀ e ∈ (p.run context (place 0 ls)).2.take limit, ∃ t ∈ place 0 ls,
      t.kind.isLayout = false ∧ (t.kind = .endOfFile → t.span = .point (Text.byteLength text)) ∧
        e.span = t.span := by
    intro e he
    obtain ⟨item, hitem, hspan⟩ := habout e (List.mem_of_mem_take he)
    have hmem := List.mem_of_getElem? hitem
    obtain ⟨htoken, hlayout⟩ := hcuts.token_of_mem_items hmem
    obtain ⟨hfocus, hending⟩ := hcuts.focus_of_mem_items hmem
    exact ⟨item.token, htoken, hlayout, hending, hspan.trans hfocus⟩
  have hkept := hordered.sublist (List.take_sublist limit _)
  refine ⟨hkept, ?_, fun e he => ?_, fun e he => ?_⟩
  · rw [List.Nodup, List.pairwise_map]
    exact hkept.imp fun hlt heq => Nat.ne_of_lt hlt (congrArg Span.start heq)
  · obtain ⟨t, ht, hlayout, hending, hspan⟩ := hspans e he
    by_cases hkind : t.kind = .endOfFile
    · exact .inr (hspan.trans (hending hkind))
    · exact .inl ⟨t, ht, hlayout, hkind, hspan⟩
  · obtain ⟨t, ht, -, -, hspan⟩ := hspans e he
    rw [hspan]
    exact isBoundary_of_mem_place hcuts.flatMap_chars ht

theorem errors_of_parseWith {entry : Entry} {parser : Parser Outline} {context : Context}
    {text : String} {tokens : List Token} {limit : Nat} {p : Parse}
    (h : parseWith entry parser context text tokens limit = .ok p) :
    p.errors = (parser.run context tokens).2.take limit := by
  rw [parseWith] at h
  obtain ⟨-, h⟩ := throw_or_eq_ok_iff.mp h
  obtain ⟨t, -, h⟩ := bind_eq_ok_iff.mp h
  rw [← Except.ok.inj h]
  rfl

theorem errorsAlong_of_parse {text : String} {limit : Nat} {p : Parse}
    (h : parse text limit = .ok p) : ErrorsAlong text (lex text) p.errors := by
  rw [errors_of_parseWith h, lex_eq_place]
  exact errorsAlong_of_built (Grammar.built_source : Parser.Built False _) (cuts_ofText text) _
    limit

/-- The errors of every parse, of a source with any limit and of a doc comment, come in the order of
the text and are about its tokens. -/
theorem parse_errorsAlong :
    (∀ text limit p, parse text limit = .ok p → ErrorsAlong text (lex text) p.errors) ∧
      ∀ text p, parseDoc text = .ok p → ErrorsAlong text (lexDoc text) p.errors := by
  refine ⟨fun text limit p h => errorsAlong_of_parse h, fun text p h => ?_⟩
  rw [errors_of_parseWith h]
  exact errorsAlong_of_built (Grammar.DocComment.built_comment text)
    (Doc.cuts_ofChars text.toList) _ _

theorem parse_errorsAlong_two :
    (∃ p, parse "f(é y\n)) 1 2" 2 = .ok p ∧ p.errors.map ParseError.span = [⟨5, 6⟩, ⟨8, 9⟩] ∧
      ErrorsAlong "f(é y\n)) 1 2" (lex "f(é y\n)) 1 2") p.errors) ∧
    ∃ p, parseDoc "é x\n#' @param\n" = .ok p ∧
      p.errors.map ParseError.span = [⟨0, 4⟩, ⟨14, 15⟩] ∧
      ErrorsAlong "é x\n#' @param\n" (lexDoc "é x\n#' @param\n") p.errors := by
  have hsource : (parse "f(é y\n)) 1 2" 2).toOption.any (fun p =>
      p.errors.map ParseError.span == [⟨5, 6⟩, ⟨8, 9⟩]) = true := by
    decide +kernel
  have hdoc : (parseDoc "é x\n#' @param\n").toOption.any (fun p =>
      p.errors.map ParseError.span == [⟨0, 4⟩, ⟨14, 15⟩]) = true := by
    decide +kernel
  obtain ⟨p, hp, hspans⟩ := exists_of_any_toOption hsource
  obtain ⟨q, hq, hspans'⟩ := exists_of_any_toOption hdoc
  exact ⟨⟨p, hp, by simpa using hspans, parse_errorsAlong.1 _ _ _ hp⟩,
    q, hq, by simpa using hspans', parse_errorsAlong.2 _ _ hq⟩

end RSource
