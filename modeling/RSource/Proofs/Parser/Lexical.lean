import RSource.Proofs.Cascade
import RSource.Proofs.Errors
import RSource.Proofs.Grammar.Climbing
import RSource.Proofs.Tree.Significant

/-! Parsing the lexemes of a text where none is layout.  A part that reads lexemes without a problem
is followed from lexeme to lexeme (`Reads`), with the kinds of what it gives; what it does depends
on the lexemes behind only as far as it looks. -/

namespace RSource

open Lexeme (Cuts)

namespace Lexeme

variable {before ls : List Lexeme} {l : Lexeme}

/-- The kind of the lexeme `n` places ahead, or that of the end of the text. -/
def kindAhead (ls : List Lexeme) (n : Nat) : TokenKind := (ls[n]?.map Lexeme.kind).getD .endOfFile

theorem kindAhead_of_kinds {ms : List Lexeme} {k : TokenKind} {ks : List TokenKind}
    (h : ms.map Lexeme.kind = k :: ks) (rest : List Lexeme) : kindAhead (ms ++ rest) 0 = k := by
  obtain ⟨l, ms, rfl, hl, -⟩ := List.map_eq_cons_iff.mp h
  exact hl

theorem getElem?_place : ∀ offset : Nat, (place offset (before ++ l :: ls))[before.length]? =
    some (l.tokenAt (offset + Text.size (before.flatMap Lexeme.chars))) := by
  induction before with
  | nil => exact fun offset => rfl
  | cons b before ih =>
    intro offset
    rw [List.cons_append, place, List.length_cons, List.getElem?_cons_succ, ih, List.flatMap_cons,
      Text.size_append, Lexeme.size, Nat.add_assoc]

end Lexeme

namespace Cursor

variable {text : String} {tokens : List Token} {before ls : List Lexeme} {l : Lexeme} {c : Cursor}

/-- The items of lexemes that the grammar sees, and the end of file behind them. -/
theorem map_kind_ofTokens (hseen : ∀ l ∈ ls, l.kind.isLayout = false) :
    ∀ place newline last offset,
      (Item.ofTokens place newline last (Lexeme.place offset ls)).map (·.token.kind) =
        ls.map Lexeme.kind ++ [.endOfFile] := by
  induction ls with
  | nil => exact fun _ _ _ _ => rfl
  | cons l ls ih =>
    intro place newline last offset
    have hl : (l.tokenAt offset).kind.isLayout = false := hseen l List.mem_cons_self
    rw [Lexeme.place, Item.ofTokens_seen hl, List.map_cons,
      ih fun m hm => hseen m (List.mem_cons_of_mem _ hm)]
    rfl

/-- The cursor stands between the lexemes of a text, of which those ahead are no layout. -/
structure Between (text : String) (tokens : List Token) (before ls : List Lexeme) (c : Cursor) :
    Prop where
  cuts : Cuts (before ++ ls) [] text.toList
  lexed : tokens = Lexeme.place 0 (before ++ ls)
  seen : ∀ l ∈ ls, l.kind.isLayout = false
  along : c.Over tokens
  position : c.position = before.length
  stands : ∃ newline, c.At before.length newline ls

theorem between_ofTokens (hcuts : Cuts ls [] text.toList)
    (hseen : ∀ l ∈ ls, l.kind.isLayout = false) :
    (ofTokens (Lexeme.place 0 ls)).Between text (Lexeme.place 0 ls) [] ls :=
  ⟨hcuts, rfl, hseen, over_ofTokens _, congrArg List.length (ofTokens_items _).2, false,
    at_ofTokens ls⟩

namespace Between

theorem kind_ne (h : c.Between text tokens before (l :: ls)) : l.kind ≠ .endOfFile :=
  (h.cuts.sound l (List.mem_append_right _ List.mem_cons_self)).2

theorem takes (h : c.Between text tokens before (l :: ls)) :
    c.Takes before.length l.kind c.advance ∧ c.advance.Between text tokens (before ++ [l]) ls := by
  obtain ⟨newline, hat⟩ := h.stands
  obtain ⟨htakes, -, hnext⟩ := hat.takes (h.seen l List.mem_cons_self) h.kind_ne
  have hinside : c.atEnd = false := by
    rw [atEnd, htakes.kind]
    exact beq_eq_false_iff_ne.mpr h.kind_ne
  have hreads := h.along.advance hinside
  refine ⟨htakes, ?_, ?_, fun m hm => h.seen m (List.mem_cons_of_mem _ hm), h.along.reads hreads,
    ?_, false, ?_⟩
  · rw [List.append_assoc]
    exact h.cuts
  · rw [List.append_assoc]
    exact h.lexed
  · rw [Cursor.position, hreads.before, List.length_append, List.length_append, Nat.add_comm]
    exact congrArg (· + 1) h.position
  · rw [List.length_append]
    exact hnext

theorem getElem?_tokens (h : c.Between text tokens before (l :: ls)) :
    tokens[before.length]? = some (l.tokenAt (Text.size (before.flatMap Lexeme.chars))) := by
  rw [h.lexed, Lexeme.getElem?_place, Nat.zero_add]

/-- The text of the token is the lexeme. -/
theorem text_here (h : c.Between text tokens before (l :: ls)) :
    c.here.token.text text = String.ofList l.chars := by
  have htoken := h.along.here.token _ h.takes.1.index
  rw [h.getElem?_tokens] at htoken
  have htext : text.toList = before.flatMap Lexeme.chars ++ l.chars ++
      ls.flatMap Lexeme.chars := by
    rw [← h.cuts.flatMap_chars, List.flatMap_append, List.flatMap_cons, List.append_assoc]
  rw [Token.text, ← Option.some.inj htoken, ← String.ofList_toList (s := text), htext]
  exact Text.slice_ofList _ _ _

theorem map_kind_items (h : c.Between text tokens before ls) :
    c.items.map (·.token.kind) = ls.map Lexeme.kind ++ [.endOfFile] := by
  obtain ⟨newline, offset, last, hitems⟩ := h.stands
  rw [hitems]
  exact map_kind_ofTokens h.seen _ _ _ _

theorem length_items (h : c.Between text tokens before ls) : c.items.length = ls.length + 1 := by
  simpa using congrArg List.length h.map_kind_items

/-- The kind of what stands `n` places ahead. -/
theorem kindAhead_eq (h : c.Between text tokens before ls) (n : Nat) :
    c.kindAhead n = Lexeme.kindAhead ls n := by
  have hkinds := h.map_kind_items
  have hlast : (c.after.getLastD c.here).token.kind = .endOfFile := by
    have hget := congrArg List.getLast? hkinds
    rw [List.getLast?_map, items, List.getLast?_cons, List.getLast?_concat, Option.map_some,
      ← List.getLastD_eq_getLast?] at hget
    exact Option.some.inj hget
  have hget := congrArg (·[n]?) hkinds
  simp only [List.getElem?_map] at hget
  rw [kindAhead, ahead, Lexeme.kindAhead]
  rcases Nat.lt_or_ge n ls.length with hn | hn
  · rw [List.getElem?_append_left (by simpa using hn), List.getElem?_map] at hget
    obtain ⟨item, hitem, hkind⟩ := Option.map_eq_some_iff.mp
      (hget.trans (congrArg _ (List.getElem?_eq_getElem hn)))
    rw [hitem, List.getElem?_eq_getElem hn]
    exact hkind
  · rw [List.getElem?_append_right (by simpa using hn), List.length_map] at hget
    rw [List.getElem?_eq_none hn]
    cases hitem : c.items[n]? with
    | none => exact hlast
    | some item =>
      -- Behind the lexemes stands only the end of the file.
      rw [hitem] at hget
      have hmem := List.mem_of_getElem? hget.symm
      exact List.mem_singleton.mp hmem

theorem kind_eq (h : c.Between text tokens before ls) : c.kind = Lexeme.kindAhead ls 0 := by
  rw [← h.kindAhead_eq]
  rfl

theorem atEnd_eq (h : c.Between text tokens before (l :: ls)) : c.atEnd = false := by
  rw [atEnd, h.kind_eq]
  exact beq_eq_false_iff_ne.mpr h.kind_ne

end Between

end Cursor

/-! ### What is given -/

namespace Outline

mutual
/-- Below every node stands a row of kinds that is allowed there. -/
def Keeps (tokens : List Token) (allowed : NodeKind → List NodeKind → Prop) : Outline → Prop
  | .token _ => True
  | .node kind os => (∃ ks, allowed kind ks ∧ os.map (kindAmong tokens) = ks.map some) ∧
      ForestKeeps tokens allowed os

def ForestKeeps (tokens : List Token) (allowed : NodeKind → List NodeKind → Prop) :
    List Outline → Prop
  | [] => True
  | o :: os => o.Keeps tokens allowed ∧ ForestKeeps tokens allowed os
end

variable {tokens : List Token} {allowed : NodeKind → List NodeKind → Prop} {os ps : List Outline}

theorem forestPlain_append : ForestPlain (os ++ ps) ↔ ForestPlain os ∧ ForestPlain ps := by
  induction os with
  | nil => simp [ForestPlain]
  | cons o os ih => simp [ForestPlain, ih, and_assoc]

theorem forestKeeps_append : ForestKeeps tokens allowed (os ++ ps) ↔
    ForestKeeps tokens allowed os ∧ ForestKeeps tokens allowed ps := by
  induction os with
  | nil => simp [ForestKeeps]
  | cons o os ih => simp [ForestKeeps, ih, and_assoc]

theorem ForestKeeps.of_mem {o : Outline} (h : ForestKeeps tokens allowed os) (ho : o ∈ os) :
    o.Keeps tokens allowed := by
  induction os with
  | nil => cases ho
  | cons p os ih =>
    rcases List.mem_cons.mp ho with rfl | ho
    · exact h.1
    · exact ih h.2 ho

/-- The outlines hold the tokens from `place` on and are of the given kinds. -/
structure Row (tokens : List Token) (allowed : NodeKind → List NodeKind → Prop) (place n : Nat)
    (ks : List NodeKind) (os : List Outline) : Prop where
  kinds : os.map (kindAmong tokens) = ks.map some
  places : forestTokens os = List.range' place n
  plain : ForestPlain os
  keeps : ForestKeeps tokens allowed os

namespace Row

variable {place m n : Nat} {ks ls : List NodeKind} {kind : NodeKind}

theorem nil (place : Nat) : Row tokens allowed place 0 [] [] := ⟨rfl, rfl, trivial, trivial⟩

theorem append (h : Row tokens allowed place m ks os)
    (h' : Row tokens allowed (place + m) n ls ps) :
    Row tokens allowed place (m + n) (ks ++ ls) (os ++ ps) := by
  refine ⟨?_, ?_, ?_, ?_⟩
  · rw [List.map_append, List.map_append, h.kinds, h'.kinds]
  · rw [forestTokens_append, h.places, h'.places, List.range'_append_1]
  · exact forestPlain_append.mpr ⟨h.plain, h'.plain⟩
  · exact forestKeeps_append.mpr ⟨h.keeps, h'.keeps⟩

theorem token {t : Token} (ht : tokens[place]? = some t) :
    Row tokens allowed place 1 [.token t.kind] [.token place] := by
  refine ⟨?_, rfl, ⟨trivial, trivial⟩, trivial, trivial⟩
  rw [List.map_singleton, kindAmong, ht]
  rfl

theorem node (h : Row tokens allowed place n ks os) (hkind : kind.tokenKind? = none)
    (hallowed : allowed kind ks) : Row tokens allowed place n [kind] [.node kind os] := by
  refine ⟨rfl, ?_, ⟨⟨hkind, h.plain⟩, trivial⟩, ⟨⟨ks, hallowed, h.kinds⟩, h.keeps⟩, trivial⟩
  rw [← h.places]
  exact List.append_nil _

end Row

end Outline

namespace Parser

open Lexeme (kindAhead)

/-- The errors come in the order of their places, from `first` on and before `last`, and are about
the problems. -/
structure Noted (first last : Nat) (problems : List Problem) (es : List ParseError) : Prop where
  bounds : first ≤ last
  problems : es.map (·.problem) = problems
  ordered : es.Pairwise fun e e' => e.place < e'.place
  within : ∀ e ∈ es, first ≤ e.place ∧ e.place < last

theorem noted_nil {first last : Nat} (h : first ≤ last) : Noted first last [] [] :=
  ⟨h, rfl, .nil, fun _ h => absurd h List.not_mem_nil⟩

theorem Noted.widen {m first last n : Nat} {problems : List Problem} {es : List ParseError}
    (h : Noted first last problems es) (hm : m ≤ first) (hn : last ≤ n) : Noted m n problems es :=
  ⟨Nat.le_trans hm (Nat.le_trans h.bounds hn), h.problems, h.ordered, fun e he =>
    ⟨Nat.le_trans hm (h.within e he).1, Nat.lt_of_lt_of_le (h.within e he).2 hn⟩⟩

theorem Noted.append {first mid last : Nat} {problems more : List Problem}
    {es es' : List ParseError} (h : Noted first mid problems es) (h' : Noted mid last more es') :
    Noted first last (problems ++ more) (es ++ es') := by
  have hordered : ∀ e ∈ es, ∀ e' ∈ es', e.place < e'.place := fun e he e' he' =>
    Nat.lt_of_lt_of_le (h.within e he).2 (h'.within e' he').1
  refine ⟨Nat.le_trans h.bounds h'.bounds, ?_,
    List.pairwise_append.mpr ⟨h.ordered, h'.ordered, hordered⟩, fun e he => ?_⟩
  · rw [List.map_append, h.problems, h'.problems]
  · rcases List.mem_append.mp he with he | he
    · exact ⟨(h.within e he).1, Nat.lt_of_lt_of_le (h.within e he).2 h'.bounds⟩
    · exact ⟨Nat.le_trans h.bounds (h'.within e he).1, (h'.within e he).2⟩

/-- The parser goes over the lexemes `ms` with `rest` behind them, gives outlines of the kinds `ks`,
and meets the problems between two places. -/
def Gives {α : Type} (text : String) (tokens : List Token)
    (allowed : NodeKind → List NodeKind → Prop) (context : Context) (wrap : List Outline → α)
    (p : Parser α) (before ms rest : List Lexeme) (ks : List NodeKind) (first last : Nat)
    (problems : List Problem) : Prop :=
  ∀ c : Cursor, c.Between text tokens before (ms ++ rest) → ∃ os d es,
    p context c = ⟨wrap os, d, es⟩ ∧ d.Between text tokens (before ++ ms) rest ∧
    Outline.Row tokens allowed before.length ms.length ks os ∧ Noted first last problems es

/-- The part meets no problem. -/
abbrev Reads (text : String) (tokens : List Token) (allowed : NodeKind → List NodeKind → Prop)
    (context : Context) (p : Part) (before ms rest : List Lexeme) (ks : List NodeKind) : Prop :=
  Gives text tokens allowed context id p before ms rest ks 0 0 []

/-- The step of a repetition gives something and meets no problem. -/
abbrev Yields (text : String) (tokens : List Token) (allowed : NodeKind → List NodeKind → Prop)
    (context : Context) (step : Parser (Option (List Outline))) (before ms rest : List Lexeme)
    (ks : List NodeKind) : Prop :=
  Gives text tokens allowed context some step before ms rest ks 0 0 []

variable {text : String} {tokens : List Token} {allowed : NodeKind → List NodeKind → Prop}
variable {context : Context} {p : Part} {ps : List Part} {before ms ns rest : List Lexeme}
variable {l : Lexeme} {ks ls : List NodeKind} {k : TokenKind} {kind : NodeKind}
variable {first mid last : Nat} {problems more : List Problem}
variable {step : Parser (Option (List Outline))} {item : Item} {items : List Item}

/-- Where there is no problem, it may be sought between any places. -/
theorem Gives.anywhere {α : Type} {wrap : List Outline → α} {p : Parser α}
    (h : Gives text tokens allowed context wrap p before ms rest ks first last []) {m n : Nat}
    (hmn : m ≤ n) : Gives text tokens allowed context wrap p before ms rest ks m n [] := by
  intro c hc
  obtain ⟨os, d, es, hp, hd, hos, hes⟩ := h c hc
  obtain rfl := List.map_eq_nil_iff.mp hes.problems
  exact ⟨os, d, [], hp, hd, hos, noted_nil hmn⟩

/-- Problems between two places are between places further apart. -/
theorem Gives.widen {α : Type} {wrap : List Outline → α} {p : Parser α}
    (h : Gives text tokens allowed context wrap p before ms rest ks first last problems) {m n : Nat}
    (hm : m ≤ first) (hn : last ≤ n) :
    Gives text tokens allowed context wrap p before ms rest ks m n problems := by
  intro c hc
  obtain ⟨os, d, es, hp, hd, hos, hes⟩ := h c hc
  exact ⟨os, d, es, hp, hd, hos, hes.widen hm hn⟩

theorem Reads.parses (h : Reads text tokens allowed context p before ms rest ks) {c : Cursor}
    (hc : c.Between text tokens before (ms ++ rest)) : ∃ os d, Parses p context c d os ∧
      d.Between text tokens (before ++ ms) rest ∧
      Outline.Row tokens allowed before.length ms.length ks os := by
  obtain ⟨os, d, es, hp, hd, hos, hes⟩ := h c hc
  obtain rfl := List.map_eq_nil_iff.mp hes.problems
  exact ⟨os, d, hp, hd, hos⟩

/-- What is done at a cursor that has been looked at. -/
theorem Gives.look {α β : Type} {wrap : List Outline → α} {f : Cursor → β} {g : β → Parser α}
    {b : β} (hf : ∀ c, c.Between text tokens before (ms ++ rest) → f c = b)
    (h : Gives text tokens allowed context wrap (g b) before ms rest ks first last problems) :
    Gives text tokens allowed context wrap (Parser.look f >>= g) before ms rest ks first last
      problems := by
  intro c hc
  obtain ⟨os, d, es, hp, hd, hos, hes⟩ := h c hc
  refine ⟨os, d, es, ?_, hd, hos, hes⟩
  rw [look_bind, hf c hc]
  exact hp

/-- The current item is of the kind. -/
theorem Gives.there {g : Bool → Part} (hk : kindAhead (ms ++ rest) 0 = k)
    (h : Gives text tokens allowed context id (g true) before ms rest ks first last problems) :
    Gives text tokens allowed context id (isAt k >>= g) before ms rest ks first last problems :=
  h.look fun c hc => by rw [hc.kind_eq, hk, beq_self_eq_true]

/-- The current item is of another kind. -/
theorem Gives.elsewhere {g : Bool → Part} (hk : kindAhead (ms ++ rest) 0 ≠ k)
    (h : Gives text tokens allowed context id (g false) before ms rest ks first last problems) :
    Gives text tokens allowed context id (isAt k >>= g) before ms rest ks first last problems :=
  h.look fun c hc => by rw [hc.kind_eq]; exact beq_eq_false_iff_ne.mpr hk

/-! ### One after another -/

/-- One parser after another, the outlines of both in one row. -/
theorem Gives.bind {α β γ : Type} {wrap : List Outline → α} {wrap' : List Outline → β}
    {wrap'' : List Outline → γ} {p : Parser α} {q : Parser β} {f : α → Parser γ}
    (hf : ∀ (os os' : List Outline) (d e : Cursor) (es : List ParseError),
      q context d = ⟨wrap' os', e, es⟩ → f (wrap os) context d = ⟨wrap'' (os ++ os'), e, es⟩)
    (h : Gives text tokens allowed context wrap p before ms (ns ++ rest) ks first mid problems)
    (h' : Gives text tokens allowed context wrap' q (before ++ ms) ns rest ls mid last more) :
    Gives text tokens allowed context wrap'' (p >>= f) before (ms ++ ns) rest (ks ++ ls) first last
      (problems ++ more) := by
  intro c hc
  rw [List.append_assoc] at hc
  obtain ⟨os, d, es, hp, hd, hos, hes⟩ := h c hc
  obtain ⟨os', e, es', hq, he, hos', hes'⟩ := h' d hd
  rw [List.append_assoc] at he
  rw [List.length_append] at hos'
  refine ⟨os ++ os', e, es ++ es', ?_, he, ?_, hes.append hes'⟩
  · rw [bind_apply, hp, hf os os' d e es' hq]
  · rw [List.length_append]
    exact hos.append hos'

theorem Gives.row
    (h : Gives text tokens allowed context id p before ms (ns ++ rest) ks first mid problems)
    (h' : Gives text tokens allowed context id (Parser.row ps) (before ++ ms) ns rest ls mid last
      more) :
    Gives text tokens allowed context id (Parser.row (p :: ps)) before (ms ++ ns) rest (ks ++ ls)
      first last (problems ++ more) := by
  refine h.bind (fun os os' d e es hrow => ?_) h'
  rw [bind_apply, hrow, pure_apply, List.append_nil]
  rfl

/-- What is given stays the same when it is passed on. -/
theorem Gives.map {α β : Type} {wrap : List Outline → α} {wrap' : List Outline → β} {p : Parser α}
    {f : α → β} (h : Gives text tokens allowed context wrap p before ms rest ks first last problems)
    (hf : ∀ os, f (wrap os) = wrap' os) :
    Gives text tokens allowed context wrap' (do return f (← p)) before ms rest ks first last
      problems := by
  intro c hc
  obtain ⟨os, d, es, hp, hd, hos, hes⟩ := h c hc
  refine ⟨os, d, es, ?_, hd, hos, hes⟩
  rw [bind_apply, hp, pure_apply, List.append_nil, hf]

theorem Gives.single
    (h : Gives text tokens allowed context id p before ms rest ks first last problems) :
    Gives text tokens allowed context id (Parser.row [p]) before ms rest ks first last
      problems := by
  intro c hc
  obtain ⟨os, d, es, hp, hd, hos, hes⟩ := h c hc
  refine ⟨os, d, es, ?_, hd, hos, hes⟩
  rw [Parser.row, bind_apply, hp, Parser.row, bind_apply, pure_apply, pure_apply]
  simp

theorem Gives.node
    (h : Gives text tokens allowed context id (Parser.row ps) before ms rest ks first last problems)
    (hkind : kind.tokenKind? = none) (hallowed : allowed kind ks) :
    Gives text tokens allowed context id (one (Parser.node kind ps)) before ms rest [kind] first
      last problems := by
  intro c hc
  obtain ⟨os, d, es, hp, hd, hos, hes⟩ := h c hc
  refine ⟨[.node kind os], d, es, ?_, hd, hos.node hkind hallowed, hes⟩
  rw [one, bind_apply, Parser.node, bind_apply, hp, pure_apply, pure_apply]
  simp

theorem Gives.found
    (h : Gives text tokens allowed context id p before ms rest ks first last problems) :
    Gives text tokens allowed context some (do return some (← p)) before ms rest ks first last
      problems :=
  h.map fun _ => rfl

theorem Gives.found_one {p : Parser Outline}
    (h : Gives text tokens allowed context id (one p) before ms rest ks first last problems) :
    Gives text tokens allowed context some (do return some [← p]) before ms rest ks first last
      problems := by
  intro c hc
  obtain ⟨os, d, es, hp, hd, hos, hes⟩ := h c hc
  have hsame : (do return some [← p] : Parser (Option (List Outline))) context c =
      ⟨some (one p context c).value, (one p context c).cursor, (one p context c).errors⟩ := rfl
  refine ⟨os, d, es, ?_, hd, hos, hes⟩
  rw [hsame, hp]
  rfl

/-! ### Reading -/

theorem reads_nothing : Reads text tokens allowed context (return []) before [] rest [] :=
  fun c hc => ⟨[], c, [], rfl, by rwa [List.append_nil], .nil _, noted_nil (Nat.le_refl _)⟩

theorem reads_bump :
    Reads text tokens allowed context bump before [l] rest [.token l.kind] := by
  intro c hc
  obtain ⟨htakes, hnext⟩ := hc.takes
  exact ⟨_, _, [], Grammar.parses_bump htakes, hnext, .token hc.getElem?_tokens,
    noted_nil (Nat.le_refl _)⟩

theorem reads_leaf (hkind : kind.tokenKind? = none) (hallowed : allowed kind [.token l.kind]) :
    Reads text tokens allowed context (one (leaf kind)) before [l] rest [kind] :=
  reads_bump.single.node hkind hallowed

theorem reads_expect (problem : TokenKind → Problem) (hl : l.kind = k) :
    Reads text tokens allowed context (expect k problem) before [l] rest [.token l.kind] :=
  Gives.there hl reads_bump

theorem reads_eat (hl : l.kind = k) :
    Reads text tokens allowed context (eat k) before [l] rest [.token l.kind] :=
  Gives.there hl reads_bump

theorem reads_eat_nothing (hk : kindAhead rest 0 ≠ k) :
    Reads text tokens allowed context (eat k) before [] rest [] :=
  Gives.elsewhere hk reads_nothing

theorem Reads.row (h : Reads text tokens allowed context p before ms (ns ++ rest) ks)
    (h' : Reads text tokens allowed context (Parser.row ps) (before ++ ms) ns rest ls) :
    Reads text tokens allowed context (Parser.row (p :: ps)) before (ms ++ ns) rest (ks ++ ls) :=
  Gives.row h h'

/-- Taking up an item before a row. -/
theorem Gives.after_bump
    (h : Gives text tokens allowed context id (Parser.row ps) (before ++ [l]) ms rest ks first last
      problems) :
    Gives text tokens allowed context id (Parser.row (bump :: ps)) before (l :: ms) rest
      (.token l.kind :: ks) first last problems :=
  (reads_bump.anywhere (Nat.le_refl first)).row h

/-- Taking up as many items as there are lexemes. -/
theorem Gives.after_bumps
    (h : Gives text tokens allowed context id (Parser.row ps) (before ++ ms) ns rest ks first last
      problems) :
    Gives text tokens allowed context id (Parser.row (List.replicate ms.length bump ++ ps)) before
      (ms ++ ns) rest ((ms.map Lexeme.kind).map .token ++ ks) first last problems := by
  induction ms generalizing before with
  | nil => simpa using h
  | cons l ms ih =>
    rw [List.append_cons] at h
    exact (ih h).after_bump

/-- What is read without a problem, before a row. -/
theorem Reads.then (h : Reads text tokens allowed context p before ms (ns ++ rest) ks)
    (h' : Gives text tokens allowed context id (Parser.row ps) (before ++ ms) ns rest ls first last
      problems) :
    Gives text tokens allowed context id (Parser.row (p :: ps)) before (ms ++ ns) rest (ks ++ ls)
      first last problems :=
  (h.anywhere (Nat.le_refl first)).row h'

/-- A problem before what is read. -/
theorem Gives.after_report {problem : Problem}
    (h : Reads text tokens allowed context p before ms rest ks) :
    Gives text tokens allowed context id (report problem >>= fun _ => p) before ms rest ks
      before.length (before.length + 1) [problem] := by
  intro c hc
  obtain ⟨os, d, hp, hd, hos⟩ := h.parses hc
  refine ⟨os, d, (report problem context c).errors, ?_, hd, hos, Nat.le_succ _, rfl,
    List.pairwise_singleton _ _, fun e he => ?_⟩
  · have hcursor : (report problem context c).cursor = c := rfl
    rw [bind_apply, hcursor, hp, List.append_nil]
    rfl
  · have hplace : e.place = c.position := congrArg ParseError.place (List.mem_singleton.mp he)
    rw [hplace, hc.position]
    exact ⟨Nat.le_refl _, Nat.lt_succ_self _⟩

/-! ### Repetition -/

/-- The repetition of the step goes over the lexemes `ms`, if there is an item for each lexeme. -/
def Repeats (text : String) (tokens : List Token) (allowed : NodeKind → List NodeKind → Prop)
    (context : Context) (step : Parser (Option (List Outline))) (before ms rest : List Lexeme)
    (ks : List NodeKind) (first last : Nat) (problems : List Problem) : Prop :=
  ∀ items : List Item, (ms ++ rest).length < items.length →
    Gives text tokens allowed context id (manyFor step items) before ms rest ks first last problems

/-- A repetition ends where its step gives nothing. -/
theorem repeats_nil
    (h : ∀ c : Cursor, c.Between text tokens before rest → Parses step context c c none) :
    Repeats text tokens allowed context step before [] rest [] 0 0 [] := by
  intro items _ c hc
  exact ⟨[], c, [], Grammar.parses_manyFor_none (h c hc) items, by rwa [List.append_nil], .nil _,
    noted_nil (Nat.le_refl _)⟩

theorem Repeats.anywhere
    (h : Repeats text tokens allowed context step before ms rest ks first last []) {m n : Nat}
    (hmn : m ≤ n) : Repeats text tokens allowed context step before ms rest ks m n [] :=
  fun items hitems => (h items hitems).anywhere hmn

theorem Repeats.widen
    (h : Repeats text tokens allowed context step before ms rest ks first last problems) {m n : Nat}
    (hm : m ≤ first) (hn : last ≤ n) :
    Repeats text tokens allowed context step before ms rest ks m n problems :=
  fun items hitems => (h items hitems).widen hm hn

/-- A step that goes over something, and the repetition behind it. -/
theorem Gives.repeats (hms : ms ≠ [])
    (h : Gives text tokens allowed context some step before ms (ns ++ rest) ks first mid problems)
    (h' : Repeats text tokens allowed context step (before ++ ms) ns rest ls mid last more) :
    Repeats text tokens allowed context step before (ms ++ ns) rest (ks ++ ls) first last
      (problems ++ more) := by
  intro items hitems
  have hsome := List.length_pos_of_ne_nil hms
  cases items with
  | nil => cases hitems
  | cons item items =>
    refine h.bind (fun os os' d e es hmany => ?_) (h' items ?_)
    · show (manyFor step items >>= fun os' => pure (os ++ os')) context d = _
      rw [bind_apply, hmany, pure_apply, List.append_nil]
      rfl
    · simp only [List.length_append, List.length_cons] at hitems ⊢
      omega

theorem Yields.repeats (hms : ms ≠ [])
    (h : Yields text tokens allowed context step before ms (ns ++ rest) ks)
    (h' : Repeats text tokens allowed context step (before ++ ms) ns rest ls first last more) :
    Repeats text tokens allowed context step before (ms ++ ns) rest (ks ++ ls) first last more :=
  (h.anywhere (Nat.le_refl first)).repeats hms h'

theorem Repeats.many
    (h : Repeats text tokens allowed context step before ms rest ks first last problems) :
    Gives text tokens allowed context id (Parser.many step) before ms rest ks first last
      problems := by
  intro c hc
  exact h c.items (by rw [hc.length_items]; exact Nat.lt_succ_self _) c hc

/-- Taking up lexemes of some kinds stops at the first one of another kind. -/
theorem reads_bumpWhile {f : Cursor → Bool} {g : TokenKind → Bool} (hf : ∀ c, f c = g c.kind)
    (hms : ∀ l ∈ ms, g l.kind = true)
    (hrest : kindAhead rest 0 = .endOfFile ∨ g (kindAhead rest 0) = false) :
    Reads text tokens allowed context (bumpWhile f) before ms rest
      ((ms.map Lexeme.kind).map .token) := by
  refine Repeats.many ?_
  induction ms generalizing before with
  | nil =>
    refine repeats_nil fun c hc => ?_
    have hstop : (!c.atEnd && f c) = false := by
      rw [hf, Cursor.atEnd, hc.kind_eq]
      rcases hrest with hend | hno
      · rw [hend]
        rfl
      · rw [hno, Bool.and_false]
    rw [Parses, look_bind, hstop]
    rfl
  | cons l ms ih =>
    have hstep : Yields text tokens allowed context (do
        if ← look fun c => !c.atEnd && f c then return some (← bump) else return none)
        before [l] (ms ++ rest) [.token l.kind] := by
      refine Gives.look (b := true) (fun c hc => ?_) reads_bump.found
      have hkind : c.kind = l.kind := hc.kind_eq
      rw [hc.atEnd_eq, hf, hkind, hms l List.mem_cons_self]
      rfl
    exact hstep.repeats (List.cons_ne_nil _ _)
      (ih fun m hm => hms m (List.mem_cons_of_mem _ hm))

end Parser

end RSource
