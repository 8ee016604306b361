import RSource.Proofs.Grammar.DocComment
import RSource.Proofs.Lexeme.DocTag

/-! The grammar of `@param` tags.  A tag is read as one row with a parameter around every name, and
nothing else in a line of names is read as a tag for parameters. -/

namespace RSource.Grammar.DocComment

open RSource.Parser
open Lexeme (kindAhead)
open Lexeme.Doc (Content Gap MoreNames Lists ListLines listed listed_cons)

variable {text : String} {tokens : List Token} {before ms ns rest : List Lexeme} {l : Lexeme}
variable {os ps : List Outline} {names more : List String} {c : Cursor}

/-! ### Tags -/

/-- The outlines of a list of names: a parameter around every name. -/
def nameRow (place : Nat) : List Lexeme → List Outline
  | [] => []
  | l :: ls =>
    (if l.kind = .docIdentifier then .node .roxygenParameter [.token place] else .token place) ::
      nameRow (place + 1) ls

theorem nameRow_append (ls ms : List Lexeme) : ∀ place,
    nameRow place (ls ++ ms) = nameRow place ls ++ nameRow (place + ls.length) ms := by
  induction ls with
  | nil => exact fun place => rfl
  | cons l ls ih =>
    intro place
    rw [List.cons_append, nameRow, ih, nameRow, List.length_cons, Nat.add_comm ls.length,
      Nat.add_assoc]
    rfl

/-- What stands before a name is taken up, and the name is a parameter. -/
theorem parses_named (hms : ∀ l ∈ ms, l.kind ≠ .docIdentifier) (hl : l.kind = .docIdentifier)
    (hc : c.Between text tokens before (ms ++ [l] ++ rest)) : ∃ d,
      Parses (row (List.replicate ms.length bump ++ [one (leaf .roxygenParameter)])) .docComment c d
        (nameRow before.length (ms ++ [l])) ∧
      d.Between text tokens (before ++ (ms ++ [l])) rest := by
  induction ms generalizing before c with
  | nil =>
    obtain ⟨htakes, hd⟩ := hc.takes
    refine ⟨_, ?_, hd⟩
    have hleaf := (parses_leaf .docComment .roxygenParameter htakes).one.single
    simpa [nameRow, hl] using hleaf
  | cons m ms ih =>
    obtain ⟨htakes, hd⟩ := hc.takes
    obtain ⟨e, hp, he⟩ := ih (fun l hl => hms l (List.mem_cons_of_mem _ hl)) hd
    rw [List.append_assoc, List.singleton_append] at he
    refine ⟨e, ?_, he⟩
    have hm : m.kind ≠ .docIdentifier := hms m List.mem_cons_self
    rw [List.cons_append, nameRow, if_neg hm]
    rw [List.length_append] at hp
    exact (parses_bump htakes).row hp

theorem ne_docIdentifier_of_gap (h : Gap ms) : ∀ l ∈ ms, l.kind ≠ .docIdentifier := by
  rcases h.cases with rfl | ⟨l, rfl, hl⟩
  · exact List.forall_mem_nil _
  · exact List.forall_mem_singleton.mpr (by rw [hl]; decide)

theorem parses_moreNames (h : MoreNames ms) (hrest : Absent .docComma rest) :
    ∀ {before : List Lexeme} {c : Cursor} (items : List Item), ms.length < items.length →
      c.Between text tokens before (ms ++ rest) → ∃ d,
        Parses (manyFor moreName? items) .docComment c d (nameRow before.length ms) ∧
        d.Between text tokens (before ++ ms) rest := by
  induction h with
  | nil =>
    intro before c items _ hc
    have hnone : Parses moreName? .docComment c c none := by
      rw [Parses, moreName?, look_bind, gap?_eq_none hc hrest]
      rfl
    exact ⟨c, parses_manyFor_none hnone items, by rwa [List.append_nil]⟩
  | @cons comma name b a ls hbefore hcomma hafter hname hls ih =>
    intro before c items hitems hc
    have hshape : b ++ comma :: (a ++ name :: ls) = (b ++ comma :: a ++ [name]) ++ ls := by simp
    have hgap : gap? c = some (b ++ comma :: a).length := by
      rw [List.append_assoc, List.cons_append, List.append_assoc, List.cons_append] at hc
      exact gap?_eq_some hc hbefore hcomma hafter hname
    have hmarks : ∀ l ∈ b ++ comma :: a, l.kind ≠ .docIdentifier :=
      List.forall_mem_append.mpr ⟨ne_docIdentifier_of_gap hbefore,
        List.forall_mem_cons.mpr ⟨by rw [hcomma]; decide, ne_docIdentifier_of_gap hafter⟩⟩
    rw [hshape, List.append_assoc] at hc
    obtain ⟨d, hp, hd⟩ := parses_named hmarks hname hc
    cases items with
    | nil => cases hitems
    | cons item items =>
      obtain ⟨e, hmore, he⟩ := ih items (by simp at hitems; omega) hd
      rw [hshape, nameRow_append, ← List.append_assoc before]
      refine ⟨e, ?_, he⟩
      have hstep : Parses moreName? .docComment c d
          (some (nameRow before.length (b ++ comma :: a ++ [name]))) := by
        rw [Parses, moreName?, look_bind, hgap]
        exact hp.bind rfl
      rw [List.length_append] at hmore
      exact hstep.bind (hmore.bind rfl)

/-- A `@param` tag is a row with a parameter around every name. -/
theorem parses_paramTag {tag gap name : Lexeme} (htag : tag.kind = .docTagName)
    (hgap : gap.kind = .docWhitespace) (hname : name.kind = .docIdentifier) (hms : MoreNames ms)
    (hrest : Absent .docComma rest)
    (hc : c.Between text tokens before (tag :: gap :: name :: (ms ++ rest))) : ∃ d,
      Parses paramTag .docComment c d
        (.node .roxygenParamTag (nameRow before.length (tag :: gap :: name :: ms))) ∧
      d.Between text tokens (before ++ tag :: gap :: name :: ms) rest := by
  obtain ⟨htag', hd⟩ := hc.takes
  obtain ⟨hgap', he⟩ := hd.takes
  obtain ⟨hname', hf⟩ := he.takes
  obtain ⟨g, hmore, hg⟩ := parses_moreNames hms hrest c.advance.advance.advance.items
    (by rw [hf.length_items, List.length_append]; omega) hf
  simp only [List.length_append, List.length_singleton] at htag' hgap' hname' hmore
  have hspace : Parses (do
      if ← look fun c => c.kind == .docWhitespace && c.kindAhead 1 == .docIdentifier then bump
      else return []) .docComment c.advance c.advance.advance [.token (before.length + 1)] := by
    have hlook : (c.advance.kind == .docWhitespace &&
        c.advance.kindAhead 1 == .docIdentifier) = true := by
      rw [hd.kind_eq, hd.kindAhead_eq]
      simp [kindAhead, hgap, hname]
    rw [Parses, look_bind, hlook, if_pos rfl]
    exact parses_bump hgap'
  have hnames : Parses (do
      if ← isAt .docIdentifier then row [one (leaf .roxygenParameter), moreNames]
      else
        report .noDocParameter
        return []) .docComment c.advance.advance g
        (nameRow (before.length + 2) (name :: ms)) := by
    have hat : (c.advance.advance.kind == .docIdentifier) = true := by
      rw [he.kind_eq]
      exact beq_iff_eq.mpr hname
    have hmany : Parses (many moreName?) .docComment c.advance.advance.advance g
        (nameRow (before.length + 1 + 1 + 1) ms) := by
      rw [Parses, many, look_bind]
      exact hmore
    have hmoreNames : moreNames = many moreName? := rfl
    rw [← hmoreNames] at hmany
    have hrow := (parses_leaf .docComment .roxygenParameter hname').one.row hmany.single
    rw [nameRow, if_pos hname, Parses, isAt, look_bind, hat, if_pos rfl]
    exact hrow
  refine ⟨g, ?_, ?_⟩
  · have hrow := (parses_bump htag').row (hspace.row hnames.single)
    rw [nameRow, if_neg (by rw [htag]; decide), nameRow, if_neg (by rw [hgap]; decide)]
    exact hrow.node .roxygenParamTag
  · simpa using hg

/-! ### Lines -/

/-- The tags for parameters among the outlines are rows of names, and list these names. -/
inductive Tagged (text : String) (tokens : List Token) : List Outline → List String → Prop
  | nil : Tagged text tokens [] []
  | other {o : Outline} {os : List Outline} {names : List String}
      (ho : o.kind? ≠ some .roxygenParamTag) (h : Tagged text tokens os names) :
    Tagged text tokens (o :: os) names
  | tag {before ls rest : List Lexeme} {c : Cursor} {os : List Outline} {names : List String}
      (hc : c.Between text tokens before (ls ++ rest)) (h : Tagged text tokens os names) :
    Tagged text tokens (.node .roxygenParamTag (nameRow before.length ls) :: os)
      (listed ls ++ names)

theorem Tagged.append (h : Tagged text tokens os names) (h' : Tagged text tokens ps more) :
    Tagged text tokens (os ++ ps) (names ++ more) := by
  induction h with
  | nil => exact h'
  | other ho _ ih => exact .other ho ih
  | tag hc _ ih =>
    rw [List.append_assoc]
    exact .tag hc ih

theorem tagged_of_kinds {ks : List NodeKind}
    (h : os.map (Outline.kindAmong tokens) = ks.map some) (hks : .roxygenParamTag ∉ ks) :
    Tagged text tokens os [] := by
  induction os generalizing ks with
  | nil => exact .nil
  | cons o os ih =>
    obtain ⟨k, ks, rfl, hk, hrest⟩ := List.map_eq_cons_iff.mp h.symm
    rw [List.mem_cons, not_or] at hks
    refine .other (fun ho => ?_) (ih hrest.symm hks.2)
    cases o with
    | token i => cases ho
    | node kind os =>
      obtain rfl := Option.some.inj ho
      exact hks.1 (Option.some.inj hk).symm

variable {α : Type} {wrap : List Outline → α}

/-- The parser goes over the lexemes `ms` with `rest` behind them, meets no problem, and gives
outlines whose tags list the names. -/
def Brings (text : String) (tokens : List Token) (wrap : List Outline → α) (p : Parser α)
    (before ms rest : List Lexeme) (names : List String) : Prop :=
  ∀ c : Cursor, c.Between text tokens before (ms ++ rest) → ∃ os d,
    Parses p .docComment c d (wrap os) ∧ d.Between text tokens (before ++ ms) rest ∧
    Tagged text tokens os names

variable {p : Parser α} {ks : List NodeKind}

/-- Where no tag is among the kinds, no name is listed. -/
theorem brings_of_gives
    (h : Gives text tokens Whole .docComment wrap p before ms rest ks 0 0 [])
    (hks : .roxygenParamTag ∉ ks) : Brings text tokens wrap p before ms rest [] := by
  intro c hc
  obtain ⟨os, d, es, hp, hd, hos, hes⟩ := h c hc
  obtain rfl := List.map_eq_nil_iff.mp hes.problems
  exact ⟨os, d, hp, hd, tagged_of_kinds hos.kinds hks⟩

theorem brings_bump : Brings text tokens id bump before [l] rest [] :=
  brings_of_gives reads_bump (by simp)

theorem Brings.look {β : Type} {f : Cursor → β} {g : β → Parser α} {b : β}
    (hf : ∀ c, c.Between text tokens before (ms ++ rest) → f c = b)
    (h : Brings text tokens wrap (g b) before ms rest names) :
    Brings text tokens wrap (Parser.look f >>= g) before ms rest names := by
  intro c hc
  obtain ⟨os, d, hp, hd, hos⟩ := h c hc
  refine ⟨os, d, ?_, hd, hos⟩
  rw [Parses, look_bind, hf c hc]
  exact hp

theorem Brings.row {p : Part} {parts : List Part}
    (h : Brings text tokens id p before ms (ns ++ rest) names)
    (h' : Brings text tokens id (Parser.row parts) (before ++ ms) ns rest more) :
    Brings text tokens id (Parser.row (p :: parts)) before (ms ++ ns) rest (names ++ more) := by
  intro c hc
  rw [List.append_assoc] at hc
  obtain ⟨os, d, hp, hd, hos⟩ := h c hc
  obtain ⟨ps, e, hq, he, hps⟩ := h' d hd
  rw [List.append_assoc] at he
  exact ⟨os ++ ps, e, hp.row hq, he, hos.append hps⟩

theorem Brings.single {p : Part} (h : Brings text tokens id p before ms rest names) :
    Brings text tokens id (Parser.row [p]) before ms rest names := by
  intro c hc
  obtain ⟨os, d, hp, hd, hos⟩ := h c hc
  exact ⟨os, d, hp.single, hd, hos⟩

theorem Brings.found {p : Part} (h : Brings text tokens id p before ms rest names) :
    Brings text tokens some (do return some (← p)) before ms rest names := by
  intro c hc
  obtain ⟨os, d, hp, hd, hos⟩ := h c hc
  exact ⟨os, d, hp.bind rfl, hd, hos⟩

/-- A step of a repetition, and the repetition behind it. -/
theorem Brings.repeats {step : Parser (Option (List Outline))} (hms : ms ≠ [])
    (h : Brings text tokens some step before ms (ns ++ rest) names)
    (h' : ∀ items : List Item, (ns ++ rest).length < items.length →
      Brings text tokens id (manyFor step items) (before ++ ms) ns rest more)
    (items : List Item) (hitems : (ms ++ ns ++ rest).length < items.length) :
    Brings text tokens id (manyFor step items) before (ms ++ ns) rest (names ++ more) := by
  have hsome := List.length_pos_of_ne_nil hms
  cases items with
  | nil => cases hitems
  | cons item items =>
    intro c hc
    rw [List.append_assoc] at hc
    obtain ⟨os, d, hp, hd, hos⟩ := h c hc
    obtain ⟨ps, e, hq, he, hps⟩ := h' items
      (by simp only [List.length_append, List.length_cons] at hitems ⊢; omega) d hd
    rw [List.append_assoc] at he
    exact ⟨os ++ ps, e, hp.bind (hq.bind rfl), he, hos.append hps⟩

theorem brings_many {step : Parser (Option (List Outline))}
    (h : ∀ items : List Item, (ms ++ rest).length < items.length →
      Brings text tokens id (manyFor step items) before ms rest names) :
    Brings text tokens id (many step) before ms rest names := by
  intro c hc
  obtain ⟨os, d, hp, hd, hos⟩ := h c.items (by rw [hc.length_items]; exact Nat.lt_succ_self _) c hc
  exact ⟨os, d, hp, hd, hos⟩

variable (text tokens before) in
/-- A tag with its names is a piece of a line. -/
theorem brings_tag {tag gap name : Lexeme} (htag : tag.kind = .docTagName)
    (hparam : tag.chars = "@param".toList) (hgap : gap.kind = .docWhitespace)
    (hname : name.kind = .docIdentifier) (hms : MoreNames ms) (hrest : Absent .docComma rest) :
    Brings text tokens some (piece? text) before (tag :: gap :: name :: ms) rest
      (listed (name :: ms)) := by
  intro c hc
  obtain ⟨d, hp, hd⟩ := parses_paramTag htag hgap hname hms hrest hc
  have hkind : c.kind = .docTagName := hc.kind_eq.trans htag
  have hended : lineEnded c = false := by
    rw [lineEnded, Cursor.atEnd, hkind]
    rfl
  have htext : (c.here.token.text text == "@param") = true := by
    rw [hc.text_here, hparam]
    rfl
  have hlisted : listed (tag :: gap :: name :: ms) ++ [] = listed (name :: ms) := by
    rw [List.append_nil, listed_cons (by rw [htag]; decide), listed_cons (by rw [hgap]; decide)]
  have htagged : Tagged text tokens
      [.node .roxygenParamTag (nameRow before.length (tag :: gap :: name :: ms))]
      (listed (name :: ms)) := by
    rw [← hlisted]
    exact .tag hc .nil
  refine ⟨_, d, ?_, hd, htagged⟩
  rw [Parses, piece?, look_bind, hended, if_neg Bool.false_ne_true, kind, look_bind, hkind]
  dsimp only
  rw [look_bind, htext, if_pos rfl]
  exact hp.bind rfl

/-- What stands in a line of names. -/
theorem brings_content (h : Lists ms names) (hrest : Ended rest) :
    Brings text tokens id (content text) before ms rest names := by
  obtain @⟨marker, space, tag, gap, name, ms, ls, hmarker, hspace, htag, hparam, hgap, hname, hms,
    hls⟩ := h
  have hlast : ∀ items : List Item, (ls ++ rest).length < items.length →
      Brings text tokens id (manyFor (piece? text) items)
        (before ++ [marker] ++ [space] ++ tag :: gap :: name :: ms) ls rest [] := by
    obtain ⟨ks, hsubset, hks⟩ := repeats_pieces text tokens
      (before ++ [marker] ++ [space] ++ tag :: gap :: name :: ms) hls hrest
    have hnone : NodeKind.roxygenParamTag ∉ ks := fun hmem => absurd (hsubset hmem) (by decide)
    exact fun items hitems => brings_of_gives (hks items hitems) hnone
  have htags := (brings_tag text tokens (before ++ [marker] ++ [space]) htag hparam hgap hname hms
    (absent_content (by decide) hls hrest)).repeats (List.cons_ne_nil _ _) hlast
  have hspaces : Brings text tokens some (piece? text) (before ++ [marker]) [space]
      ((tag :: gap :: name :: ms) ++ ls ++ rest) [] :=
    brings_of_gives (yields_plain (.inr hspace)) (by simp)
  have hrow := brings_bump.row (brings_many (hspaces.repeats (List.cons_ne_nil _ _) htags)).single
  simp only [List.nil_append, List.append_nil] at hrow
  refine Brings.look (b := true) (fun c hc => ?_) hrow
  have hkind : c.kind = .docMarker := hc.kind_eq.trans hmarker
  rw [hkind]
  rfl

/-- A line of names with its end. -/
theorem brings_line {tail : List Lexeme} (h : Lists ms names) (htail : Tail tail rest) :
    Brings text tokens some (line? text) before (ms ++ tail) rest names := by
  have hfirst : kindAhead (ms ++ tail ++ rest) 0 = .docMarker := by
    cases h with
    | mk hmarker => exact hmarker
  have hgap : Brings text tokens id (eat .docWhitespace) before [] (ms ++ tail ++ rest) [] :=
    brings_of_gives (reads_eat_nothing (by rw [hfirst]; decide)) List.not_mem_nil
  have hend : Brings text tokens id (eat .docNewline) (before ++ [] ++ ms) tail rest [] :=
    brings_of_gives (goes_tail htail) (by simp)
  have hparts := hgap.row ((brings_content h htail.ended).row hend.single)
  simp only [List.nil_append, List.append_nil] at hparts
  refine Brings.look (b := false) (fun c hc => ?_) hparts.found
  rw [Cursor.atEnd, hc.kind_eq, hfirst]
  rfl

variable (text tokens) in
/-- Lines of names up to the end of the text. -/
theorem brings_lines (h : ListLines ms names) : ∀ (before : List Lexeme) (items : List Item),
    (ms ++ []).length < items.length →
      Brings text tokens id (manyFor (line? text) items) before ms [] names := by
  have hnone : ∀ (before : List Lexeme) (items : List Item),
      Brings text tokens id (manyFor (line? text) items) before [] [] [] := by
    intro before items c hc
    have hend : Parses (line? text) .docComment c c none := by
      rw [Parses, line?, atEnd, look_bind, Cursor.atEnd, hc.kind_eq]
      rfl
    exact ⟨[], c, parses_manyFor_none hend items, by rwa [List.append_nil], .nil⟩
  induction h with
  | nil => exact fun before items _ => hnone before items
  | @last ls names hls =>
    intro before items hitems
    have hsome : ls ++ [] ≠ [] := by
      cases hls
      exact List.cons_ne_nil _ _
    have hline : Brings text tokens some (line? text) before (ls ++ []) ([] ++ []) names :=
      brings_line hls (.inl ⟨rfl, rfl⟩)
    have hlines := hline.repeats hsome (fun items _ => hnone _ items) items (by simpa using hitems)
    simpa using hlines
  | @cons ls ms newline names more hls hnewline hms ih =>
    intro before items hitems
    have hline : Brings text tokens some (line? text) before (ls ++ [newline]) (ms ++ []) names :=
      brings_line hls (.inr ⟨newline, rfl, hnewline⟩)
    rw [List.append_cons] at hitems ⊢
    exact hline.repeats (by simp) (ih _) items hitems

/-- A doc comment of lines of names. -/
theorem parses_comment (h : ListLines ms names) {c : Cursor}
    (hc : c.Between text tokens [] (ms ++ [])) : ∃ os d,
      Parses (comment text) .docComment c d (.node .roxygenComment os) ∧
      Tagged text tokens os names := by
  obtain ⟨os, d, hp, -, hos⟩ := brings_many (brings_lines text tokens h []) c hc
  exact ⟨os, d, hp.single.node _, hos⟩

end RSource.Grammar.DocComment
