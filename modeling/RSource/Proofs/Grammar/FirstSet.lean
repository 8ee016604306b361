import RSource.Proofs.Grammar.Depth
import RSource.Token.Stream

/-! Where expressions begin.  The tokens that the list of statements looks for and the tokens that
the operand tells apart are the same: at every level an expression is found just where one of them
stands, and then an item is taken up.  So the list of statements never stands still. -/

namespace RSource

namespace Parser

/-- Where `begins` holds, the parser finds something and takes up an item at least.  Elsewhere it
finds nothing, stays where it is and meets no problem. -/
structure FindsIff {α : Type} (begins : Bool) (p : Parser (Option α)) (context : Context)
    (c : Cursor) : Prop where
  progress : begins = true → ∃ a x xs, (p context c).value = some a ∧
    c.Reads (x :: xs) (p context c).cursor
  nothing : begins = false → p context c = ⟨none, c, []⟩

variable {tokens : List Token} {begins : Bool} {context : Context} {c : Cursor}

/-- A parser of expressions moves whenever it finds one. -/
theorem Fits.findsIff {p : Parser (Option Outline)} (hover : c.Over tokens)
    (h : Fits tokens .lenient (fun _ => True) (maybe p) (1 + Production.expression .lenient))
    (hfound : begins = true → (p context c).value ≠ none)
    (hnothing : begins = false → p context c = ⟨none, c, []⟩) : FindsIff begins p context c := by
  refine ⟨fun hbegins => ?_, hnothing⟩
  obtain ⟨o, ho⟩ := Option.ne_none_iff_exists'.mp (hfound hbegins)
  have hfit := (h.of_pre : Fits tokens .lenient (· = c) _ _).value_some hover ho
  obtain ⟨hexpression, -⟩ := hfit.derived fun hstrict => by cases hstrict
  obtain ⟨xs, hxs, htokens⟩ := hfit.reads
  cases xs with
  | nil => exact absurd htokens (Production.hasToken_expression _ hexpression)
  | cons x xs => exact ⟨o, x, xs, ho, hxs⟩

end Parser

namespace Grammar

open RSource.Parser

variable {tokens : List Token} {expressions : Expressions} {context : Context} {c : Cursor}

theorem Conforms.findsIff_operand? (he : Conforms tokens .lenient expressions)
    (hover : c.Over tokens) :
    FindsIff (starters.contains c.kind) (Grammar.operand? expressions) context c :=
  he.operand?.findsIff hover operand?_starts operand?_misses

theorem Conforms.findsIff_climb (he : Conforms tokens .lenient expressions) (hover : c.Over tokens)
    {rules : List Rule} (hrules : rules ⊆ Rule.all) :
    FindsIff (starters.contains c.kind) (Grammar.climb expressions rules) context c :=
  (he.climb rules hrules).findsIff hover (climb_starts · rules) (climb_misses · rules)

theorem Conforms.findsIff_statement? (he : Conforms tokens .lenient expressions)
    (hfinds : Finds expressions) (hover : c.Over tokens) (closers : TokenSet) :
    FindsIff (goesOn closers c) (Grammar.statement? expressions closers) context c := by
  refine ⟨fun hgoes => ?_, statement?_closed⟩
  obtain ⟨os, hos⟩ := Option.ne_none_iff_exists'.mp (statement?_goesOn hgoes)
  obtain ⟨x, xs, hread⟩ := reads_of_statement? he hfinds hover hos
  exact ⟨os, x, xs, hos, hread⟩

/-! ### Expressions of any depth -/

theorem conforms_anyDepth (tokens : List Token) (rigor : Rigor) :
    Conforms tokens rigor anyDepth := by
  intro rules hrules context c hover _
  have hfit := conforms_expressionsUpTo tokens rigor (c.remaining + 1) rules hrules context c hover
    trivial
  have hhere : anyDepth rules context c = expressionsUpTo (c.remaining + 1) rules context c := rfl
  rw [maybe, bind_apply] at hfit ⊢
  rwa [hhere]

theorem finds_anyDepth : Finds anyDepth :=
  fun context c => finds_expressionsUpTo c.remaining context c

/-- Wherever a cursor can come to, an expression is found at each level if one of the starters
stands there; then an item is taken up, and otherwise nothing happens.  Each step of a list of
statements takes up an item or ends the list, and only that ends it: the bounds on the depth of
expressions and on the number of steps are never met. -/
theorem findsIff_of_reads {items : List Item} (h : (Cursor.ofTokens tokens).Reads items c)
    (context : Context) :
    source context (.ofTokens tokens) = file anyDepth context (.ofTokens tokens) ∧
    (∀ rules ⊆ Rule.all, anyDepth rules context c = climb anyDepth rules context c ∧
      FindsIff (starters.contains c.kind) (climb anyDepth rules) context c) ∧
    FindsIff (starters.contains c.kind) (operand? anyDepth) context c ∧
    ∀ closers, FindsIff (goesOn closers c) (statement? anyDepth closers) context c ∧
      goesOn closers (statements anyDepth closers context c).cursor = false := by
  have hover : c.Over tokens := (Cursor.over_ofTokens tokens).reads h
  have he : Conforms tokens .lenient anyDepth := conforms_anyDepth tokens .lenient
  refine ⟨source_eq_file (Cursor.over_ofTokens tokens), fun rules hrules =>
    ⟨anyDepth_eq_climb hover hrules, he.findsIff_climb hover hrules⟩,
    he.findsIff_operand? hover, fun closers =>
    ⟨he.findsIff_statement? finds_anyDepth hover closers,
      statements_ends he finds_anyDepth closers context hover⟩⟩

/-- No expression begins at the parenthesis in `a)`, and the list of statements moves on from it. -/
theorem findsIff_of_reads_closer :
    let start := Cursor.ofTokens (lex "a)")
    start.Reads [start.here] start.advance ∧
    anyDepth Rule.all .statements start.advance = ⟨none, start.advance, []⟩ ∧
    operand? anyDepth .statements start.advance = ⟨none, start.advance, []⟩ ∧
    ∃ os x xs, (statement? anyDepth .empty .statements start.advance).value = some os ∧
      start.advance.Reads (x :: xs)
        (statement? anyDepth .empty .statements start.advance).cursor := by
  intro start
  have hread : start.Reads [start.here] start.advance :=
    (Cursor.over_ofTokens (lex "a)")).advance (by decide +kernel)
  have hmisses : starters.contains start.advance.kind = false := by decide +kernel
  have hgoes : goesOn .empty start.advance = true := by decide +kernel
  obtain ⟨-, hlevels, hoperand, hlist⟩ := findsIff_of_reads hread .statements
  obtain ⟨hclimb, hlevel⟩ := hlevels Rule.all (List.Subset.refl _)
  exact ⟨hread, hclimb.trans (hlevel.nothing hmisses), hoperand.nothing hmisses,
    (hlist .empty).1.progress hgoes⟩

end Grammar

end RSource
