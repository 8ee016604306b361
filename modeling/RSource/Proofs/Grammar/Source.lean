import RSource.Proofs.Grammar.Precedence

/-! A whole source is read to its end.  An expression is found wherever one may begin, so every step
of the list of statements moves the cursor or ends the list. -/

namespace RSource.Grammar

open scoped Computability
open RSource.Parser RSource.Production

variable {tokens : List Token} {rigor : Rigor} {expressions : Expressions} {closers : TokenSet}
variable {context : Context} {c : Cursor}

theorem operand?_starts (hstarts : starters.contains c.kind = true) :
    (operand? expressions context c).value ≠ none := by
  rw [operand?, Parser.kind, look_bind]
  generalize c.kind = k at hstarts
  cases k
  all_goals first
    | exact absurd hstarts (by decide)
    | exact Option.some_ne_none _

theorem operand?_misses (hmisses : starters.contains c.kind = false) :
    operand? expressions context c = ⟨none, c, []⟩ := by
  rw [operand?, Parser.kind, look_bind]
  generalize c.kind = k at hmisses
  cases k
  all_goals first
    | exact absurd hmisses (by decide)
    | rfl

theorem climb_starts (hstarts : starters.contains c.kind = true) :
    ∀ rules, (climb expressions rules context c).value ≠ none
  | [] => by
    have hoperand : (operand? expressions context c).value ≠ none := operand?_starts hstarts
    obtain ⟨o, ho⟩ := Option.ne_none_iff_exists'.mp hoperand
    simp [climb, bind_apply, ho]
  | rule :: tighter => by
    obtain ⟨o, ho⟩ := Option.ne_none_iff_exists'.mp (climb_starts hstarts tighter)
    cases hgrouping : rule.grouping with
    | left => simp [climb, bind_apply, ho, hgrouping]
    | right => simp [climb, bind_apply, ho, hgrouping]

theorem climb_misses (hmisses : starters.contains c.kind = false) :
    ∀ rules, climb expressions rules context c = ⟨none, c, []⟩
  | [] => by simp [climb, bind_apply, operand?_misses hmisses]
  | rule :: tighter => by simp [climb, bind_apply, climb_misses hmisses tighter]

theorem expressionsUpTo_starts (hstarts : starters.contains c.kind = true) (depth : Nat)
    (rules : List Rule) : (expressionsUpTo (depth + 1) rules context c).value ≠ none :=
  climb_starts hstarts rules

/-! ### Progress -/

/-- Wherever an expression may begin, one is found. -/
def Finds (expressions : Expressions) : Prop :=
  ∀ context c, starters.contains c.kind = true → (expressions Rule.all context c).value ≠ none

theorem finds_expressionsUpTo (depth : Nat) : Finds (expressionsUpTo (depth + 1)) :=
  fun _ _ hstarts => expressionsUpTo_starts hstarts depth Rule.all

theorem reads_of_statement? (he : Conforms tokens .lenient expressions)
    (hfinds : Finds expressions) (hover : c.Over tokens) {os : List Outline}
    (hos : (statement? expressions closers context c).value = some os) :
    ∃ x xs, c.Reads (x :: xs) (statement? expressions closers context c).cursor := by
  have hfit := he.fitting_statement? closers context hover
  simp only [flat, bind_apply, pure_apply, List.append_nil, hos, Option.getD_some] at hfit
  have hne : os ≠ [] := by
    rintro rfl
    cases step_of_statement? hover hos with
    | nothing hstarts hparsed => exact hfinds context c hstarts hparsed
  have hmem := (hfit.derived fun h => by cases h).1.resolve_left hne
  obtain ⟨o, rest, rfl⟩ := List.exists_cons_of_ne_nil hne
  have htokens := tokens_ne_nil_of_mem_kstar hmem o List.mem_cons_self
  obtain ⟨xs, hxs, hread⟩ := hfit.reads
  cases xs with
  | nil => simp [Outline.forestTokens, htokens] at hread
  | cons x xs => exact ⟨x, xs, hxs⟩

/-- Where a statement may begin, the list goes on. -/
def goesOn (closers : TokenSet) (c : Cursor) : Bool :=
  c.kind == .semicolon || !(c.atEnd || closers.contains c.kind)

theorem goesOn_eq_false : goesOn closers c = false ↔
    c.kind ≠ .semicolon ∧ (c.atEnd || closers.contains c.kind) = true := by
  rw [goesOn, Bool.or_eq_false_iff, beq_eq_false_iff_ne, Bool.not_eq_false']

theorem statement?_goesOn (h : goesOn closers c = true) :
    (statement? expressions closers context c).value ≠ none := by
  by_cases hsemi : c.kind = .semicolon
  · rw [statement?, isAt, look_bind, if_pos (by simpa using hsemi)]
    simp [bind_apply]
  have hclosed : ¬(c.atEnd || closers.contains c.kind) = true := by
    simpa [goesOn, hsemi] using h
  by_cases hstarts : starters.contains c.kind = true
  · rw [statement?_of_starter hsemi hclosed hstarts, bind_apply, look_bind]
    split <;> simp [bind_apply]
  · rw [statement?_of_not_starter hsemi hclosed hstarts]
    simp [bind_apply]

/-- The list ends only where its closers or the end of the file stand, and leaves them alone. -/
theorem statement?_closed (h : goesOn closers c = false) :
    statement? expressions closers context c = ⟨none, c, []⟩ := by
  obtain ⟨hsemi, hclosed⟩ := goesOn_eq_false.mp h
  rw [statement?, isAt, look_bind, if_neg (by simpa using hsemi), look_bind, if_pos hclosed]
  rfl

/-- Steps that move the cursor come to an end before the items are used up. -/
theorem manyFor_ends (he : Conforms tokens .lenient expressions) (hfinds : Finds expressions)
    (items : List Item) : ∀ c : Cursor, c.Over tokens → c.remaining < items.length →
      goesOn closers (manyFor (statement? expressions closers) items context c).cursor = false := by
  induction items with
  | nil => intro c _ h; simp at h
  | cons item items ih =>
    intro c hover hroom
    simp only [manyFor, bind_apply]
    cases hgoes : goesOn closers c with
    | false =>
      rw [statement?_closed hgoes]
      exact hgoes
    | true =>
      obtain ⟨os, hos⟩ := Option.ne_none_iff_exists'.mp (statement?_goesOn hgoes)
      obtain ⟨x, xs, hread⟩ := reads_of_statement? he hfinds hover hos
      have hremaining := hread.remaining
      simp only [List.length_cons] at hroom hremaining
      rw [hos]
      exact ih _ (hover.reads hread) (by omega)

theorem statements_ends (he : Conforms tokens .lenient expressions) (hfinds : Finds expressions)
    (closers : TokenSet) (context : Context) (hover : c.Over tokens) :
    goesOn closers (statements expressions closers context c).cursor = false :=
  manyFor_ends he hfinds c.items c hover (by simp [Cursor.remaining, Cursor.items])

/-- A source is read up to an end of file. -/
theorem source_ends (hover : c.Over tokens) : (source context c).cursor.atEnd = true := by
  have hends := statements_ends (conforms_expressionsUpTo tokens .lenient (c.remaining + 1))
    (finds_expressionsUpTo c.remaining) .empty context hover
  have hcursor : (source context c).cursor =
      (statements (expressionsUpTo (c.remaining + 1)) .empty context c).cursor := rfl
  rw [hcursor]
  simpa using (goesOn_eq_false.mp hends).2

end RSource.Grammar
