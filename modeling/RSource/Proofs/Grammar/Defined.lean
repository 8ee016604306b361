import RSource.Proofs.Cascade
import RSource.Proofs.Grammar.Definition

/-! Lines of definitions are read as one statement each.  The cursor goes over a line token by token
and stands at the next line after it. -/

namespace RSource

open RSource.Parser RSource.Grammar
open Lexeme (blank)

namespace Definition

/-! ### Outlines -/

/-- The node of a name that is the token `place`. -/
def nameOutline (place : Nat) : Outline := .node .identifierExpression [.token place]

def parameterOutline (place : Nat) : Outline := .node .parameter [nameOutline place]

/-- What stands between the first parameter of a function and the end of its parameters. -/
def moreOutlines (place : Nat) : List Name → List Outline
  | [] => []
  | _ :: ps => .token place :: parameterOutline (place + 2) :: moreOutlines (place + 3) ps

/-- The parameters of a function and the commas between them. -/
def parameterOutlines (place : Nat) : List Name → List Outline
  | [] => []
  | _ :: ps => parameterOutline place :: moreOutlines (place + 1) ps

/-- The list of parameters whose opening parenthesis is the token `place`. -/
def listOutline (place : Nat) (parameters : List Name) : Outline :=
  .node .parameterList (.token place :: (parameterOutlines (place + 1) parameters ++
    [.token (place + 1 + (parameterLexemes parameters).length)]))

/-- The function whose keyword is the token `place`. -/
def functionOutline (place : Nat) (parameters : List Name) : Outline :=
  .node .functionExpression [.token place, listOutline (place + 1) parameters,
    .node .nullLiteral [.token (place + (parameterLexemes parameters).length + 4)]]

/-- An assignment with its operator. -/
def assignmentOutline (left : Outline) (place : Nat) (right : Outline) : Outline :=
  .node .assignmentStatement [left, .node .assignOperator [.token place], right]

/-- The tree of the definition whose first token is `place`. -/
def outline (place : Nat) : Definition → Outline
  | function _ parameters =>
    assignmentOutline (nameOutline place) (place + 2) (functionOutline (place + 4) parameters)
  | equal _ => assignmentOutline (nameOutline place) (place + 2)
    (.node .numericLiteralExpression [.token (place + 4)])
  | right _ => assignmentOutline (.node .numericLiteralExpression [.token place]) (place + 2)
    (nameOutline (place + 4))

/-- The trees of definitions one after another. -/
def outlines (place : Nat) : List Definition → List Outline
  | [] => []
  | d :: ds => d.outline place :: outlines (place + d.lexemes.length) ds

/-! ### Parameters -/

variable (expressions : Expressions) (context : Context) {place : Nat} {newline : Bool}
variable {c d : Cursor} {ls : List Lexeme}

theorem takes_name {name : Name} (h : c.At place newline (name.lexeme :: ls)) :
    c.Takes place .identifier c.advance ∧ c.newlineBefore = newline ∧
      c.advance.At (place + 1) false ls :=
  h.takes rfl (show TokenKind.identifier ≠ .endOfFile by decide)

theorem parses_parameter (h : c.Takes place .identifier d)
    (hd : elementEnds.contains d.kind = true) :
    Parses (parameter expressions) context c d (parameterOutline place) := by
  have hequal : (d.kind == .equal) = false := by
    generalize d.kind = k at hd
    cases k
    all_goals first
      | rfl
      | exact absurd hd (by decide)
  have hdefault : Parses (do
      if ← isAt .equal then row [one (leaf .assignOperator), expression expressions]
      else return []) context d d [] := by
    rw [Parses, isAt, look_bind, hequal]
    rfl
  have hname : Parses (parameterName expressions) context c d [nameOutline place] := by
    rw [Parses, parameterName, look_bind, h.kind]
    exact (parses_leaf context .identifierExpression h).one.row hdefault.single
  have hrest : Parses elementRest context d d [] := by
    have hended : elementEnded d = true := by rw [elementEnded, hd, Bool.true_or]
    rw [Parses, elementRest, look_bind, hended]
    rfl
  exact (hname.row hrest.single).node .parameter

/-- What the parser of parameters does again and again. -/
def nextParameter? : Parser (Option (List Outline)) := do
  if ← isAt .comma then return some (← row [bump, one (parameter expressions)]) else return none

/-- Behind a parameter comes a comma or the end of the list. -/
theorem ends_parameter (ps : List Name)
    (h : c.At place newline (moreParameters ps ++ listEnd :: ls)) :
    elementEnds.contains c.kind = true := by
  cases ps with
  | nil =>
    rw [(h.takes rfl (by decide)).1.kind]
    rfl
  | cons p ps =>
    rw [(h.takes rfl (by decide)).1.kind]
    rfl

theorem parses_moreParameters (ps : List Name) : ∀ {place : Nat} {c : Cursor} (fuel : List Item),
    c.At place false (moreParameters ps ++ listEnd :: ls) → c.remaining < fuel.length →
    ∃ d, d.At (place + (moreParameters ps).length) false (listEnd :: ls) ∧
      d.remaining ≤ c.remaining ∧
      Parses (manyFor (nextParameter? expressions) fuel) context c d (moreOutlines place ps) := by
  induction ps with
  | nil =>
    intro place c fuel hc _
    refine ⟨c, hc, Nat.le_refl _, parses_manyFor_none ?_ fuel⟩
    rw [Parses, nextParameter?, isAt, look_bind, (hc.takes rfl (by decide)).1.kind]
    rfl
  | cons p ps ih =>
    intro place c fuel hc hfuel
    obtain ⟨hcomma, -, hc₁⟩ := hc.takes rfl (by decide)
    obtain ⟨hname, -, hc₂⟩ := takes_name (hc₁.trivia rfl)
    cases fuel with
    | nil => exact absurd hfuel (Nat.not_lt_zero _)
    | cons item fuel =>
      have hless := hcomma.remaining
      have hless' := hname.remaining
      obtain ⟨d, hd, hroom, hmore⟩ := ih fuel hc₂ (by rw [List.length_cons] at hfuel; omega)
      have hstep : Parses (nextParameter? expressions) context c c.advance.advance
          (some [.token place, parameterOutline (place + 2)]) := by
        have hcomma' : Parses bump context c c.advance [.token place] := parses_bump hcomma
        have hrow := hcomma'.row
          (parses_parameter expressions context hname (ends_parameter ps hc₂)).one.single
        rw [Parses, nextParameter?, isAt, look_bind, hcomma.kind]
        exact hrow.bind rfl
      refine ⟨d, ?_, by omega, hstep.bind (hmore.bind rfl)⟩
      have hlength : place + (moreParameters (p :: ps)).length =
          place + 1 + 1 + 1 + (moreParameters ps).length := by
        simp [moreParameters]
        omega
      rwa [hlength]

theorem parses_parameters (ps : List Name)
    (h : c.At place false (parameterLexemes ps ++ listEnd :: ls)) :
    ∃ d, d.At (place + (parameterLexemes ps).length) false (listEnd :: ls) ∧
      d.remaining ≤ c.remaining ∧
      Parses (separated .rightParen (one (parameter expressions))) context c d
        (parameterOutlines place ps) := by
  cases ps with
  | nil =>
    refine ⟨c, h, Nat.le_refl _, ?_⟩
    rw [Parses, separated, isAt, look_bind, (h.takes rfl (by decide)).1.kind]
    rfl
  | cons p ps =>
    obtain ⟨hname, -, hc⟩ := takes_name h
    obtain ⟨d, hd, hroom, hmore⟩ := parses_moreParameters expressions context ps c.advance.items hc
      (Nat.lt_succ_self _)
    have hmany : Parses (many (nextParameter? expressions)) context c.advance d
        (moreOutlines (place + 1) ps) := hmore
    have hrow := (parses_parameter expressions context hname (ends_parameter ps hc)).one.row
      hmany.single
    refine ⟨d, ?_, Nat.le_of_lt (Nat.lt_of_le_of_lt hroom hname.remaining), ?_⟩
    · rwa [parameterLexemes, List.length_cons, Nat.add_comm _ 1, ← Nat.add_assoc]
    · rw [Parses, separated, isAt, look_bind, hname.kind]
      exact hrow

theorem parses_parameterList (ps : List Name)
    (h : c.At place newline (listStart :: (parameterLexemes ps ++ listEnd :: ls))) :
    ∃ d, d.At (place + 1 + (parameterLexemes ps).length + 1) false ls ∧
      d.remaining ≤ c.remaining ∧
      Parses (parameterList expressions) context c d (listOutline place ps) := by
  obtain ⟨hopen, -, hc⟩ := h.takes rfl (by decide)
  obtain ⟨d, hd, hroom, hlist⟩ := parses_parameters expressions (context.union .brackets) ps
    hc
  obtain ⟨hclose, -, hd⟩ := hd.takes rfl (by decide)
  have hinside : Parses (row [separated .rightParen (one (parameter expressions)),
      expect .rightParen (.notClosed .rightParen)]) (context.union .brackets) c.advance d.advance
      (parameterOutlines (place + 1) ps ++
        [.token (place + 1 + (parameterLexemes ps).length)]) :=
    hlist.row (parses_expect _ hclose).single
  have hbracketed : Parses (bracketed (row [separated .rightParen (one (parameter expressions)),
      expect .rightParen (.notClosed .rightParen)])) context c.advance d.advance _ := hinside
  refine ⟨d.advance, hd, ?_, (Parses.single ?_).node .parameterList⟩
  · have := hopen.remaining
    have := hclose.remaining
    omega
  · rw [Parses, isAt, look_bind, hopen.kind]
    exact (parses_bump hopen).row hbracketed.single

/-! ### Definitions -/

variable (depth : Nat)

/-- A function up to the end of its line. -/
theorem parses_function (ps : List Name) (h : c.At place newline
      (⟨.functionKeyword, "function".toList⟩ :: listStart ::
        (parameterLexemes ps ++ (closing ++ ls)))) :
    ∃ d, d.At (place + (parameterLexemes ps).length + 6) true ls ∧ d.remaining < c.remaining ∧
      (Closes Rule.all d.kind → Parses (operand? (expressionsUpTo (depth + 1))) context c d
        (some (functionOutline place ps))) := by
  obtain ⟨hkeyword, -, hc⟩ := h.takes rfl (by decide)
  obtain ⟨d, hd, hroom, hlist⟩ := parses_parameterList (expressionsUpTo (depth + 1)) context ps hc
  obtain ⟨hnull, -, hline⟩ := (hd.trivia rfl).takes rfl (by decide)
  have hplace : place + 1 + 1 + (parameterLexemes ps).length + 1 + 1 =
      place + (parameterLexemes ps).length + 4 := by omega
  rw [hplace] at hnull hline
  refine ⟨d.advance, hline.line rfl, ?_, fun hcloses => ?_⟩
  · have := hkeyword.remaining
    have := hnull.remaining
    omega
  · have hbody : Parses (expressionsUpTo (depth + 1) Rule.all) context d d.advance
        (some (.node .nullLiteral
          [.token (place + (parameterLexemes ps).length + 4)])) :=
      parses_climb_of_operand (n := 0) (parses_literal rfl hnull) hcloses
    have hrow : Parses (row [bump, one (parameterList (expressionsUpTo (depth + 1))),
        expression (expressionsUpTo (depth + 1))]) context c d.advance
        [.token place, listOutline (place + 1) ps,
          .node .nullLiteral [.token (place + (parameterLexemes ps).length + 4)]] :=
      (parses_bump hkeyword).row (hlist.one.row (parses_operand hbody).single)
    have hfunction := hrow.node .functionExpression
    rw [Parses, operand?, kind, look_bind, hkeyword.kind]
    exact hfunction.bind rfl

/-- A definition with the end of its line. -/
theorem parses_definition (d : Definition)
    (h : c.At place newline (d.lexemes ++ ls)) :
    ∃ e, e.At (place + d.lexemes.length) true ls ∧ e.remaining + 3 ≤ c.remaining ∧
      (Closes Rule.all e.kind → Parses (expressionsUpTo (depth + 3) Rule.all) context c e
        (some (d.outline place))) := by
  cases d with
  | function name ps =>
    rw [lexemes, List.cons_append, List.append_assoc, List.append_assoc] at h
    obtain ⟨hname, -, hc⟩ := takes_name h
    obtain ⟨harrow, hline, hc⟩ := (hc.trivia rfl).takes rfl (by decide)
    obtain ⟨d, hd, hroom, hfunction⟩ := parses_function context depth ps (hc.trivia rfl)
    refine ⟨d, ?_, ?_, fun hcloses => ?_⟩
    · have hlength : (function name ps).lexemes.length = (parameterLexemes ps).length + 10 := by
        simp [lexemes, opening, closing]
      rw [hlength]
      convert hd using 1
      omega
    · have := hname.remaining
      have := harrow.remaining
      omega
    · have hafter : followers.contains c.advance.kind = false := by
        rw [harrow.kind]
        rfl
      exact parses_between .leftArrow "<-" (by decide) (parses_name hname hafter) harrow hline
        (hfunction hcloses) hcloses
  | equal name =>
    obtain ⟨hname, -, hc⟩ := takes_name h
    obtain ⟨hequal, hline, hc⟩ := (hc.trivia rfl).takes rfl (by decide)
    obtain ⟨hvalue, -, hc⟩ := (hc.trivia rfl).takes rfl (by decide)
    refine ⟨c.advance.advance.advance, hc.line rfl, ?_, fun hcloses => ?_⟩
    · have := hname.remaining
      have := hequal.remaining
      have := hvalue.remaining
      omega
    · have hafter : followers.contains c.advance.kind = false := by
        rw [hequal.kind]
        rfl
      exact parses_between .equal "=" (by decide) (parses_name hname hafter) hequal hline
        (parses_literal rfl hvalue) hcloses
  | right name =>
    obtain ⟨hvalue, -, hc⟩ := h.takes rfl (by decide)
    obtain ⟨harrow, hline, hc⟩ := (hc.trivia rfl).takes rfl (by decide)
    obtain ⟨hname, -, hc⟩ := takes_name (hc.trivia rfl)
    refine ⟨c.advance.advance.advance, hc.line rfl, ?_, fun hcloses => ?_⟩
    · have := hvalue.remaining
      have := harrow.remaining
      have := hname.remaining
      omega
    · exact parses_between .rightArrow "->" (by decide) (parses_literal rfl hvalue) harrow hline
        (parses_name hname hcloses.2) hcloses

/-! ### Lines -/

/-- A definition begins with a name or a number. -/
theorem first_kind (d : Definition) (h : c.At place newline (d.lexemes ++ ls)) :
    (c.kind = .identifier ∨ c.kind = .numeric) ∧ c.newlineBefore = newline := by
  cases d with
  | function name ps =>
    obtain ⟨hname, hline, -⟩ := takes_name h
    exact ⟨.inl hname.kind, hline⟩
  | equal name =>
    obtain ⟨hname, hline, -⟩ := takes_name h
    exact ⟨.inl hname.kind, hline⟩
  | right name =>
    obtain ⟨hvalue, hline, -⟩ := h.takes rfl (by decide)
    exact ⟨.inr hvalue.kind, hline⟩

theorem starts_line (d : Definition) (h : c.At place newline (d.lexemes ++ ls)) :
    starters.contains c.kind = true := by
  rcases (d.first_kind h).1 with hkind | hkind
  · rw [hkind]
    rfl
  · rw [hkind]
    rfl

/-- Where the next line begins or the file ends, a statement ends and no expression goes on. -/
theorem closes_line (ds : List Definition) (h : c.At place true (ds.flatMap lexemes)) :
    Closes Rule.all c.kind ∧ statementEnds .empty c = true := by
  have hkinds : ∀ k ∈ [TokenKind.identifier, .numeric, .endOfFile], Closes Rule.all k := by decide
  cases ds with
  | nil =>
    have hended := Cursor.At.ended h
    exact ⟨hkinds _ (by simp [hended]), by simp [statementEnds, Cursor.atEnd, hended]⟩
  | cons d ds =>
    obtain ⟨hkind, hline⟩ := d.first_kind h
    refine ⟨hkinds _ ?_, by simp [statementEnds, hline]⟩
    rcases hkind with hkind | hkind
    · simp [hkind]
    · simp [hkind]

theorem parses_lines (ds : List Definition) : ∀ {place : Nat} {newline : Bool}
    {c : Cursor} (fuel : List Item), c.At place newline (ds.flatMap lexemes) →
    c.remaining < fuel.length →
    ∃ d, Parses (manyFor (statement? (expressionsUpTo (depth + 3)) .empty) fuel) context c d
      (outlines place ds) := by
  induction ds with
  | nil =>
    intro place newline c fuel hc _
    exact ⟨c, parses_manyFor_none (parses_statement_none (Cursor.At.ended hc)) fuel⟩
  | cons d ds ih =>
    intro place newline c fuel hc hfuel
    obtain ⟨e, he, hroom, hparses⟩ := parses_definition context depth d hc
    obtain ⟨hcloses, hends⟩ := closes_line ds he
    cases fuel with
    | nil => exact absurd hfuel (Nat.not_lt_zero _)
    | cons item fuel =>
      obtain ⟨e', hrest⟩ := ih fuel he (by rw [List.length_cons] at hfuel; omega)
      exact ⟨e', (parses_statement (d.starts_line hc) (hparses hcloses) hends).bind
        (hrest.bind rfl)⟩

/-- A source of definitions is read as these definitions. -/
theorem parses_source (ds : List Definition) : ∃ d, Parses Grammar.source .statements
    (.ofTokens (lex (printAll ds))) d (.node .file (outlines 0 ds)) := by
  have hc := Cursor.at_ofTokens (ds.flatMap lexemes)
  rw [← ofText_printAll, ← lex_eq_place] at hc
  generalize Cursor.ofTokens (lex (printAll ds)) = c at hc ⊢
  rw [ofText_printAll] at hc
  suffices hlines : ∃ d, Parses (manyFor
      (statement? (expressionsUpTo (c.remaining + 1)) .empty) c.items) .statements c d
      (outlines 0 ds) by
    obtain ⟨d, hlines⟩ := hlines
    have hstatements : Parses (statements (expressionsUpTo (c.remaining + 1)) .empty) .statements
        c d (outlines 0 ds) := hlines
    refine ⟨d, ?_⟩
    rw [Parses, Grammar.source, look_bind]
    exact hstatements.single.node .file
  cases ds with
  | nil =>
    exact ⟨c, parses_manyFor_none (parses_statement_none (Cursor.At.ended hc)) _⟩
  | cons d ds =>
    -- The first definition alone leaves room for the depth of its right operand.
    obtain ⟨e, -, hroom, -⟩ := parses_definition .statements 0 d hc
    obtain ⟨depth, hdepth⟩ : ∃ depth, c.remaining + 1 = depth + 3 := ⟨c.remaining - 2, by omega⟩
    rw [hdepth]
    exact parses_lines .statements depth (d :: ds) c.items hc (Nat.lt_succ_self _)

end Definition

end RSource
