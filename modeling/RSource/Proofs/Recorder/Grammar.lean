import RSource.Proofs.Grammar.Depth
import RSource.Proofs.Recorder.Tracks
import RSource.Recorder.Grammar

/-! Every production that writes events tracks the production of the same name that gives an
outline.  The parts of a node come one after another on both sides, so that the specs of the parts
are put together as the production puts them together.  Wherever a production reads an expression
inside another it has taken up an item before, so that a source never needs expressions that nest
deeper than there are items. -/

namespace RSource

variable {α β : Type} {tokens : List Token} {n : Nat} {led : Bool}
variable {expressions : Recorded.Expressions} {outlines : Grammar.Expressions}

/-- Where fewer than `n` items are left, the expressions that are recorded are those of the grammar,
and these are found where one may begin. -/
structure Agrees (tokens : List Token) (n : Nat) (expressions : Recorded.Expressions)
    (outlines : Grammar.Expressions) : Prop where
  tracks : ∀ rules ⊆ Grammar.Rule.all,
    Tracks tokens n false (Perhaps []) (expressions rules) (outlines rules)
  conforms : Grammar.Conforms tokens .lenient outlines
  finds : 0 < n → Grammar.Finds outlines

namespace Tracks

/-! ### Expressions -/

theorem missingExpression :
    Tracks tokens n false Rows Recorded.missingExpression Grammar.missingExpression :=
  look_bind Cursor.kind fun _ => report_bind _ <|
    ((node .error (row_singleton (look_ite _ (pure ()) bump))).one).discard

theorem emptyExpression :
    Tracks tokens n false Whole Recorded.emptyExpression Grammar.emptyExpression :=
  node .emptyExpression (pure ())

theorem operator (kind : NodeKind) :
    Tracks tokens n led Rows (Recorded.operator kind) (Parser.one (Parser.leaf kind)) :=
  (leaf kind).one.discard

variable (h : Agrees tokens n expressions outlines)
include h

/-- An expression, or what stands for it where there is none. -/
theorem expression_or {rules : List Grammar.Rule} (hrules : rules ⊆ Grammar.Rule.all)
    {x : Recorder Unit} {p : Part} (hx : Tracks tokens n false Rows x p) :
    Tracks tokens n false Rows
      (expressions rules >>= fun c? => match c? with | .some _ => Pure.pure () | .none => x)
      (outlines rules >>= fun o? => match o? with | .some o => Pure.pure [o] | .none => p) := by
  intro s hs
  refine (h.tracks rules hrules s hs).bind hs fun c? o? t es ht hes hvalue => ?_
  match c?, o?, hvalue with
  | .some c, .some o, ⟨_, _, hone⟩ => exact Comes.pure hes hone.describes
  | .none, .none, hnil =>
    have hnil : es = [] := hnil
    rw [hnil, List.append_nil] at hes
    rw [← hes]
    exact hx t ht

theorem operand {rules : List Grammar.Rule} (hrules : rules ⊆ Grammar.Rule.all) :
    Tracks tokens n false Rows (Recorded.operand expressions rules)
      (Grammar.operand outlines rules) :=
  expression_or h hrules missingExpression

theorem expression :
    Tracks tokens n false Rows (Recorded.expression expressions) (Grammar.expression outlines) :=
  operand h (List.Subset.refl _)

theorem grouped :
    Tracks tokens n true Rows (Recorded.grouped expressions) (Grammar.grouped outlines) :=
  bump.seq <| row_singleton <| within _ <| (expression h).seq <| row_singleton (expect _ _).discard

theorem parenthesized : Tracks tokens n true Whole (Recorded.parenthesized expressions)
    (Grammar.parenthesized outlines) :=
  node _ (row_singleton (grouped h))

/-! ### Statements -/

omit h in
theorem skipStatement (closers : TokenSet) : Tracks tokens n false Rows
    (Recorded.skipStatement closers) (Grammar.skipStatement closers) :=
  look_bind Cursor.kind fun _ => report_bind _ <|
    ((node .error (bump.seq (row_singleton (bumpWhile _)))).one).discard

theorem statement (closers : TokenSet) : Tracks tokens n false Goes
    (Recorded.statement expressions closers) (Grammar.statement? outlines closers) := by
  rw [Recorded.statement, Recorder.eat_bind]
  refine look_ite _ bump.goes (look_ite _ stops (look_ite _ ?_ (skipStatement closers).goes))
  intro s hs
  refine (h.tracks _ (List.Subset.refl _) s hs).bind hs fun c? o? t es ht hes hvalue => ?_
  have hrow : Describes es o?.toList := by
    match c?, o?, hvalue with
    | .some c, .some o, ⟨_, _, hone⟩ => exact hone.describes
    | .none, .none, hnil => exact (hnil : es = []) ▸ .nil
  refine Comes.look_bind _ (Comes.ite _ (fun _ => Comes.pure hes hrow) fun _ => ?_)
  -- What is skipped stands after the statement.
  obtain ⟨done, hdone, hstep⟩ := skipStatement closers t ht
  have hskip : Comes false (fun _ go os es => go = true ∧ Describes es os) t.events t
      ((Recorded.skipStatement closers >>= fun _ => Pure.pure true) t)
      (Grammar.skipStatement closers t.context t.cursor) :=
    ⟨_, Recorder.bind_pure_apply (fun _ => true) hdone,
      hstep.map (fun _ => true) id fun _ _ _ _ hrows => ⟨rfl, hrows⟩⟩
  refine hskip.after hes fun go os es' ⟨hgo, hrows⟩ => ?_
  rw [hgo]
  exact hrow.append hrows

/-- Each step of a list of statements reads something, as an expression is found wherever one may
begin. -/
theorem statements (closers : TokenSet) : Tracks tokens n false Rows
    (Recorded.statements expressions closers) (Grammar.statements outlines closers) := by
  refine loop ((statement h closers).turns fun context c os hc hos => ?_)
  have hpos : 0 < n := Nat.lt_of_le_of_lt (Nat.zero_le _) hc.few
  obtain ⟨x, xs, hreads⟩ := Grammar.reads_of_statement? h.conforms (h.finds hpos) hc.isOver hos
  have hremaining := hreads.remaining
  rw [List.length_cons] at hremaining
  omega

theorem block :
    Tracks tokens n true Whole (Recorded.block expressions) (Grammar.block outlines) :=
  node _ <| bump.seq <| (within _ (statements h _)).seq <| row_singleton (expect _ _).discard

theorem file : Tracks tokens n false Whole (Recorded.file expressions) (Grammar.file outlines) :=
  node _ (row_singleton (statements h _))

/-! ### Lists between brackets -/

omit h in
theorem elementRest : Tracks tokens n false Rows Recorded.elementRest Grammar.elementRest :=
  look_ite _ (pure ()) <| look_bind Cursor.kind fun _ => report_bind _ <|
    ((node .error (row_singleton (bumpWhile _))).one).discard

omit h in
theorem separated (closer : TokenKind) {x : Recorder Unit} {p : Part}
    (hx : Tracks tokens n false Rows x p) :
    Tracks tokens n false Rows (Recorded.separated closer x) (Grammar.separated closer p) := by
  refine look_ite _ (pure ()) (hx.seq (row_singleton (loop fun s hs => ?_)))
  rw [Recorder.eat_bind]
  refine Turned.look_bind _ (Turned.ite _ (fun hcomma => ?_) fun _ => Turned.stops)
  exact Turned.goes (bump.seq (row_singleton hx)) hs
    (Cursor.atEnd_eq_false_of_kind (by decide) hcomma)

omit h in
theorem delimited (closer : TokenKind) {x : Recorder Unit} {p : Part}
    (hx : Tracks tokens n false Rows x p) :
    Tracks tokens n true Rows (Recorded.delimited closer x) (Grammar.delimited closer p) :=
  bump.seq <| row_singleton <| within _ <| (separated closer hx).seq <|
    row_singleton (expect _ _).discard

theorem optionalValue : Tracks tokens n false Rows (Recorded.optionalValue expressions)
    (Grammar.optionalValue outlines) :=
  look_ite _ emptyExpression.one.discard (expression h)

end Tracks

namespace Recorded

open Recorder

/-- The token at the cursor is read as a name, and then it is seen whether an `=` comes after it. -/
theorem namedArgument_apply {s : Recording} {named : Completed × Recording}
    (hnamed : leaf (Grammar.nameNode s.cursor.kind)
      { s with events := s.events ++ [.tombstone] } = some named) :
    namedArgument expressions s =
      (if named.2.cursor.kind == .equal then do
        operator .assignOperator
        optionalValue expressions
        let _ ← s.marker.complete .namedArgument
        return true
      else do
        s.marker.rollback
        return false : Recorder Bool) named.2 := by
  rw [namedArgument, start_bind, kind, look_bind, bind_apply hnamed, isAt, look_bind]

/-- Where no `=` comes after a token, the try to read an argument with a name leaves no trace. -/
theorem namedArgument_eq {s : Recording} (hs : s.cursor.Room tokens n false)
    (hend : s.cursor.atEnd = false) (hnone : (s.cursor.kindAhead 1 == .equal) = false) :
    namedArgument expressions s = some (false, s) := by
  obtain ⟨⟨c, t⟩, hdone, hstep⟩ := Tracks.leaf (Grammar.nameNode s.cursor.kind)
    { s with events := s.events ++ [.tombstone] } hs
  obtain ⟨es, hes, -⟩ := hstep.events
  have hcursor : t.cursor = s.cursor.advance := hstep.cursor
  have hlog : t.log = s.log := hstep.log
  have hkind : ¬ (t.cursor.kind == .equal) = true := by
    rw [hcursor, Cursor.kind_advance hend, hnone]
    exact Bool.false_ne_true
  have herrors : t.log.kept = s.log.kept ++ [] := by rw [hlog, List.append_nil]
  have hback : s.marker.rollback t = some ((), s) :=
    Marker.rollback_apply rfl (hes.trans (List.append_assoc _ _ _)) hstep.context
      (by rw [hcursor, Cursor.moveTo_advance]) (by rw [hlog]) herrors
  rw [namedArgument_apply hdone, if_neg hkind]
  exact bind_apply hback

/-- A token with an `=` after it is read as the name of an argument. -/
theorem comes_namedArgument (h : Agrees tokens n expressions outlines) {s : Recording}
    (hs : s.cursor.Room tokens n false) (hend : s.cursor.atEnd = false)
    (hequal : (s.cursor.kindAhead 1 == .equal) = true) :
    Comes false (fun _ named o es => named = true ∧ Describes es [o]) s.events s
      (namedArgument expressions s) (Grammar.namedArgument outlines s.context s.cursor) := by
  let opened : Recording := { s with events := s.events ++ [.tombstone] }
  have hleaf : Tracks tokens n false Whole _ _ := Tracks.leaf (Grammar.nameNode s.cursor.kind)
  have hbody := hleaf.one.seq <| (Tracks.operator .assignOperator).seq <|
    Tracks.row_singleton (Tracks.optionalValue h)
  obtain ⟨named, hnamed, hname⟩ := hleaf opened hs
  obtain ⟨done, hdone, hstep⟩ :=
    Comes.complete s.marker opened hs rfl rfl .namedArgument hbody
  have hkind : (named.2.cursor.kind == .equal) = true := by
    rw [hname.cursor]
    show (s.cursor.advance.kind == .equal) = true
    rw [Cursor.kind_advance hend, hequal]
  rw [bind_assoc, bind_apply hnamed] at hdone
  have hall : namedArgument expressions s = some (true, done.2) := by
    rw [namedArgument_apply hnamed, if_pos hkind, ← bind_pure_apply (fun _ => true) hdone]
    simp only [bind_assoc]
  obtain ⟨es, hes, -, inside, rfl, hrows⟩ := hstep.events
  show Comes _ _ _ _ _ ((Parser.row _ >>= fun os => pure (Outline.node .namedArgument os)) s.context
    s.cursor)
  rw [hall, Parser.bind_pure_apply]
  exact ⟨_, rfl, hstep.cursor, hstep.reads, hstep.context, hstep.log, _, hes, rfl,
    (DescribesOne.first hrows).describes⟩

end Recorded

namespace Tracks

variable (h : Agrees tokens n expressions outlines)
include h

/-- To read a name and go back where it names nothing is to look ahead first. -/
theorem argumentValue : Tracks tokens n false Rows (Recorded.argumentValue expressions)
    (Parser.look Grammar.namesArgument >>= fun b => if b then
      Parser.one (Grammar.namedArgument outlines) else Grammar.expression outlines) := by
  intro s hs
  show Comes false Rows s.events s (Recorded.argumentValue expressions s)
    ((if Grammar.namesArgument s.cursor then Parser.one (Grammar.namedArgument outlines)
      else Grammar.expression outlines) s.context s.cursor)
  have htry : Recorded.named? expressions s =
      (if Grammar.argumentNames.contains s.cursor.kind then Recorded.namedArgument expressions
        else Pure.pure false) s := rfl
  have hleft (hnone : Recorded.named? expressions s = .some (false, s)) :
      Recorded.argumentValue expressions s = Recorded.expression expressions s :=
    Recorder.bind_apply hnone
  cases hname : Grammar.argumentNames.contains s.cursor.kind with
  | false =>
    rw [hname] at htry
    rw [Grammar.namesArgument, hname, hleft htry]
    exact expression h s hs
  | true =>
    have hend : s.cursor.atEnd = false := by
      rw [Cursor.atEnd, beq_eq_false_iff_ne]
      intro hkind
      rw [hkind] at hname
      exact absurd hname (by decide)
    rw [hname, if_pos rfl] at htry
    rw [Grammar.namesArgument, hname, Bool.true_and]
    cases hequal : s.cursor.kindAhead 1 == .equal with
    | false =>
      rw [hleft (htry.trans (Recorded.namedArgument_eq hs hend hequal))]
      exact expression h s hs
    | true =>
      have hnamed := Recorded.comes_namedArgument h hs hend hequal
      rw [← htry] at hnamed
      refine hnamed.bind hs ?_
      rintro named o t es ht hes ⟨rfl, hrows⟩
      exact Comes.pure hes hrows

theorem argument :
    Tracks tokens n false Rows (Recorded.argument expressions) (Grammar.argument outlines) :=
  look_ite _ emptyExpression.one.discard <| (argumentValue h).seq (row_singleton elementRest)

theorem argumentList : Tracks tokens n true Whole (Recorded.argumentList expressions)
    (Grammar.argumentList outlines) :=
  node _ (row_singleton (delimited _ (argument h)))

theorem subscripts :
    Tracks tokens n true Rows (Recorded.subscripts expressions) (Grammar.subscripts outlines) :=
  look_bind _ fun _ => delimited _ (argument h)

theorem parameterName : Tracks tokens n false Rows (Recorded.parameterName expressions)
    (Grammar.parameterName outlines) :=
  look_ite _
    ((leaf _).one.seq <| row_singleton <| look_ite _
      ((operator _).seq (row_singleton (expression h))) (pure ()))
    (look_bind Cursor.kind fun _ => report_bind _ <| look_ite _
      (emptyNode .error) (pure ()))

theorem parameter :
    Tracks tokens n false Whole (Recorded.parameter expressions) (Grammar.parameter outlines) :=
  node _ <| (parameterName h).seq (row_singleton elementRest)

theorem parameterList : Tracks tokens n false Whole (Recorded.parameterList expressions)
    (Grammar.parameterList outlines) :=
  node _ (row_singleton (look_or_expect (by decide) (delimited _ (parameter h).one.discard)))

/-! ### Operands -/

omit h in
theorem named (nodes? : TokenKind → Option NodeKind) (problem : TokenKind → Problem) :
    Tracks tokens n false Rows (Recorded.named nodes? problem) (Grammar.named nodes? problem) := by
  refine look_bind Cursor.kind fun found => ?_
  cases nodes? found with
  | some name => exact (leaf name).one.discard
  | none => exact report_bind _ (emptyNode .error)

omit h in
theorem exportFollows_bind {R : Sense α β} {x : Bool → Recorder α} {p : Bool → Parser β}
    (hx : ∀ b, Tracks tokens n led R (x b) (p b)) :
    Tracks tokens n led R (Recorded.exportFollows >>= x) (Grammar.exportFollows >>= p) :=
  fun s => hx _ s

omit h in
theorem namespaceAccess :
    Tracks tokens n led Whole Recorded.namespaceAccess Grammar.namespaceAccess :=
  node _ <| bump.seq <| bump.seq <| row_singleton (named _ _)

theorem condition :
    Tracks tokens n false Rows (Recorded.condition expressions) (Grammar.condition outlines) :=
  look_or_expect (by decide) (grouped h)

theorem conditional : Tracks tokens n true Whole (Recorded.conditional expressions)
    (Grammar.conditional outlines) :=
  node _ <| bump.seq <| (condition h).seq <| (expression h).seq <| row_singleton <|
    eat_ite _ (row_singleton (expression h)) (pure ())

theorem whileLoop :
    Tracks tokens n true Whole (Recorded.whileLoop expressions) (Grammar.whileLoop outlines) :=
  node _ <| bump.seq <| (condition h).seq <| row_singleton (expression h)

theorem repeatLoop :
    Tracks tokens n true Whole (Recorded.repeatLoop expressions) (Grammar.repeatLoop outlines) :=
  node _ <| bump.seq <| row_singleton (expression h)

theorem loopRange :
    Tracks tokens n false Rows (Recorded.loopRange expressions) (Grammar.loopRange outlines) := by
  rw [Recorded.loopRange, Recorder.expect_bind, Grammar.loopRange, Parser.isAt_or_expect]
  exact look_ite _ (bump.seq (row_singleton (expression h)))
    (look_bind Cursor.kind fun found => report (.missing .inKeyword found))

theorem loopHeader :
    Tracks tokens n false Rows (Recorded.loopHeader expressions) (Grammar.loopHeader outlines) :=
  look_or_expect (by decide) <| bump.seq <| row_singleton <| within _ <| (named _ _).seq <|
    (loopRange h).seq <| row_singleton (expect _ _).discard

theorem forLoop :
    Tracks tokens n true Whole (Recorded.forLoop expressions) (Grammar.forLoop outlines) :=
  node _ <| bump.seq <| (loopHeader h).seq <| row_singleton (expression h)

theorem function :
    Tracks tokens n true Whole (Recorded.function expressions) (Grammar.function outlines) :=
  node _ <| bump.seq <| (parameterList h).one.seq <| row_singleton (expression h)

theorem help : Tracks tokens n true Whole (Recorded.help expressions) (Grammar.help outlines) :=
  node _ <| bump.seq <| (eat _).seq <| row_singleton <| look_bind Cursor.kind fun _ =>
    ite _ bump (expression h)

theorem signed (sign kind : NodeKind) {rules : List Grammar.Rule}
    (hrules : rules ⊆ Grammar.Rule.all) :
    Tracks tokens n true Whole (Recorded.signed expressions sign kind rules)
      (Grammar.signed outlines sign kind rules) :=
  node _ <| (operator _).seq <| row_singleton (operand h hrules)

omit h in
theorem faulty (problem : Problem) (kind : NodeKind) :
    Tracks tokens n led Whole (Recorded.faulty problem kind) (Grammar.faulty problem kind) :=
  report_bind _ (leaf _)

omit h in
theorem symbol (kind : NodeKind) :
    Tracks tokens n led Whole (Recorded.symbol kind) (Grammar.symbol kind) :=
  exportFollows_bind fun b => ite b namespaceAccess (leaf kind)

theorem operand? : Tracks tokens (n + 1) false (Perhaps []) (Recorded.operand? expressions)
    (Grammar.operand? outlines) := by
  intro s hs
  refine Comes.look_bind Cursor.kind ?_
  generalize hkind : s.cursor.kind = found
  -- An expression inside an operand stands behind the token that the operand begins with.
  have hinside {x : Recorder Completed} {p : Parser Outline} (hk : found ≠ .endOfFile)
      (hx : Tracks tokens n true Whole x p) : Comes false (Perhaps []) s.events s
        ((x >>= fun c => Pure.pure (Option.some c)) s)
        ((p >>= fun o => Pure.pure (Option.some o)) s.context s.cursor) :=
    (hx.some.at_inside hs (Cursor.atEnd_eq_false_of_kind hk (beq_iff_eq.mpr hkind))).weaken
  cases Grammar.literalNode? found with
  | some literal => exact (leaf literal).some s hs
  | none =>
    cases Grammar.symbolNode? found with
    | some name => exact (symbol name).some s hs
    | none =>
      cases found with
      | openString => exact (faulty _ _).some s hs
      | badCharacter => exact (faulty _ _).some s hs
      | leftParen => exact hinside (by decide) (parenthesized h)
      | leftBrace => exact hinside (by decide) (block h)
      | ifKeyword => exact hinside (by decide) (conditional h)
      | whileKeyword => exact hinside (by decide) (whileLoop h)
      | forKeyword => exact hinside (by decide) (forLoop h)
      | repeatKeyword => exact hinside (by decide) (repeatLoop h)
      | functionKeyword => exact hinside (by decide) (function h)
      | lambda => exact hinside (by decide) (function h)
      | question => exact hinside (by decide) (help h)
      | tilde => exact hinside (by decide) (signed h _ _ Grammar.formulas_subset)
      | not => exact hinside (by decide) (signed h _ _ Grammar.comparisons_subset)
      | plus => exact hinside (by decide) (signed h _ _ Grammar.powers_subset)
      | minus => exact hinside (by decide) (signed h _ _ Grammar.powers_subset)
      | _ => exact none s hs

/-! ### Levels of precedence -/

theorem member :
    Tracks tokens n false Rows (Recorded.member expressions) (Grammar.member outlines) :=
  isAt_ite (by decide) (parenthesized h).one.discard (named _ _)

theorem rightOperand (rule : Grammar.Rule) {rules : List Grammar.Rule}
    (hrules : rules ⊆ Grammar.Rule.all) :
    Tracks tokens n false Rows (Recorded.rightOperand expressions rule rules)
      (Grammar.rightOperand outlines rule rules) :=
  expression_or h hrules (ite _ emptyExpression.one.discard missingExpression)

end Tracks

variable (h : Agrees tokens n expressions outlines)
include h

theorem wraps_trailer :
    Wraps tokens (n + 1) (Recorded.trailer? expressions) (Grammar.trailer? outlines) := by
  intro s before es c o hs hevents hwhole
  have hleft : Turned Option.isSome (Perhaps es) before s (pure none) (pure none) :=
    Turned.pure rfl hevents rfl
  refine Turned.newlineBreaks_bind 0 fun _ => Turned.ite _ (fun _ => hleft) fun _ =>
    Turned.look_bind Cursor.kind ?_
  generalize hkind : s.cursor.kind = found
  have haround {body : Recorder Unit} {p : Part} (kind : NodeKind) (hk : found ≠ .endOfFile)
      (hbody : Tracks tokens n true Rows body p) :=
    Turned.around hs (Cursor.atEnd_eq_false_of_kind hk (beq_iff_eq.mpr hkind)) hevents hwhole kind
      hbody
  cases found with
  | leftParen =>
    have hcall := haround .callExpression (by decide) (Tracks.argumentList h).one.discard
    rw [Parser.one_bind_pure] at hcall
    exact hcall
  | leftBracket => exact haround _ (by decide) (Tracks.subscripts h)
  | leftDoubleBracket => exact haround _ (by decide) (Tracks.subscripts h)
  | dollar =>
    exact haround _ (by decide) <|
      (Tracks.operator _).seq (Tracks.row_singleton (Tracks.member h))
  | «at» =>
    exact haround _ (by decide) <|
      (Tracks.operator _).seq (Tracks.row_singleton (Tracks.member h))
  | _ => exact hleft

theorem wraps_operation {rule : Grammar.Rule} (hrule : rule ∈ Grammar.Rule.all)
    {rules : List Grammar.Rule} (hrules : rules ⊆ Grammar.Rule.all) :
    Wraps tokens (n + 1) (Recorded.operation? expressions rule rules)
      (Grammar.operation? outlines rule rules) := by
  intro s before es c o hs hevents hwhole
  refine Turned.look_bind _ (Turned.newlineBreaks_bind 0 fun _ => Turned.ite _ (fun hat => ?_)
    fun _ => Turned.pure rfl hevents rfl)
  have hend : s.cursor.atEnd = false := by
    rw [Cursor.atEnd, beq_eq_false_iff_ne]
    intro hkind
    rw [hkind, Grammar.operators_endOfFile hrule] at hat
    cases hat
  exact Turned.around hs hend hevents hwhole _ <|
    (Tracks.operator _).seq (Tracks.row_singleton (Tracks.rightOperand h rule hrules))

/-- Level by level, the expressions that are read put the same nodes around one another. -/
theorem Tracks.climb (rules : List Grammar.Rule) (hrules : rules ⊆ Grammar.Rule.all) :
    Tracks tokens (n + 1) false (Perhaps []) (Recorded.climb expressions rules)
      (Grammar.climb outlines rules) := by
  induction rules with
  | nil =>
    exact (Tracks.operand? h).perhaps_bind fun hs hevents hwhole =>
      Comes.grow (wraps_trailer h) hs hevents hwhole
  | cons rule tighter ih =>
    have hrule : rule ∈ Grammar.Rule.all := hrules List.mem_cons_self
    have htighter : tighter ⊆ Grammar.Rule.all :=
      List.Subset.trans (List.subset_cons_self _ _) hrules
    intro s hs
    refine (ih htighter s hs).bind hs fun c? o? t es ht hes hvalue => ?_
    match c?, o?, hvalue with
    | .none, .none, hnil => exact Comes.pure hes hnil
    | .some c, .some o, hwhole =>
      dsimp only
      cases rule.grouping with
      | left =>
        have hgrown := Comes.grow (wraps_operation h hrule htighter) ht hes hwhole
        exact hgrown.map Option.some Option.some fun _ _ _ _ => id
      | right =>
        obtain ⟨done, hdone, hstep⟩ := wraps_operation h hrule hrules ht hes hwhole
        obtain ⟨es', hes', hvalue'⟩ := hstep.events
        refine ⟨_, Recorder.bind_pure_apply (fun c? => Option.some (c?.getD c)) hdone, ?_⟩
        dsimp only
        rw [Parser.bind_pure_apply]
        exact ⟨hstep.cursor, hstep.weaken.reads, hstep.context, hstep.log, es', hes',
          Perhaps.getD hwhole hvalue'⟩

omit h in
/-- Expressions need not nest deeper than there are items left. -/
theorem agrees_expressionsUpTo (tokens : List Token) : ∀ depth : Nat,
    Agrees tokens depth (Recorded.expressionsUpTo depth) (Grammar.expressionsUpTo depth)
  | 0 => ⟨fun _ _ _ hs => absurd hs.few (Nat.not_lt_zero _),
      Grammar.conforms_expressionsUpTo tokens .lenient 0, fun h => absurd h (Nat.not_lt_zero _)⟩
  | depth + 1 => ⟨Tracks.climb (agrees_expressionsUpTo tokens depth),
      Grammar.conforms_expressionsUpTo tokens .lenient (depth + 1),
      fun _ => Grammar.finds_expressionsUpTo depth⟩

omit h in
/-- The events of a source say what the grammar finds in it. -/
theorem Comes.source {s : Recording} (hover : s.cursor.Over tokens) :
    Comes false Whole s.events s (Recorded.source s) (Grammar.source s.context s.cursor) :=
  Comes.look_bind Cursor.remaining <| Tracks.file (agrees_expressionsUpTo tokens _) s
    ⟨hover, Nat.lt_succ_self _, fun h => nomatch h⟩

end RSource
