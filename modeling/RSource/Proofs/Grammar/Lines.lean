import RSource.Grammar.Precedence
import RSource.Proofs.Parser.Matched

/-! Line ends that the grammar does not see.  Every production keeps the brackets that stand open
around it, and comes to an end behind a token that is not continued, so that a line end is asked for
only where there are no more of them. -/

namespace RSource.Grammar

open RSource.Parser RSource.TokenKind

variable {s : List TokenKind} {k : TokenKind} {lines : Bool} {pre : Cursor → Prop}

/-- The cursor stands inside these brackets at a token of this kind. -/
structure At (s : List TokenKind) (k : TokenKind) (c : Cursor) : Prop where
  inside : c.Inside s
  kind : c.kind = k

theorem At.of_inside {c : Cursor} (h : c.Inside s ∧ c.kind = k) : At s k c := ⟨h.1, h.2⟩

theorem At.of_settled {c : Cursor} (h : c.Settled s ∧ c.kind = k) : At s k c := ⟨h.1.inside, h.2⟩

/-! ### Single tokens -/

/-- The kind is neither a bracket nor continued. -/
def single (k : TokenKind) : Bool := k.plain && !continued.contains k

theorem ne_endOfFile_of_plain (h : k.plain = true) : k ≠ .endOfFile := by
  rintro rfl
  cases h

theorem single_iff : single k = true ↔ k.plain = true ∧ k ∉ continued := by
  simp [single]

theorem plain_of_single (h : single k = true) : k.plain = true := (single_iff.mp h).1

theorem settled_of_single {c d : Cursor} (h : c.Inside s) (hpast : d.past = k :: c.past)
    (hk : single k = true) : d.Settled s :=
  (h.plain hpast (plain_of_single hk)).settled hpast (single_iff.mp hk).2

theorem keeps_single (h : ∀ c, pre c → c.Inside s ∧ single c.kind = true) :
    Keeps lines pre bump (Rows (Cursor.Settled s)) :=
  keeps_bump (fun c hc => ne_endOfFile_of_plain (plain_of_single (h c hc).2))
    fun c hc _ hpast _ => settled_of_single (h c hc).1 hpast (h c hc).2

theorem keeps_plain (h : ∀ c, pre c → c.Inside s ∧ c.kind.plain = true) :
    Keeps lines pre bump (Rows (Cursor.Inside s)) :=
  keeps_bump (fun c hc => ne_endOfFile_of_plain (h c hc).2)
    fun c hc _ hpast _ => (h c hc).1.plain hpast (h c hc).2

theorem keeps_at (hk : single k = true) : Keeps lines (At s k) bump (Rows (Cursor.Settled s)) :=
  keeps_single fun _ hc => ⟨hc.inside, hc.kind ▸ hk⟩

theorem keeps_opener (hk : k ∈ openers) :
    Keeps lines (At s k) bump (Rows (Cursor.Settled (k :: s))) := by
  have hopeners : ∀ k ∈ openers, k ≠ .endOfFile ∧ k ∉ continued := by decide
  obtain ⟨hend, hlast⟩ := hopeners k hk
  refine keeps_bump (fun c hc => hc.kind ▸ hend) fun c hc d hpast _ => ?_
  rw [hc.kind] at hpast
  exact (hc.inside.opener hpast hk).settled hpast hlast

theorem keeps_closer {opener : TokenKind} {problem : TokenKind → Problem} (hk : k ∈ closers)
    (h : ∀ c, pre c → c.Inside (opener :: s)) :
    Keeps lines pre (expect k problem) (Rows (Cursor.Settled s)) := by
  have hclosers : ∀ k ∈ closers, k ≠ .endOfFile ∧ k ∉ continued := by decide
  obtain ⟨hend, hlast⟩ := hclosers k hk
  refine keeps_expect (keeps_bump (fun c hc => hc.2 ▸ hend) fun c hc d hpast _ => ?_)
  rw [hc.2] at hpast
  exact ((h c hc.1).closer hpast hk).settled hpast hlast

/-- A token that is known to be missing. -/
theorem keeps_missing {problem : TokenKind → Problem}
    {post : List Outline → List Outline → Cursor → Prop} (h : ∀ c, pre c → c.kind ≠ k) :
    Keeps lines pre (expect k problem) post :=
  .isAt (matches_of_false fun c hc => h c hc.1 hc.2)
    (.kind fun _ => matches_report)

/-! ### Regions -/

theorem keeps_bracketed {p : Part} {post : List Outline → List Outline → Cursor → Prop}
    (h : Keeps false pre p post) : Keeps lines pre (bracketed p) post := by
  intro context c d _
  refine h _ c d ?_
  simp [Context.newlinesTerminate, Context.union, Context.brackets]

theorem keeps_braced {p : Part} {post : List Outline → List Outline → Cursor → Prop}
    (h : Keeps true pre p post) : Keeps lines pre (braced p) post := by
  intro context c d _
  refine h _ c d ?_
  simp [Context.newlinesTerminate, Context.diff, Context.brackets]

/-- What stands between brackets, with the closing one. -/
theorem keeps_enclosed (hk : k ∈ brackets) {p : Part}
    (h : Keeps (linesCount (k :: s)) (Cursor.Settled (k :: s)) p (Rows (Cursor.Settled s))) :
    Keeps lines (At s k) (row [bump, bracketed p]) (Rows (Cursor.Settled s)) := by
  have hlines : linesCount (k :: s) = false := by simpa [linesCount] using hk
  rw [hlines] at h
  exact (keeps_opener (List.mem_cons_of_mem _ hk)).row (keeps_bracketed h).single

/-! ### Productions -/

theorem keeps_named {nodes? : TokenKind → Option NodeKind} {problem : TokenKind → Problem}
    (hnodes : ∀ k node, nodes? k = some node → single k = true) :
    Keeps lines (Cursor.Inside s) (named nodes? problem) (Rows (Cursor.Settled s)) := by
  refine .kind fun found => ?_
  cases hnode : nodes? found with
  | none => exact matches_report
  | some node =>
    exact .one (.leaf (keeps_single fun c hc => ⟨hc.1, hc.2 ▸ hnodes found node hnode⟩))

theorem single_of_symbolNode? (k : TokenKind) (node : NodeKind) (h : symbolNode? k = some node) :
    single k = true := by
  cases k <;> first | rfl | cases h

theorem single_of_binderNode? (k : TokenKind) (node : NodeKind) (h : binderNode? k = some node) :
    single k = true := by
  cases k <;> first | rfl | cases h

theorem single_of_memberNode? (k : TokenKind) (node : NodeKind) (h : memberNode? k = some node) :
    single k = true := by
  cases k <;> first | rfl | cases h

theorem single_of_literalNode? (k : TokenKind) (node : NodeKind) (h : literalNode? k = some node) :
    single k = true := by
  cases k <;> first | rfl | cases h

theorem elementEnded_eq (c d : Cursor) (h : c.Loosened d) : elementEnded d = elementEnded c := by
  rw [elementEnded, elementEnded, h.kind_eq, h.atEnd_eq]

theorem keeps_elementRest : Keeps lines (Cursor.Settled s) elementRest (Rows (Cursor.Settled s)) :=
  .ite (fun c d h _ => elementEnded_eq c d h)
    (matches_pure fun _ hc => ⟨rfl, hc.1⟩)
    (.kind fun _ => matches_report)

theorem skipStatement_errors (set : TokenSet) (context : Context) (c : Cursor) :
    (skipStatement set context c).errors ≠ [] :=
  report_errors_ne_nil (.unexpected c.kind) (fun _ =>
    one (node .error [bump, bumpWhile fun c => !statementEnds set c])) context c

theorem keeps_emptyExpression {post : Cursor → Prop} :
    Keeps lines post emptyExpression (Trees post) := keeps_nil.node _

theorem keeps_missingExpression {post : List Outline → List Outline → Cursor → Prop} :
    Keeps lines pre missingExpression post :=
  .kind fun _ => matches_report

/-- The cursor stands at a name. -/
structure AtName (s : List TokenKind) (c : Cursor) : Prop where
  inside : c.Inside s
  single : single c.kind = true

theorem keeps_exportFollows : Keeps (linesCount s) (AtName s) exportFollows fun a b c =>
    b = a ∧ AtName s c ∧
      (a = true → c.kindAhead 1 = .doubleColon ∨ c.kindAhead 1 = .tripleColon) := by
  intro context c d hlines hloose hc _
  have hend : c.atEnd = false :=
    beq_eq_false_iff_ne.mpr (ne_endOfFile_of_plain (plain_of_single hc.single))
  have hend' : d.atEnd = false := by rw [hloose.atEnd_eq, hend]
  have hsettled := settled_of_single hc.inside (hloose.after_eq hend).1 hc.single
  have hbreaks : (context.newlinesTerminate && (d.ahead 1).newlineBefore) =
      (context.newlinesTerminate && (c.ahead 1).newlineBefore) := by
    rw [hlines, ← Cursor.here_advance hend, ← Cursor.here_advance hend']
    cases hs : linesCount s with
    | false => rfl
    | true => exact (hloose.advance hend).line_eq hsettled hs
  refine ⟨rfl, hloose, ?_, hc, fun hvalue => ?_⟩
  · show ((d.kindAhead 1 == .doubleColon || d.kindAhead 1 == .tripleColon) &&
      !(context.newlinesTerminate && (d.ahead 1).newlineBefore)) = _
    rw [hbreaks, hloose.kindAhead_eq hend]
    rfl
  · have hkind : (c.kindAhead 1 == .doubleColon || c.kindAhead 1 == .tripleColon) = true :=
      (Bool.and_eq_true_iff.mp hvalue).1
    show c.kindAhead 1 = .doubleColon ∨ c.kindAhead 1 = .tripleColon
    simpa using hkind

theorem keeps_symbol (node : NodeKind) : Keeps (linesCount s) (AtName s) (symbol node)
    (Trees (Cursor.Settled s)) := by
  refine keeps_exportFollows.bind fun a b => .assume fun hb => ?_
  subst hb
  cases b with
  | false => exact .leaf (keeps_single fun c hc => ⟨hc.1.inside, hc.1.single⟩)
  | true =>
    have hexports : ∀ k : TokenKind, k = .doubleColon ∨ k = .tripleColon → k.plain = true := by
      rintro _ (rfl | rfl)
      · rfl
      · rfl
    have hfirst : Keeps (linesCount s) (fun c => AtName s c ∧ (true = true →
        c.kindAhead 1 = .doubleColon ∨ c.kindAhead 1 = .tripleColon)) bump
        (Rows fun c => c.Inside s ∧ c.kind.plain = true) :=
      keeps_bump (fun c hc => ne_endOfFile_of_plain (plain_of_single hc.1.single))
        fun c hc d hpast hkind =>
          ⟨hc.1.inside.plain hpast (plain_of_single hc.1.single),
            hkind ▸ hexports _ (hc.2 rfl)⟩
    exact .node _ <| hfirst.row <| (keeps_plain fun _ hc => hc).row
      (keeps_named single_of_symbolNode?).single

/-- The parser for expressions is indifferent to more line ends. -/
def Indifferent (expressions : Expressions) : Prop :=
  ∀ rules ⊆ Rule.all, ∀ s (pre : Cursor → Prop), (∀ c, pre c → c.Inside s) →
    Keeps (linesCount s) pre (expressions rules) (Maybe (Trees (Cursor.Settled s)) pre)

section

variable {expressions : Expressions} (he : Indifferent expressions)

include he

theorem keeps_operand {rules : List Rule} (hrules : rules ⊆ Rule.all)
    (hpre : ∀ c, pre c → c.Inside s) :
    Keeps (linesCount s) pre (operand expressions rules) (Rows (Cursor.Settled s)) :=
  (he rules hrules s pre hpre).option
    (fun o o' => .assume fun ho => matches_pure fun _ hc =>
      ⟨by rw [Outline.forestBare, ho]; rfl, hc⟩)
    keeps_missingExpression

theorem keeps_expression (hpre : ∀ c, pre c → c.Inside s) :
    Keeps (linesCount s) pre (expression expressions) (Rows (Cursor.Settled s)) :=
  keeps_operand he (List.Subset.refl _) hpre

theorem keeps_led (hk : single k = true) : Keeps (linesCount s) (At s k)
    (row [bump, expression expressions]) (Rows (Cursor.Settled s)) :=
  (keeps_at hk).row (keeps_expression he fun _ hc => hc.inside).single

theorem keeps_grouped : Keeps lines (At s .leftParen) (grouped expressions)
    (Rows (Cursor.Settled s)) :=
  keeps_enclosed (by decide) <| (keeps_expression he fun _ hc => hc.inside).row
    (keeps_closer (by decide) fun _ hc => hc.inside).single

theorem keeps_parenthesized : Keeps lines (At s .leftParen) (parenthesized expressions)
    (Trees (Cursor.Settled s)) := (keeps_grouped he).single.node _

theorem keeps_statement? (set : TokenSet) :
    Keeps (linesCount s) (Cursor.Settled s) (statement? expressions set)
      (Maybe (Rows (Cursor.Settled s)) (Cursor.Settled s)) := by
  have hskip : ∀ {α : Type} (f : List Outline → Parser α) context c,
      ((skipStatement set >>= f) context c).errors ≠ [] := fun f context c => by
    -- A statement that is skipped is an error: nothing is left to compare there.
    rw [bind_apply]
    exact List.append_ne_nil_of_left_ne_nil (skipStatement_errors set context c) _
  -- The other way it fails: where `c` goes on in the same line, `d` may be in the next one.
  have hends : ∀ c d, c.Loosened d → statementEnds set c = true → statementEnds set d = true := by
    intro c d h
    simp only [statementEnds, h.kind_eq, h.atEnd_eq, Bool.or_eq_true]
    refine Or.imp_right fun hline => ?_
    rcases h.line with heq | ⟨htrue, -⟩
    · rwa [heq]
    · exact htrue
  refine .isAt (.found ((keeps_at (by decide)).of_pre fun _ => At.of_settled)) ?_
  refine .ite (fun c d h _ => by rw [h.kind_eq, h.atEnd_eq]) (matches_pure fun _ hc => hc.1.1) ?_
  refine .ite (fun c d h _ => by rw [h.kind_eq]) ?_
    (matches_of_errors fun context c _ => hskip _ context c)
  refine (he Rule.all (List.Subset.refl _) s _ fun c hc => hc.1.1.1.inside).option
    (fun o o' => .assume fun ho => ?_) ?_
  · exact .look_mono hends
      (matches_pure fun _ hc => ⟨by simp only [Option.toList, Outline.forestBare, ho], hc⟩)
      fun context c => hskip _ context c
  · exact .look_mono hends (matches_pure fun _ hc => ⟨rfl, hc.1.1.1⟩)
      fun context c => hskip _ context c

theorem keeps_statements (set : TokenSet) :
    Keeps (linesCount s) (Cursor.Settled s) (statements expressions set)
      (Rows (Cursor.Settled s)) := keeps_many (keeps_statement? he set)

theorem keeps_block : Keeps lines (At s .leftBrace) (block expressions)
    (Trees (Cursor.Settled s)) :=
  have hstatements : Keeps true (Cursor.Settled (.leftBrace :: s))
      (statements expressions (.single .rightBrace)) (Rows (Cursor.Settled (.leftBrace :: s))) :=
    keeps_statements (s := .leftBrace :: s) he _
  .node _ <| (keeps_opener (by decide)).row <| (keeps_braced hstatements).row
    (keeps_closer (by decide) fun _ hc => hc.inside).single

/-! ### Lists between brackets -/

omit he in
theorem keeps_separated (closer : TokenKind) {element : Part}
    (h : Keeps lines (Cursor.Settled s) element (Rows (Cursor.Settled s))) :
    Keeps lines (Cursor.Settled s) (separated closer element) (Rows (Cursor.Settled s)) := by
  have hmore : Keeps lines (Cursor.Settled s) (many do
      if ← isAt .comma then return some (← row [bump, element]) else return none)
      (Rows (Cursor.Settled s)) :=
    keeps_many <| .isAt
      (.found (.row ((keeps_at rfl).of_pre fun _ => At.of_settled) h.single))
      (matches_pure fun _ hc => hc.1)
  exact .isAt (matches_pure fun _ hc => ⟨rfl, hc.1⟩)
    (.row (h.of_pre fun _ hc => hc.1) hmore.single)

omit he in
theorem keeps_delimited {closer : TokenKind} (hk : k ∈ brackets) (hcloser : closer ∈ closers)
    {element : Part} (h : Keeps (linesCount (k :: s)) (Cursor.Settled (k :: s)) element
      (Rows (Cursor.Settled (k :: s)))) :
    Keeps lines (At s k) (delimited closer element) (Rows (Cursor.Settled s)) :=
  keeps_enclosed hk <| (keeps_separated closer h).row
    (keeps_closer hcloser fun _ hc => hc.inside).single

theorem keeps_optionalValue : Keeps (linesCount s) (Cursor.Settled s) (optionalValue expressions)
    (Rows (Cursor.Settled s)) :=
  .ite (fun c d h _ => elementEnded_eq c d h)
    ((keeps_emptyExpression).one.of_pre fun _ hc => hc.1)
    (keeps_expression he fun _ hc => hc.1.inside)

omit he in
theorem namesArgument_eq (c d : Cursor) (h : c.Loosened d) :
    namesArgument d = namesArgument c := by
  rw [namesArgument, namesArgument, h.kind_eq]
  cases hname : argumentNames.contains c.kind with
  | false => rfl
  | true =>
    have hend : c.atEnd = false := by
      refine beq_eq_false_iff_ne.mpr fun hkind => ?_
      rw [hkind] at hname
      cases hname
    rw [h.kindAhead_eq hend]

theorem keeps_namedArgument : Keeps (linesCount s)
    (fun c => c.Settled s ∧ namesArgument c = true) (namedArgument expressions)
    (Trees (Cursor.Settled s)) := by
  have hnames : ∀ k ∈ argumentNames.kinds, single k = true := by decide
  have hname : Keeps (linesCount s) (fun c => c.Settled s ∧ namesArgument c = true) bump
      (Rows (At s .equal)) := by
    have hat : ∀ c : Cursor, namesArgument c = true →
        single c.kind = true ∧ c.kindAhead 1 = .equal := fun c hc => by
      obtain ⟨hkind, hnext⟩ := Bool.and_eq_true_iff.mp hc
      exact ⟨hnames _ (by simpa [TokenSet.contains] using hkind), beq_iff_eq.mp hnext⟩
    refine keeps_bump (fun c hc => ne_endOfFile_of_plain (plain_of_single (hat c hc.2).1))
      fun c hc d hpast hkind => ?_
    exact ⟨hc.1.inside.plain hpast (plain_of_single (hat c hc.2).1), hkind.trans (hat c hc.2).2⟩
  refine .kind fun found => .node _ <| .row (.one (.leaf (hname.of_pre fun _ hc => hc.1))) ?_
  exact .row (.one (.leaf (keeps_at rfl))) (keeps_optionalValue he).single

theorem keeps_argument : Keeps (linesCount s) (Cursor.Settled s) (argument expressions)
    (Rows (Cursor.Settled s)) := by
  have hvalue : Keeps (linesCount s) (Cursor.Settled s) (do
      if ← look namesArgument then one (namedArgument expressions)
      else expression expressions) (Rows (Cursor.Settled s)) :=
    .ite (fun c d h _ => namesArgument_eq c d h) (keeps_namedArgument he).one
      (keeps_expression he fun _ hc => hc.1.inside)
  exact .ite (fun c d h _ => elementEnded_eq c d h)
    (keeps_emptyExpression.one.of_pre fun _ hc => hc.1)
    (.row (hvalue.of_pre fun _ hc => hc.1) keeps_elementRest.single)

theorem keeps_argumentList : Keeps lines (At s .leftParen) (argumentList expressions)
    (Trees (Cursor.Settled s)) :=
  (keeps_delimited (by decide) (by decide) (keeps_argument he)).single.node _

theorem keeps_subscripts : Keeps lines
    (fun c => At s .leftBracket c ∨ At s .leftDoubleBracket c) (subscripts expressions)
    (Rows (Cursor.Settled s)) := by
  refine .look (f := (·.kind == .leftDoubleBracket)) (fun _ _ h _ => by rw [h.kind_eq]) fun a => ?_
  cases a with
  | true =>
    exact (keeps_delimited (k := .leftDoubleBracket) (by decide) (by decide)
      (keeps_argument he)).of_pre fun c hc => ⟨hc.1.elim (·.inside) (·.inside), beq_iff_eq.mp hc.2⟩
  | false =>
    exact (keeps_delimited (k := .leftBracket) (by decide) (by decide)
      (keeps_argument he)).of_pre fun c hc =>
        hc.1.resolve_right fun h => beq_eq_false_iff_ne.mp hc.2 h.kind

theorem keeps_parameterName : Keeps (linesCount s) (Cursor.Settled s) (parameterName expressions)
    (Rows (Cursor.Settled s)) := by
  have hdefault : Keeps (linesCount s) (Cursor.Settled s) (do
      if ← isAt .equal then row [one (leaf .assignOperator), expression expressions]
      else return []) (Rows (Cursor.Settled s)) :=
    .isAt (.row (.one (.leaf ((keeps_at rfl).of_pre fun _ => At.of_settled)))
        (keeps_expression he fun _ hc => hc.inside).single)
      (matches_pure fun _ hc => ⟨rfl, hc.1⟩)
  refine .ite (fun c d h _ => by rw [h.kind_eq])
    (.row (.one (.leaf (keeps_single ?_))) hdefault.single)
    (.kind fun _ => matches_report)
  intro c hc
  have hkind : c.kind = .identifier ∨ c.kind = .dots := by simpa using hc.2
  refine ⟨hc.1.inside, ?_⟩
  rcases hkind with h | h
  · exact h ▸ rfl
  · exact h ▸ rfl

theorem keeps_parameter : Keeps (linesCount s) (Cursor.Settled s) (parameter expressions)
    (Trees (Cursor.Settled s)) :=
  ((keeps_parameterName he).row keeps_elementRest.single).node _

theorem keeps_parameterList : Keeps lines (Cursor.Inside s) (parameterList expressions)
    (Trees (Cursor.Settled s)) :=
  .node _ <| .single <| .isAt
    ((keeps_delimited (k := .leftParen) (by decide) (by decide) (keeps_parameter he).one).of_pre
      fun _ => At.of_inside)
    (keeps_missing fun _ hc => hc.2)

/-! ### Control flow -/

theorem keeps_condition : Keeps lines (Cursor.Inside s) (condition expressions)
    (Rows (Cursor.Settled s)) :=
  .isAt ((keeps_grouped he).of_pre fun _ => At.of_inside) (keeps_missing fun _ hc => hc.2)

theorem keeps_conditional : Keeps (linesCount s) (At s .ifKeyword) (conditional expressions)
    (Trees (Cursor.Settled s)) := by
  have helse : Keeps (linesCount s) (Cursor.Settled s) (do
      if ← isAt .elseKeyword then row [bump, expression expressions] else return [])
      (Rows (Cursor.Settled s)) :=
    .isAt ((keeps_led he rfl).of_pre fun _ => At.of_settled) (matches_pure fun _ hc => ⟨rfl, hc.1⟩)
  exact .node _ <| (keeps_at rfl).row <| ((keeps_condition he).of_pre fun _ hc => hc.inside).row <|
    (keeps_expression he fun _ hc => hc.inside).row helse.single

theorem keeps_whileLoop : Keeps (linesCount s) (At s .whileKeyword) (whileLoop expressions)
    (Trees (Cursor.Settled s)) :=
  .node _ <| (keeps_at rfl).row <| ((keeps_condition he).of_pre fun _ hc => hc.inside).row
    (keeps_expression he fun _ hc => hc.inside).single

theorem keeps_repeatLoop : Keeps (linesCount s) (At s .repeatKeyword) (repeatLoop expressions)
    (Trees (Cursor.Settled s)) :=
  (keeps_led he rfl).node _

theorem keeps_loopRange : Keeps (linesCount s) (Cursor.Settled s) (loopRange expressions)
    (Rows (Cursor.Settled s)) :=
  .isAt ((keeps_led he rfl).of_pre fun _ => At.of_settled) (keeps_missing fun _ hc => hc.2)

theorem keeps_loopHeader : Keeps lines (Cursor.Inside s) (loopHeader expressions)
    (Rows (Cursor.Settled s)) := by
  have hinside : Keeps (linesCount (.leftParen :: s)) (Cursor.Settled (.leftParen :: s))
      (row [named binderNode? .noLoopVariable, loopRange expressions,
        expect .rightParen (.notClosed .rightParen)]) (Rows (Cursor.Settled s)) :=
    ((keeps_named single_of_binderNode?).of_pre fun _ hc => hc.inside).row <|
      (keeps_loopRange he).row (keeps_closer (by decide) fun _ hc => hc.inside).single
  exact .isAt ((keeps_enclosed (by decide) hinside).of_pre fun _ => At.of_inside)
    (keeps_missing fun _ hc => hc.2)

theorem keeps_forLoop : Keeps (linesCount s) (At s .forKeyword) (forLoop expressions)
    (Trees (Cursor.Settled s)) :=
  .node _ <| (keeps_at rfl).row <| ((keeps_loopHeader he).of_pre fun _ hc => hc.inside).row
    (keeps_expression he fun _ hc => hc.inside).single

theorem keeps_function (hk : single k = true) : Keeps (linesCount s) (At s k)
    (function expressions) (Trees (Cursor.Settled s)) :=
  .node _ <| (keeps_at hk).row <| ((keeps_parameterList he).one.of_pre fun _ hc => hc.inside).row
    (keeps_expression he fun _ hc => hc.inside).single

/-! ### Operators -/

theorem keeps_help : Keeps (linesCount s) (At s .question) (help expressions)
    (Trees (Cursor.Settled s)) := by
  have hkeywords : ∀ k : TokenKind, k.isKeyword = true → single k = true := by
    intro k hk
    cases k <;> first | rfl | cases hk
  have heat : Keeps (linesCount s) (Cursor.Inside s) (eat .question)
      (Rows (Cursor.Inside s)) :=
    .isAt (keeps_plain fun _ hc => ⟨hc.1, hc.2 ▸ rfl⟩)
      (matches_pure fun _ hc => ⟨rfl, hc.1⟩)
  have htopic : Keeps (linesCount s) (Cursor.Inside s) (do
      if (← kind).isKeyword then bump else expression expressions) (Rows (Cursor.Settled s)) := by
    refine .kind fun found => ?_
    cases hfound : found.isKeyword with
    | true => exact keeps_single fun c hc => ⟨hc.1, hc.2 ▸ hkeywords found hfound⟩
    | false => exact keeps_expression he fun _ hc => hc.1
  exact .node _ <| .row (keeps_plain fun _ hc => ⟨hc.inside, hc.kind ▸ rfl⟩) <|
    heat.row htopic.single

theorem keeps_signed (operator node : NodeKind) {rules : List Rule} (hrules : rules ⊆ Rule.all)
    (hk : k.plain = true) : Keeps (linesCount s) (At s k) (signed expressions operator node rules)
      (Trees (Cursor.Settled s)) :=
  .node _ <| .row (.one (.leaf (keeps_plain fun _ hc => ⟨hc.inside, hc.kind ▸ hk⟩)))
    (keeps_operand he hrules fun _ hc => hc).single

omit he in
theorem keeps_faulty {problem : Problem} {node : NodeKind}
    {post : Outline → Outline → Cursor → Prop} : Keeps lines pre (faulty problem node) post :=
  matches_report

omit he in
theorem subset_all : Rule.formulas ⊆ Rule.all ∧ Rule.comparisons ⊆ Rule.all ∧
    Rule.powers ⊆ Rule.all := by
  have hformulas : Rule.formulas ⊆ Rule.all := List.subset_append_right _ _
  have hcomparisons : Rule.comparisons ⊆ Rule.all :=
    List.Subset.trans (List.subset_append_right _ _) hformulas
  exact ⟨hformulas, hcomparisons, List.Subset.trans (List.subset_append_right _ _) hcomparisons⟩

theorem keeps_operand? (hpre : ∀ c, pre c → c.Inside s) :
    Keeps (linesCount s) pre (operand? expressions) (Maybe (Trees (Cursor.Settled s)) pre) := by
  have hat : ∀ k c, pre c ∧ c.kind = k → At s k c := fun k c hc => ⟨hpre c hc.1, hc.2⟩
  refine .kind fun k => ?_
  cases hliteral : literalNode? k with
  | some literal =>
    exact .found (.leaf ((keeps_at (single_of_literalNode? k literal hliteral)).of_pre (hat k)))
  | none =>
    cases hname : symbolNode? k with
    | some name =>
      exact .found ((keeps_symbol name).of_pre fun c hc =>
        ⟨hpre c hc.1, hc.2 ▸ single_of_symbolNode? k name hname⟩)
    | none =>
      dsimp only
      split
      · exact .found keeps_faulty
      · exact .found keeps_faulty
      · exact .found ((keeps_parenthesized he).of_pre (hat _))
      · exact .found ((keeps_block he).of_pre (hat _))
      · exact .found ((keeps_conditional he).of_pre (hat _))
      · exact .found ((keeps_whileLoop he).of_pre (hat _))
      · exact .found ((keeps_forLoop he).of_pre (hat _))
      · exact .found ((keeps_repeatLoop he).of_pre (hat _))
      · exact .found ((keeps_function he rfl).of_pre (hat _))
      · exact .found ((keeps_function he rfl).of_pre (hat _))
      · exact .found ((keeps_help he).of_pre (hat _))
      · exact .found ((keeps_signed he _ _ subset_all.1 rfl).of_pre (hat _))
      · exact .found ((keeps_signed he _ _ subset_all.2.1 rfl).of_pre (hat _))
      · exact .found ((keeps_signed he _ _ subset_all.2.2 rfl).of_pre (hat _))
      · exact .found ((keeps_signed he _ _ subset_all.2.2 rfl).of_pre (hat _))
      · exact matches_pure fun _ hc => hc.1

omit he in
/-- What is found, in a node with more behind it. -/
theorem matches_larger (node : NodeKind) {o o' : Outline} (ho : o'.bare = o.bare) {p : Part}
    {P Q : Cursor → Prop} (h : Keeps lines pre p (Rows P)) :
    Matches lines pre (do return some (.node node (o :: (← p))))
      (do return some (.node node (o' :: (← p)))) (Maybe (Trees P) Q) :=
  h.bind fun _ _ => .assume fun hos => matches_pure fun _ hc =>
    ⟨by rw [Outline.bare, Outline.bare, Outline.forestBare, Outline.forestBare, ho, hos], hc⟩

theorem keeps_member : Keeps (linesCount s) (Cursor.Inside s) (member expressions)
    (Rows (Cursor.Settled s)) :=
  .isAt ((keeps_parenthesized he).one.of_pre fun _ => At.of_inside)
    ((keeps_named single_of_memberNode?).of_pre fun _ hc => hc.1)

theorem matches_trailer? {o o' : Outline} (ho : o'.bare = o.bare) :
    Matches (linesCount s) (Cursor.Settled s) (trailer? expressions o) (trailer? expressions o')
      (Maybe (Trees (Cursor.Settled s)) (Cursor.Settled s)) := by
  have hat : ∀ k c, c.Settled s ∧ c.kind = k → At s k c := fun k c hc => ⟨hc.1.inside, hc.2⟩
  have hmember : ∀ k operator, k.plain = true → Keeps (linesCount s)
      (fun c => c.Settled s ∧ c.kind = k) (row [one (leaf operator), member expressions])
      (Rows (Cursor.Settled s)) := fun k operator hk =>
    .row (.one (.leaf (keeps_plain fun _ hc => ⟨hc.1.inside, hc.2 ▸ hk⟩))) (keeps_member he).single
  refine .newlineBreaks (fun _ hc => hc) fun b => ?_
  cases b with
  | true => exact matches_pure fun _ hc => hc
  | false =>
    refine .kind fun k => ?_
    split
    · refine ((keeps_argumentList he).of_pre (hat _)).bind fun a a' => .assume fun ha => ?_
      exact matches_pure fun _ hc => ⟨by simp only [Outline.bare, Outline.forestBare, ho, ha], hc⟩
    · exact matches_larger _ ho ((keeps_subscripts he).of_pre fun c hc => .inl (hat _ c hc))
    · exact matches_larger _ ho ((keeps_subscripts he).of_pre fun c hc => .inr (hat _ c hc))
    · exact matches_larger _ ho (hmember _ _ rfl)
    · exact matches_larger _ ho (hmember _ _ rfl)
    · exact matches_pure fun _ hc => hc.1

omit he in
/-- Only an operator with an optional right operand may come last. -/
theorem plain_of_mem_operators : ∀ rule ∈ Rule.all, ∀ k ∈ rule.operators.kinds,
    k.plain = true ∧ (rule.optional = true → k ∉ continued) := by
  decide

/-- Where nothing comes after an operator with an optional operand, the cursor is settled already. -/
theorem keeps_rightOperand (rule : Rule) {rules : List Rule} (hrules : rules ⊆ Rule.all) :
    Keeps (linesCount s)
      (fun c => c.Inside s ∧ (rule.optional = true → c.Settled s))
      (rightOperand expressions rule rules) (Rows (Cursor.Settled s)) := by
  refine (he rules hrules s _ fun _ hc => hc.1).option
    (fun o o' => .assume fun ho => matches_pure fun _ hc =>
      ⟨by rw [Outline.forestBare, ho]; rfl, hc⟩) ?_
  dsimp only
  split
  · next hoptional => exact keeps_emptyExpression.one.of_pre fun _ hc => hc.2 hoptional
  · exact keeps_missingExpression

theorem matches_operation? {rule : Rule} (hrule : rule ∈ Rule.all) {rules : List Rule}
    (hrules : rules ⊆ Rule.all) {o o' : Outline} (ho : o'.bare = o.bare) :
    Matches (linesCount s) (Cursor.Settled s) (operation? expressions rule rules o)
      (operation? expressions rule rules o')
      (Maybe (Trees (Cursor.Settled s)) (Cursor.Settled s)) := by
  have hoperator : Keeps (linesCount s)
      (fun c => c.Settled s ∧ rule.operators.contains c.kind = true) bump
      (Rows fun c => c.Inside s ∧ (rule.optional = true → c.Settled s)) := by
    have hkind : ∀ c : Cursor, rule.operators.contains c.kind = true →
        c.kind.plain = true ∧ (rule.optional = true → c.kind ∉ continued) := fun c hc =>
      plain_of_mem_operators rule hrule _ (by simpa [TokenSet.contains] using hc)
    refine keeps_bump (fun c hc => ne_endOfFile_of_plain (hkind c hc.2).1) fun c hc d hpast _ => ?_
    have hinside := hc.1.inside.plain hpast (hkind c hc.2).1
    exact ⟨hinside, fun hoptional => hinside.settled hpast ((hkind c hc.2).2 hoptional)⟩
  refine .look (fun c d h _ => by rw [h.kind_eq]) fun a => ?_
  refine .newlineBreaks (fun _ hc => hc.1) fun b => ?_
  split
  · next hcontinues =>
    obtain ⟨rfl, -⟩ := Bool.and_eq_true_iff.mp hcontinues
    exact matches_larger _ ho <| .row (.one (.leaf hoperator))
      (keeps_rightOperand he rule hrules).single
  · exact matches_pure fun _ hc => hc.1

theorem keeps_climb : ∀ {rules : List Rule}, rules ⊆ Rule.all → (∀ c, pre c → c.Inside s) →
    Keeps (linesCount s) pre (climb expressions rules) (Maybe (Trees (Cursor.Settled s)) pre)
  | [], _, hpre => (keeps_operand? he hpre).option
      (fun o o' => .assume fun ho => .found (matches_grow (fun _ _ => matches_trailer? he) ho))
      (matches_pure fun _ hc => hc)
  | rule :: tighter, hrules, hpre => by
    have hrule : rule ∈ Rule.all := hrules List.mem_cons_self
    have htighter : tighter ⊆ Rule.all := List.Subset.trans (List.subset_cons_self _ _) hrules
    refine (keeps_climb htighter hpre).option (fun left left' => .assume fun hleft => ?_)
      (matches_pure fun _ hc => hc)
    dsimp only
    cases rule.grouping with
    | left =>
      exact .found (matches_grow (fun _ _ => matches_operation? he hrule htighter) hleft)
    | right =>
      exact (matches_operation? he hrule hrules hleft).option
        (fun o o' => matches_pure fun _ hc => hc) (matches_pure fun _ hc => ⟨hleft, hc⟩)

end

theorem indifferent_expressionsUpTo : ∀ depth, Indifferent (expressionsUpTo depth)
  | 0 => fun _ _ _ _ _ => matches_pure fun _ hc => hc
  | depth + 1 => fun _ hrules _ _ hpre =>
    keeps_climb (indifferent_expressionsUpTo depth) hrules hpre

/-- A source is read in the same way with more line ends that are layout. -/
theorem keeps_source : Keeps true (Cursor.Settled []) source (Trees fun _ => True) := by
  have hfile : ∀ depth, Keeps (linesCount []) (Cursor.Settled []) (file (expressionsUpTo depth))
      (Trees (Cursor.Settled [])) := fun depth =>
    (keeps_statements (indifferent_expressionsUpTo depth) _).single.node _
  exact .look (fun _ _ h _ => h.remaining_eq) fun n =>
    (hfile (n + 1)).weaken (fun _ hc => hc.1) fun _ _ _ h => ⟨h.1, trivial⟩

end RSource.Grammar
