import RSource.Grammar.Precedence
import RSource.Proofs.Grammar.Term
import RSource.Proofs.Parser.Fits
import RSource.Proofs.Parser.Steps

/-! Terms are parsed as they are built.  An operand that binds tightly enough is read as a whole
at every level; what stands left of an operator that groups to the left is read by the loop of its
level, which then goes on with the operator. -/

namespace RSource

namespace Parser

variable {α β : Type} {context : Context} {c d e : Cursor} {a : α} {b : β}

/-- The parser gives `a` on its way from `c` to `d`, and meets no problem. -/
def Parses (p : Parser α) (context : Context) (c d : Cursor) (a : α) : Prop :=
  p context c = ⟨a, d, []⟩

theorem Parses.bind {p : Parser α} {f : α → Parser β} (h : Parses p context c d a)
    (h' : Parses (f a) context d e b) : Parses (p >>= f) context c e b := by
  rw [Parses] at h h' ⊢
  rw [bind_apply, h, h']
  rfl

theorem parses_row_nil (context : Context) (c : Cursor) : Parses (row []) context c c [] := rfl

theorem Parses.row {p : Part} {ps : List Part} {os os' : List Outline}
    (h : Parses p context c d os) (h' : Parses (row ps) context d e os') :
    Parses (Parser.row (p :: ps)) context c e (os ++ os') :=
  h.bind (h'.bind rfl)

theorem Parses.single {p : Part} {os : List Outline} (h : Parses p context c d os) :
    Parses (Parser.row [p]) context c d os := by
  simpa using h.row (parses_row_nil context d)

theorem Parses.one {p : Parser Outline} {o : Outline} (h : Parses p context c d o) :
    Parses (one p) context c d [o] :=
  h.bind rfl

theorem Parses.node {ps : List Part} {os : List Outline} (kind : NodeKind)
    (h : Parses (Parser.row ps) context c d os) :
    Parses (node kind ps) context c d (.node kind os) :=
  h.bind rfl

theorem parses_grow_none {step : Outline → Parser (Option Outline)} {o : Outline}
    (h : Parses (step o) context c c none) : Parses (grow step o) context c c o := by
  rw [grow, Parses, look_bind, Cursor.items, growFor]
  exact h.bind rfl

end Parser

namespace Cursor

/-- From `c` on stand tokens of these kinds, all on one line and each with one token before the
next, and the cursor comes to `d` after them.  The first of them has the index `place`. -/
def Spells (place : Nat) : List TokenKind → Cursor → Cursor → Prop
  | [], c, d => d = c
  | k :: ks, c, d => (c.here.index = some place ∧ c.kind = k ∧ k ≠ .endOfFile ∧
      c.newlineBefore = false ∧ c.advance.remaining < c.remaining) ∧
      Spells (place + 2) ks c.advance d

variable {place : Nat} {k : TokenKind} {ks ls : List TokenKind} {c d e : Cursor}

theorem spells_append : Spells place (ks ++ ls) c e ↔
    ∃ d, Spells place ks c d ∧ Spells (place + 2 * ks.length) ls d e := by
  induction ks generalizing place c with
  | nil => simp [Spells]
  | cons k ks ih =>
    have hplace : place + 2 + 2 * ks.length = place + 2 * (k :: ks).length := by
      rw [List.length_cons]
      omega
    rw [List.cons_append, Spells, ih, hplace]
    simp only [Spells]
    constructor
    · rintro ⟨hc, d, hd⟩
      exact ⟨d, ⟨hc, hd.1⟩, hd.2⟩
    · rintro ⟨d, ⟨hc, hd⟩, he⟩
      exact ⟨hc, d, hd, he⟩

theorem Spells.takes (h : Spells place [k] c d) :
    c.Takes place k d ∧ c.newlineBefore = false := by
  obtain ⟨⟨hindex, hkind, hend, hline, hless⟩, hnext⟩ := h
  exact ⟨⟨hindex, hkind, hend, hless, hnext⟩, hline⟩

theorem Spells.remaining (h : Spells place ks c d) : d.remaining + ks.length ≤ c.remaining := by
  induction ks generalizing place c with
  | nil => rw [Spells.eq_def] at h; rw [h]; exact Nat.le_refl _
  | cons k ks ih =>
    obtain ⟨⟨-, -, -, -, hless⟩, hrest⟩ := h
    have := ih hrest
    rw [List.length_cons]
    omega

end Cursor

namespace Grammar

open RSource.Parser

variable {expressions : Expressions} {context : Context} {place : Nat} {k : TokenKind}
variable {c d e : Cursor} {o : Outline}

theorem parses_bump (h : c.Takes place k d) : Parses bump context c d [.token place] := by
  obtain ⟨hindex, hkind, hend, -, rfl⟩ := h
  have hinside : c.atEnd = false := by rw [Cursor.atEnd, hkind]; simpa using hend
  rw [Parses, bump, hinside, hindex]
  rfl

theorem parses_leaf (context : Context) (kind : NodeKind) (h : c.Takes place k d) :
    Parses (leaf kind) context c d (.node kind [.token place]) :=
  ((parses_bump h).row (parses_row_nil _ _)).node kind

/-- The tokens that an operand goes on with. -/
def followers : TokenSet := .ofList
  [.leftParen, .leftBracket, .leftDoubleBracket, .dollar, .at, .doubleColon, .tripleColon]

/-- An expression of some rules does not go on with a token of the kind. -/
def Closes (rules : List Rule) (k : TokenKind) : Prop :=
  (∀ rule ∈ rules, rule.operators.contains k = false) ∧ followers.contains k = false

instance (rules : List Rule) (k : TokenKind) : Decidable (Closes rules k) :=
  inferInstanceAs (Decidable (_ ∧ _))

theorem parses_trailer_none (h : followers.contains c.kind = false) (o : Outline) :
    Parses (trailer? expressions o) context c c none := by
  rw [Parses, trailer?, newlineBreaks_bind]
  split
  · rfl
  · rw [kind, look_bind]
    generalize c.kind = k at h
    cases k
    all_goals first
      | rfl
      | exact absurd h (by decide)

theorem parses_operation_none {rule : Rule} (h : rule.operators.contains c.kind = false)
    (rules : List Rule) (o : Outline) :
    Parses (operation? expressions rule rules o) context c c none := by
  rw [Parses, operation?, isIn, look_bind, newlineBreaks_bind, h, Bool.false_and]
  rfl

/-- An expression of tighter rules is one of looser rules too, if nothing goes on with it. -/
theorem parses_loosen {rules : List Rule}
    (h : Parses (climb expressions rules) context c d (some o)) :
    ∀ looser, Closes (looser ++ rules) d.kind →
      Parses (climb expressions (looser ++ rules)) context c d (some o)
  | [], _ => h
  | rule :: looser, hcloses => by
    have hrule : rule.operators.contains d.kind = false := hcloses.1 rule List.mem_cons_self
    have htighter := parses_loosen h looser
      ⟨fun r hr => hcloses.1 r (List.mem_cons_of_mem _ hr), hcloses.2⟩
    apply htighter.bind
    cases hgrouping : rule.grouping with
    | left =>
      simp only
      exact (parses_grow_none (parses_operation_none hrule _ o)).bind rfl
    | right =>
      simp only
      exact (parses_operation_none hrule _ o).bind rfl

theorem drop_eq_append {m n : Nat} (h : n ≤ m) (rules : List Rule) :
    rules.drop n = (rules.drop n).take (m - n) ++ rules.drop m := by
  have hdrop : (rules.drop n).drop (m - n) = rules.drop m := by
    rw [List.drop_drop, Nat.add_sub_cancel' h]
  rw [← hdrop, List.take_append_drop]

theorem Closes.drop {m n : Nat} {rules : List Rule} (h : Closes (rules.drop n) k) (hle : n ≤ m) :
    Closes (rules.drop m) k := by
  refine ⟨fun rule hrule => h.1 rule ?_, h.2⟩
  rw [drop_eq_append hle]
  exact List.mem_append_right _ hrule

theorem parses_drop {m n : Nat} {rules : List Rule}
    (h : Parses (climb expressions (rules.drop m)) context c d (some o)) (hle : n ≤ m)
    (hcloses : Closes (rules.drop n) d.kind) :
    Parses (climb expressions (rules.drop n)) context c d (some o) := by
  rw [drop_eq_append hle] at hcloses ⊢
  exact parses_loosen h _ hcloses

/-! ### Operands -/

theorem parses_climb_nil (h : Parses (operand? expressions) context c d (some o))
    (hd : followers.contains d.kind = false) :
    Parses (climb expressions []) context c d (some o) :=
  h.bind ((parses_grow_none (parses_trailer_none hd o)).bind rfl)

theorem parses_expect (problem : TokenKind → Problem) (h : c.Takes place k d) :
    Parses (expect k problem) context c d [.token place] := by
  have hkind : (c.kind == k) = true := by simpa using h.kind
  rw [Parses, expect, isAt, look_bind, hkind, if_pos rfl]
  exact parses_bump h

theorem parses_name (h : c.Takes place .identifier d)
    (hd : followers.contains d.kind = false) :
    Parses (operand? expressions) context c d
      (some (.node .identifierExpression [.token place])) := by
  have hleaf := parses_leaf context .identifierExpression h
  obtain ⟨-, hkind, -, -, rfl⟩ := h
  have hahead : c.kindAhead 1 = c.advance.kind := by
    refine (Cursor.kind_advance ?_).symm
    rw [Cursor.atEnd, hkind]
    rfl
  have haccess : (c.advance.kind == .doubleColon || c.advance.kind == .tripleColon) = false := by
    generalize c.advance.kind = k at hd
    cases k
    all_goals first
      | rfl
      | exact absurd hd (by decide)
  have hexport : Parses exportFollows context c c false := by
    rw [Parses, exportFollows, look_bind, newlineBreaks_bind, hahead, haccess, Bool.false_and]
    rfl
  have hsymbol : Parses (symbol .identifierExpression) context c c.advance
      (.node .identifierExpression [.token place]) := hexport.bind hleaf
  rw [Parses, operand?, kind, look_bind, hkind]
  exact hsymbol.bind rfl

theorem parses_literal {node : NodeKind} (hk : literalNode? k = some node)
    (h : c.Takes place k d) :
    Parses (operand? expressions) context c d (some (.node node [.token place])) := by
  have hleaf := parses_leaf context node h
  rw [Parses, operand?, kind, look_bind, h.kind, hk]
  exact hleaf.bind rfl

theorem parses_number (hk : k ∈ [.integer, .numeric, .complex]) (h : c.Takes place k d) :
    Parses (operand? expressions) context c d
      (some (.node .numericLiteralExpression [.token place])) := by
  have hliteral : ∀ k ∈ [TokenKind.integer, .numeric, .complex],
      literalNode? k = some .numericLiteralExpression := by decide
  exact parses_literal (hliteral k hk) h

/-- An operand is an expression of all rules of which no operator comes after it. -/
theorem parses_climb_of_operand {n : Nat} {rules : List Rule}
    (h : Parses (operand? expressions) context c d (some o))
    (hcloses : Closes (rules.drop n) d.kind) :
    Parses (climb expressions (rules.drop n)) context c d (some o) := by
  have hlooser := parses_loosen (parses_climb_nil h hcloses.2) (rules.drop n)
  rw [List.append_nil] at hlooser
  exact hlooser hcloses

theorem parses_operand {rules : List Rule}
    (h : Parses (expressions rules) context c d (some o)) :
    Parses (operand expressions rules) context c d [o] := by
  rw [Parses, operand, bind_apply, h]
  rfl

theorem parses_rightOperand {rules : List Rule} (rule : Rule)
    (h : Parses (expressions rules) context c d (some o)) :
    Parses (rightOperand expressions rule rules) context c d [o] := by
  rw [Parses, rightOperand, bind_apply, h]
  rfl

theorem parses_group {c' d' : Cursor} (hopen : c.Takes place .leftParen c')
    (hinner : ∀ context, Parses (expressions Rule.all) context c' d' (some o)) {last : Nat}
    (hclose : d'.Takes last .rightParen d) :
    Parses (operand? expressions) context c d
      (some (.node .parenthesizedExpression [.token place, o, .token last])) := by
  have hrow : Parses (row [expression expressions, expect .rightParen (.notClosed .rightParen)])
      (context.union .brackets) c' d [o, .token last] :=
    (parses_operand (hinner _)).row ((parses_expect _ hclose).row (parses_row_nil _ _))
  have hgrouped : Parses (grouped expressions) context c d [.token place, o, .token last] :=
    (parses_bump hopen).row (Parses.row hrow (parses_row_nil _ _))
  rw [Parses, operand?, kind, look_bind, hopen.kind]
  exact ((hgrouped.row (parses_row_nil _ _)).node .parenthesizedExpression).bind rfl

/-! ### Operators -/

/-- The rule is the one of the level. -/
structure OnLevel (rule : Rule) (level : Level) : Prop where
  place : Rule.all.drop level.rank = rule :: Rule.all.drop (level.rank + 1)
  grouping : rule.grouping = level.grouping
  operator : rule.operator = level.operatorNode
  node : rule.node = level.node
  holds : ∀ entry ∈ level.symbols, rule.operators.contains entry.2 = true
  closes : ∀ entry ∈ level.symbols, Closes (Rule.all.drop (level.rank + 1)) entry.2

theorem exists_onLevel (level : Level) : ∃ rule, OnLevel rule level := by
  cases level
  all_goals exact ⟨_, rfl, rfl, rfl, rfl, by decide, by decide⟩

theorem exists_symbol (operator : Operator) :
    ∃ entry ∈ operator.level.symbols, entry.2 = operator.kind := by
  cases operator with
  | symbol level text kind mem => exact ⟨_, mem, rfl⟩
  | percent name inside => exact ⟨("|>", .specialOp), List.mem_singleton_self _, rfl⟩

theorem parses_operation (expressions : Expressions) {rule : Rule} {rules : List Rule}
    (left : Outline) {right : Outline} {middle : Cursor}
    (hk : rule.operators.contains k = true) (h : c.Takes place k middle)
    (hline : c.newlineBefore = false)
    (hright : Parses (expressions rules) context middle d (some right)) :
    Parses (operation? expressions rule rules left) context c d
      (some (.node rule.node [left, .node rule.operator [.token place], right])) := by
  have hoperator := parses_leaf context rule.operator h
  have hrow : Parses (row [one (leaf rule.operator), rightOperand expressions rule rules]) context
      c d [.node rule.operator [.token place], right] :=
    hoperator.one.row ((parses_rightOperand rule hright).row (parses_row_nil _ _))
  have hline' : (c.ahead 0).newlineBefore = false := hline
  rw [Parses, operation?, isIn, look_bind, newlineBreaks_bind, h.kind, hk, hline', Bool.and_false]
  exact hrow.bind rfl

theorem growFor_of_parses {step : Outline → Parser (Option Outline)} {o p : Outline}
    (h : Parses (step o) context c d (some p)) {fuel : List Item} (hfuel : 0 < fuel.length) :
    growFor step fuel o context c = growFor step fuel.tail p context d := by
  cases fuel with
  | nil => simp at hfuel
  | cons item fuel =>
    rw [growFor, bind_apply, h]
    rfl

theorem growFor_none {step : Outline → Parser (Option Outline)}
    (h : Parses (step o) context c c none) (fuel : List Item) :
    Parses (growFor step fuel o) context c c o := by
  cases fuel with
  | nil => rfl
  | cons item fuel => exact h.bind rfl

section

variable {rule : Rule} {level : Level} {left right : Outline} {middle after : Cursor}

/-- An operator that groups to the right is read once; what comes after it is of its level. -/
theorem parses_rightward (hrule : OnLevel rule level) (hgrouping : level.grouping = .right)
    (hk : rule.operators.contains k = true)
    (hleft : Parses (climb expressions (Rule.all.drop (level.rank + 1))) context c middle
      (some left))
    (hoperator : middle.Takes place k after) (hline : middle.newlineBefore = false)
    (hright : Parses (expressions (Rule.all.drop level.rank)) context after d (some right)) :
    Parses (climb expressions (Rule.all.drop level.rank)) context c d
      (some (.node level.node [left, .node level.operatorNode [.token place], right])) := by
  have hstep := parses_operation expressions left hk hoperator hline hright
  rw [hrule.place, hrule.node, hrule.operator] at hstep
  rw [hrule.place]
  apply Parses.bind hleft
  simp only [hrule.grouping, hgrouping]
  exact hstep.bind rfl

/-- An operator that groups to the left is read by a loop, which ends where none of its level comes
next. -/
theorem parses_leftward (hrule : OnLevel rule level) (hgrouping : level.grouping = .left)
    (hk : rule.operators.contains k = true)
    (hleft : Parses (climb expressions (Rule.all.drop (level.rank + 1))) context c middle
      (some left))
    (hoperator : middle.Takes place k after) (hline : middle.newlineBefore = false)
    (hright : Parses (expressions (Rule.all.drop (level.rank + 1))) context after d (some right))
    (hnone : rule.operators.contains d.kind = false) :
    Parses (climb expressions (Rule.all.drop level.rank)) context c d
      (some (.node level.node [left, .node level.operatorNode [.token place], right])) := by
  have hstep := parses_operation expressions left hk hoperator hline hright
  rw [hrule.node, hrule.operator] at hstep
  have hloop : Parses (grow (operation? expressions rule (Rule.all.drop (level.rank + 1))) left)
      context middle d
      (.node level.node [left, .node level.operatorNode [.token place], right]) := by
    have hfuel : 0 < middle.items.length := Nat.succ_pos _
    rw [grow, Parses, look_bind, growFor_of_parses hstep hfuel]
    exact growFor_none (parses_operation_none hnone _ _) _
  rw [hrule.place]
  apply Parses.bind hleft
  simp only [hrule.grouping, hgrouping]
  exact hloop.bind rfl

/-- An operator between two operands, when nothing goes on with the second. -/
theorem parses_between {depth : Nat} (level : Level) (symbol : String)
    (hsymbol : (symbol, k) ∈ level.symbols)
    (hleft : Parses (operand? (expressionsUpTo (depth + 1))) context c middle (some left))
    (hoperator : middle.Takes place k after) (hline : middle.newlineBefore = false)
    (hright : Parses (operand? (expressionsUpTo depth)) context after d (some right))
    (hcloses : Closes Rule.all d.kind) :
    Parses (expressionsUpTo (depth + 2) Rule.all) context c d
      (some (.node level.node [left, .node level.operatorNode [.token place], right])) := by
  obtain ⟨rule, hrule⟩ := exists_onLevel level
  have hall : Closes (Rule.all.drop 0) d.kind := hcloses
  have hd : ∀ n, Closes (Rule.all.drop n) d.kind := fun n => hall.drop (Nat.zero_le n)
  have hmiddle : Closes (Rule.all.drop (level.rank + 1)) middle.kind := by
    rw [hoperator.kind]
    exact hrule.closes _ hsymbol
  have hleft := parses_climb_of_operand hleft hmiddle
  have hright := fun n => parses_climb_of_operand hright (hd n)
  have hlevel : Parses (climb (expressionsUpTo (depth + 1)) (Rule.all.drop level.rank)) context c d
      (some (.node level.node [left, .node level.operatorNode [.token place], right])) := by
    cases hgrouping : level.grouping with
    | right =>
      exact parses_rightward hrule hgrouping (hrule.holds _ hsymbol) hleft hoperator hline
        (hright level.rank)
    | left =>
      have hnone := (hd level.rank).1 rule (by rw [hrule.place]; exact List.mem_cons_self)
      exact parses_leftward hrule hgrouping (hrule.holds _ hsymbol) hleft hoperator hline
        (hright (level.rank + 1)) hnone
  exact parses_drop hlevel (Nat.zero_le _) hall

end

end Grammar

/-! ### Terms -/

namespace Term

open RSource.Parser RSource.Grammar

/-- The number of times that an operand stands right of an operator or in parentheses. -/
def depth : Term → Nat
  | name _ | number _ => 0
  | group inner => inner.depth + 1
  | binary _ left right => max left.depth (right.depth + 1)

/-- The kinds of the tokens. -/
def kinds (e : Term) : List TokenKind := e.lexemes.map Lexeme.kind

theorem kinds_group (inner : Term) :
    (group inner).kinds = .leftParen :: (inner.kinds ++ [.rightParen]) := by
  simp [kinds, lexemes]

theorem kinds_binary (operator : Operator) (left right : Term) :
    (binary operator left right).kinds = left.kinds ++ operator.kind :: right.kinds := by
  simp [kinds, lexemes]

theorem length_kinds (e : Term) : e.kinds.length = e.words.length := by
  rw [kinds, List.length_map, e.length_lexemes]

theorem depth_lt (e : Term) : e.depth < e.words.length := by
  induction e with
  | name word => exact Nat.one_pos
  | number word => exact Nat.one_pos
  | group inner ih => simp [depth, words]; omega
  | binary operator left right ihl ihr => simp [depth, words]; omega

/-- Wherever the term stands and nothing goes on with it, the rules from a level on that is not
tighter read all of it. -/
def Read (e : Term) : Prop :=
  ∀ ⦃n depth place : Nat⦄ (context : Context) ⦃c d : Cursor⦄, n ≤ e.rank → e.depth ≤ depth →
    c.Spells place e.kinds d → Closes (Rule.all.drop n) d.kind →
    Parses (climb (expressionsUpTo depth) (Rule.all.drop n)) context c d (some (e.outline place))

/-- The loop of a rule that groups to the left reads the term and goes on after it. -/
def Grown (e : Term) (rule : Rule) (level : Level) : Prop :=
  ∀ ⦃depth place : Nat⦄ (context : Context) ⦃c d : Cursor⦄, e.depth ≤ depth →
    c.Spells place e.kinds d → Closes (Rule.all.drop (level.rank + 1)) d.kind →
    ∃ fuel : List Item, d.remaining < fuel.length ∧
      climb (expressionsUpTo depth) (Rule.all.drop level.rank) context c =
        (growFor (operation? (expressionsUpTo depth) rule (Rule.all.drop (level.rank + 1))) fuel
          (e.outline place) >>= fun o => pure (some o)) context d

theorem read_of_operand {e : Term}
    (h : ∀ {depth place : Nat} (context : Context) {c d : Cursor}, e.depth ≤ depth →
      c.Spells place e.kinds d → followers.contains d.kind = false →
      Parses (operand? (expressionsUpTo depth)) context c d (some (e.outline place))) :
    e.Read := by
  intro n depth place context c d _ hdepth hspells hcloses
  exact parses_climb_of_operand (h context hdepth hspells hcloses.2) hcloses

theorem read_name (word : Word [.identifier]) : (name word).Read := by
  apply read_of_operand
  intro depth place context c d _ hspells hd
  have hkind : word.kind = .identifier := List.mem_singleton.mp word.mem
  rw [kinds, lexemes, List.map_singleton, hkind] at hspells
  exact parses_name hspells.takes.1 hd

theorem read_number (word : Word [.integer, .numeric, .complex]) : (number word).Read := by
  apply read_of_operand
  intro depth place context c d _ hspells _
  exact parses_number word.mem hspells.takes.1

theorem Read.group {inner : Term} (h : inner.Read) : (group inner).Read := by
  apply read_of_operand
  intro depth place context c d hdepth hspells _
  rw [kinds_group, ← List.singleton_append] at hspells
  obtain ⟨c', hopen, hspells⟩ := Cursor.spells_append.mp hspells
  obtain ⟨d', hinner, hclose⟩ := Cursor.spells_append.mp hspells
  obtain ⟨depth, rfl⟩ : ∃ m, depth = m + 1 :=
    ⟨depth - 1, by simp only [Term.depth] at hdepth; omega⟩
  have hparen : d'.kind = .rightParen := hclose.1.2.1
  rw [length_kinds] at hclose
  refine parses_group hopen.takes.1 (fun context => ?_) hclose.takes.1
  exact h context (Nat.zero_le _) (by simpa [Term.depth] using hdepth) hinner
    (by rw [hparen]; decide)

variable {e left right : Term} {operator : Operator} {rule : Rule} {level : Level}

/-- The loop begins with a term of a tighter level. -/
theorem Read.grown (h : e.Read) (hrule : OnLevel rule level) (hgrouping : level.grouping = .left)
    (hrank : level.rank < e.rank) : e.Grown rule level := by
  intro depth place context c d hdepth hspells hcloses
  have hfirst := h context hrank hdepth hspells hcloses
  refine ⟨d.items, Nat.lt_succ_self _, ?_⟩
  rw [hrule.place, climb, bind_apply, hfirst]
  simp only [hrule.grouping, hgrouping]
  rfl

/-- The words of a term with an operator: those of its left operand, the operator, and those of its
right operand. -/
theorem spells_binary {place : Nat} {c d : Cursor}
    (h : c.Spells place (binary operator left right).kinds d) :
    ∃ middle after, c.Spells place left.kinds middle ∧
      middle.Spells (place + 2 * left.words.length) [operator.kind] after ∧
      after.Spells (place + 2 * left.words.length + 2) right.kinds d := by
  rw [kinds_binary, ← List.singleton_append] at h
  obtain ⟨middle, hleft, h⟩ := Cursor.spells_append.mp h
  obtain ⟨after, hoperator, hright⟩ := Cursor.spells_append.mp h
  rw [length_kinds] at hoperator hright
  exact ⟨middle, after, hleft, hoperator, hright⟩

theorem closes_operator (operator : Operator) :
    Closes (Rule.all.drop (operator.level.rank + 1)) operator.kind := by
  obtain ⟨rule, hrule⟩ := exists_onLevel operator.level
  obtain ⟨entry, hentry, hkind⟩ := exists_symbol operator
  rw [← hkind]
  exact hrule.closes entry hentry

theorem contains_operator (hrule : OnLevel rule operator.level) :
    rule.operators.contains operator.kind = true := by
  obtain ⟨entry, hentry, hkind⟩ := exists_symbol operator
  rw [← hkind]
  exact hrule.holds entry hentry

/-- The loop goes on with an operator of the level. -/
theorem Grown.binary (hleft : left.Grown rule operator.level) (hright : right.Read)
    (hrule : OnLevel rule operator.level) (hrank : operator.level.rank < right.rank) :
    (binary operator left right).Grown rule operator.level := by
  intro depth place context c d hdepth hspells hcloses
  obtain ⟨middle, after, hl, hop, hr⟩ := spells_binary hspells
  simp only [Term.depth] at hdepth
  obtain ⟨depth, rfl⟩ : ∃ m, depth = m + 1 := ⟨depth - 1, by omega⟩
  have hmiddle : middle.kind = operator.kind := hop.1.2.1
  obtain ⟨fuel, hfuel, hclimb⟩ := hleft context (Nat.le_trans (by omega) hdepth) hl
    (hmiddle ▸ closes_operator operator)
  have hoperand := hright context hrank (by omega : right.depth ≤ depth) hr hcloses
  obtain ⟨htakes, hline⟩ := hop.takes
  have hstep := parses_operation (expressionsUpTo (depth + 1)) (left.outline place)
    (contains_operator hrule) htakes hline hoperand
  have hroom := hop.remaining
  have hroom' := hr.remaining
  rw [hrule.node, hrule.operator] at hstep
  refine ⟨fuel.tail, ?_, ?_⟩
  · rw [List.length_tail]
    simp only [List.length_singleton] at hroom
    omega
  · rw [hclimb, bind_apply, bind_apply, growFor_of_parses hstep (by omega)]
    rfl

/-- Where no operator of the level comes next, the loop ends. -/
theorem Grown.read (h : e.Grown rule level) (hrule : OnLevel rule level)
    (hrank : e.rank = level.rank) : e.Read := by
  intro n depth place context c d hn hdepth hspells hcloses
  have hlevel : Closes (Rule.all.drop level.rank) d.kind := hcloses.drop (hrank ▸ hn)
  obtain ⟨fuel, -, hclimb⟩ :=
    h context hdepth hspells (hlevel.drop (Nat.le_succ _))
  have hnone : rule.operators.contains d.kind = false :=
    hlevel.1 rule (by rw [hrule.place]; exact List.mem_cons_self)
  have hstep : Parses (operation? (expressionsUpTo depth) rule (Rule.all.drop (level.rank + 1))
      (e.outline place)) context d d none :=
    parses_operation_none hnone (Rule.all.drop (level.rank + 1)) (e.outline place)
  have hend := growFor_none hstep fuel
  have hread : Parses (climb (expressionsUpTo depth) (Rule.all.drop level.rank)) context c d
      (some (e.outline place)) := hclimb.trans (hend.bind rfl)
  exact parses_drop hread (hrank ▸ hn) hcloses

/-- An operator that groups to the right is read once; what comes after it is of its level. -/
theorem Read.binary (hleft : left.Read) (hright : right.Read)
    (hgrouping : operator.level.grouping = .right) (hlrank : operator.level.rank < left.rank)
    (hrrank : operator.level.rank ≤ right.rank) : (binary operator left right).Read := by
  intro n depth place context c d hn hdepth hspells hcloses
  obtain ⟨rule, hrule⟩ := exists_onLevel operator.level
  obtain ⟨middle, after, hl, hop, hr⟩ := spells_binary hspells
  simp only [Term.depth] at hdepth
  obtain ⟨depth, rfl⟩ : ∃ m, depth = m + 1 := ⟨depth - 1, by omega⟩
  have hmiddle : middle.kind = operator.kind := hop.1.2.1
  have hfirst := hleft context hlrank (Nat.le_trans (by omega) hdepth) hl
    (hmiddle ▸ closes_operator operator)
  have hoperand := hright context hrrank (by omega : right.depth ≤ depth) hr
    (hcloses.drop hn)
  obtain ⟨htakes, hline⟩ := hop.takes
  have hread := parses_rightward hrule hgrouping (contains_operator hrule) hfirst htakes hline
    hoperand
  exact parses_drop hread hn hcloses

theorem rank_lt (level : Level) : level.rank < 12 := by
  cases level <;> decide

theorem rank_injective {level level' : Level} (h : level.rank = level'.rank) : level = level' := by
  cases level
  all_goals
    cases level'
    all_goals first
      | rfl
      | exact absurd h (by decide)

/-- Every term whose operands have the parentheses that they need is read as a whole. -/
theorem Ordered.read {e : Term} (he : e.Ordered) : e.Read ∧
    ∀ level rule, OnLevel rule level → level.grouping = .left → level.rank ≤ e.rank →
      e.Grown rule level := by
  induction e with
  | name word =>
    exact ⟨read_name word, fun level rule hrule hgrouping _ =>
      (read_name word).grown hrule hgrouping (rank_lt level)⟩
  | number word =>
    exact ⟨read_number word, fun level rule hrule hgrouping _ =>
      (read_number word).grown hrule hgrouping (rank_lt level)⟩
  | group inner ih =>
    have hread := (ih he).1.group
    exact ⟨hread, fun level rule hrule hgrouping _ =>
      hread.grown hrule hgrouping (rank_lt level)⟩
  | binary operator left right ihl ihr =>
    obtain ⟨hleft, hright, hranks⟩ := he
    obtain ⟨rule, hrule⟩ := exists_onLevel operator.level
    cases hgrouping : operator.level.grouping with
    | right =>
      rw [hgrouping] at hranks
      have hread := (ihl hleft).1.binary (ihr hright).1 hgrouping hranks.1 hranks.2
      refine ⟨hread, fun level rule' hrule' hlevel hle => hread.grown hrule' hlevel ?_⟩
      -- The operator itself does not group to the left.
      refine Nat.lt_of_le_of_ne hle fun hrank => ?_
      rw [rank_injective hrank, hgrouping] at hlevel
      cases hlevel
    | left =>
      rw [hgrouping] at hranks
      have hgrown := ((ihl hleft).2 _ rule hrule hgrouping hranks.1).binary (ihr hright).1 hrule
        hranks.2
      have hread := hgrown.read hrule rfl
      refine ⟨hread, fun level rule' hrule' hlevel hle => ?_⟩
      rcases Nat.lt_or_eq_of_le hle with hlt | heq
      · exact hread.grown hrule' hlevel hlt
      · obtain rfl := rank_injective heq
        obtain ⟨rfl, -⟩ := List.cons.inj (hrule'.place.symm.trans hrule.place)
        exact hgrown

end Term

end RSource
