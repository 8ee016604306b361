import RSource.Grammar.Rule
import RSource.Outline
import RSource.Proofs.Lexeme.Spaced

/-! Terms: expressions made of names, numbers, parentheses and binary operators.  The operators
stand on twelve levels.  A term is written as its words with blanks between them, and has the
parentheses that the levels ask for or more. -/

namespace RSource

open Grammar (Grouping)

/-- A text that is one token of one of some kinds. -/
structure Word (kinds : List TokenKind) where
  text : String
  kind : TokenKind
  mem : kind ∈ kinds
  token : IsToken kind text

/-- The levels of binary operators, loosest first. -/
inductive Level where
  | leftArrow
  | equal
  | rightArrow
  | formula
  | disjunction
  | conjunction
  | comparison
  | sum
  | product
  | special
  | range
  | power
  deriving DecidableEq

namespace Level

/-- The number of looser levels. -/
def rank : Level → Nat
  | leftArrow => 0
  | equal => 1
  | rightArrow => 2
  | formula => 3
  | disjunction => 4
  | conjunction => 5
  | comparison => 6
  | sum => 7
  | product => 8
  | special => 9
  | range => 10
  | power => 11

/-- The operators with a fixed spelling, and the tokens that they are. -/
def symbols : Level → List (String × TokenKind)
  | leftArrow => [("<-", .leftAssign), ("<<-", .leftSuperAssign), (":=", .colonAssign)]
  | equal => [("=", .equal)]
  | rightArrow => [("->", .rightAssign), ("->>", .rightSuperAssign)]
  | formula => [("~", .tilde)]
  | disjunction => [("|", .or), ("||", .orOr)]
  | conjunction => [("&", .and), ("&&", .andAnd)]
  | comparison => [("==", .equalEqual), ("!=", .notEqual), ("<", .less), ("<=", .lessEqual),
      (">", .greater), (">=", .greaterEqual)]
  | sum => [("+", .plus), ("-", .minus)]
  | product => [("*", .times), ("/", .divide)]
  | special => [("|>", .specialOp)]
  | range => [(":", .colon)]
  | power => [("^", .power)]

def grouping : Level → Grouping
  | leftArrow | equal | power => .right
  | _ => .left

/-- The node around an operator of the level. -/
def operatorNode : Level → NodeKind
  | leftArrow | equal | rightArrow => .assignOperator
  | formula => .tildeOperator
  | disjunction => .orOperator
  | conjunction => .andOperator
  | comparison => .compareOperator
  | sum => .sumOperator
  | product => .productOperator
  | special => .specialOperator
  | range => .colonOperator
  | power => .powerOperator

/-- The node around an operator and its operands. -/
def node : Level → NodeKind
  | leftArrow | equal | rightArrow => .assignmentStatement
  | formula => .tildeExpression
  | _ => .operatorExpression

end Level

/-- A binary operator: one with a fixed spelling, or a name between percent signs. -/
inductive Operator where
  | symbol (level : Level) (text : String) (kind : TokenKind) (mem : (text, kind) ∈ level.symbols)
  | percent (name : String) (inside : ∀ c ∈ name.toList, c ≠ '%' ∧ c ≠ '\n')

namespace Operator

def level : Operator → Level
  | symbol level .. => level
  | percent .. => .special

def text : Operator → String
  | symbol _ text .. => text
  | percent name _ => "%" ++ name ++ "%"

def kind : Operator → TokenKind
  | symbol _ _ kind _ => kind
  | percent .. => .specialOp

end Operator

inductive Term where
  | name (word : Word [.identifier])
  | number (word : Word [.integer, .numeric, .complex])
  | group (inner : Term)
  | binary (operator : Operator) (left right : Term)

namespace Term

/-- The level of the operator that is outside, or a tighter one than any. -/
def rank : Term → Nat
  | binary operator .. => operator.level.rank
  | _ => 12

/-- Operands that bind too loosely for their place have parentheses: left of an operator that groups
to the left may stand what is on its level or tighter, right of it what is tighter, and the other
way round for an operator that groups to the right. -/
def Ordered : Term → Prop
  | name _ | number _ => True
  | group inner => inner.Ordered
  | binary operator left right => left.Ordered ∧ right.Ordered ∧
    match operator.level.grouping with
    | .left => operator.level.rank ≤ left.rank ∧ operator.level.rank < right.rank
    | .right => operator.level.rank < left.rank ∧ operator.level.rank ≤ right.rank

/-- The words that the term is written with, in order. -/
def words : Term → List String
  | name word => [word.text]
  | number word => [word.text]
  | group inner => "(" :: inner.words ++ [")"]
  | binary operator left right => left.words ++ operator.text :: right.words

/-- The term as it is written. -/
def print (e : Term) : String := " ".intercalate e.words

/-- The tree of the term.  Its first word is the leaf at `place`; between two words there is a blank,
which is a leaf too. -/
def outline (place : Nat) : Term → Outline
  | name _ => .node .identifierExpression [.token place]
  | number _ => .node .numericLiteralExpression [.token place]
  | group inner => .node .parenthesizedExpression
      [.token place, inner.outline (place + 2), .token (place + 2 + 2 * inner.words.length)]
  | binary operator left right =>
    let middle := place + 2 * left.words.length
    .node operator.level.node [left.outline place,
      .node operator.level.operatorNode [.token middle], right.outline (middle + 2)]

/-- The tokens that the words are. -/
def lexemes : Term → List Lexeme
  | name word => [⟨word.kind, word.text.toList⟩]
  | number word => [⟨word.kind, word.text.toList⟩]
  | group inner => ⟨.leftParen, ['(']⟩ :: inner.lexemes ++ [⟨.rightParen, [')']⟩]
  | binary operator left right =>
    left.lexemes ++ ⟨operator.kind, operator.text.toList⟩ :: right.lexemes

theorem map_chars_lexemes (e : Term) :
    e.lexemes.map Lexeme.chars = e.words.map String.toList := by
  induction e with
  | name word => rfl
  | number word => rfl
  | group inner ih => simp [lexemes, words, ih]
  | binary operator left right ihl ihr => simp [lexemes, words, ihl, ihr]

theorem length_lexemes (e : Term) : e.lexemes.length = e.words.length := by
  simpa using congrArg List.length e.map_chars_lexemes

end Term

open Lexeme

theorem Level.isToken_of_mem {level : Level} {entry : String × TokenKind}
    (h : entry ∈ level.symbols) : IsToken entry.2 entry.1 := by
  have hall : ∀ entry ∈ level.symbols, IsToken entry.2 entry.1 := by
    cases level <;> decide +kernel
  exact hall entry h

theorem Level.kind_of_mem {level : Level} {entry : String × TokenKind} (h : entry ∈ level.symbols) :
    entry.2.isLayout = false ∧ entry.2 ∉ broken ∧ entry.2 ≠ .rightBracket ∧
      entry.2 ≠ .rightDoubleBracket := by
  have hall : ∀ entry ∈ level.symbols, entry.2.isLayout = false ∧ entry.2 ∉ broken ∧
      entry.2 ≠ .rightBracket ∧ entry.2 ≠ .rightDoubleBracket := by
    cases level <;> decide
  exact hall entry h

/-- The lexeme is read as it is, between blanks too. -/
def Lexeme.Stands (l : Lexeme) : Prop := l.Whole ∧ l.kind ≠ .rightBracket

theorem Word.stands {kinds : List TokenKind} (word : Word kinds)
    (h : ∀ k ∈ kinds, k.isLayout = false ∧ k ∉ broken ∧ k ≠ .rightBracket ∧
      k ≠ .rightDoubleBracket) :
    (⟨word.kind, word.text.toList⟩ : Lexeme).Stands := by
  obtain ⟨hvisible, hended, hbracket, hdouble⟩ := h word.kind word.mem
  exact ⟨word.token.whole hvisible hdouble hended, hbracket⟩

theorem Operator.stands (operator : Operator) :
    (⟨operator.kind, operator.text.toList⟩ : Lexeme).Stands := by
  cases operator with
  | symbol level text kind mem =>
    obtain ⟨hvisible, hended, hbracket, hdouble⟩ := Level.kind_of_mem mem
    exact ⟨(Level.isToken_of_mem mem).whole hvisible hdouble hended, hbracket⟩
  | percent name inside =>
    have hchars : ("%" ++ name ++ "%").toList = '%' :: (name.toList ++ ['%']) := by simp
    have hended : TokenKind.specialOp ∉ broken := by decide
    have hbracket : TokenKind.specialOp ≠ .rightBracket := by decide
    refine ⟨⟨scanAll_eq_singleton_iff.mpr ⟨'%', name.toList ++ ['%'], hchars, hchars, ?_⟩, rfl,
      hended⟩, hbracket⟩
    have hscan := (scanPercent_eq_iff (name.toList ++ ['%']) []).mpr ⟨name.toList, rfl, inside⟩
    rw [List.append_nil] at hscan
    rw [Lexeme.scan_eq]
    exact hscan

theorem stands_leftParen : (⟨.leftParen, ['(']⟩ : Lexeme).Stands := by
  have hparen : IsToken .leftParen "(" := by decide +kernel
  exact ⟨hparen.whole rfl (by decide) (by decide), by decide⟩

theorem stands_rightParen : (⟨.rightParen, [')']⟩ : Lexeme).Stands := by
  have hparen : IsToken .rightParen ")" := by decide +kernel
  exact ⟨hparen.whole rfl (by decide) (by decide), by decide⟩

theorem Term.stands (e : Term) : ∀ l ∈ e.lexemes, l.Stands := by
  induction e with
  | name word =>
    intro l hl
    obtain rfl := List.mem_singleton.mp hl
    exact word.stands (by decide)
  | number word =>
    intro l hl
    obtain rfl := List.mem_singleton.mp hl
    exact word.stands (by decide)
  | group inner ih =>
    intro l hl
    rw [lexemes, List.cons_append] at hl
    rcases List.mem_cons.mp hl with rfl | hl
    · exact stands_leftParen
    rcases List.mem_append.mp hl with hl | hl
    · exact ih l hl
    · obtain rfl := List.mem_singleton.mp hl
      exact stands_rightParen
  | binary operator left right ihl ihr =>
    intro l hl
    rcases List.mem_append.mp hl with hl | hl
    · exact ihl l hl
    rcases List.mem_cons.mp hl with rfl | hl
    · exact operator.stands
    · exact ihr l hl

/-- The tokens of a term as it is written. -/
theorem Term.ofText_print (e : Term) : ofText e.print = e.lexemes.intersperse blank := by
  apply ofText_spaced e.stands
  rw [Term.print, String.toList_intercalate, e.map_chars_lexemes]
  rfl

end RSource
