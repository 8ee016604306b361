import RSource.Outline
import RSource.Proofs.Lexeme.Row

/-! Definitions that are written on a line each: a function with parameters, or a variable on either
side of its operator.  Lines of definitions are read as the tokens that they are made of. -/

namespace RSource

open Lexeme

/-- A line that assigns to a name. -/
inductive Definition where
  | function (name : Name) (parameters : List Name)
  | equal (name : Name)
  | right (name : Name)

namespace Definition

/-- The definition as it is written. -/
def print : Definition → String
  | function name parameters =>
    name.text ++ " <- function(" ++ ", ".intercalate (parameters.map Name.text) ++ ") NULL"
  | equal name => name.text ++ " = 1"
  | right name => "1 -> " ++ name.text

/-- Definitions one after another, each with the end of its line. -/
def printAll (ds : List Definition) : String := String.join (ds.map fun d => d.print ++ "\n")

/-! ### Tokens -/

def lineEnd : Lexeme := ⟨.newline, ['\n']⟩

/-- The value of variables. -/
def value : Lexeme := ⟨.numeric, ['1']⟩

def comma : Lexeme := ⟨.comma, [',']⟩

/-- The parentheses around parameters. -/
def listStart : Lexeme := ⟨.leftParen, ['(']⟩

def listEnd : Lexeme := ⟨.rightParen, [')']⟩

/-- The tokens between the first parameter of a function and the end of its parameters. -/
def moreParameters (parameters : List Name) : List Lexeme :=
  parameters.flatMap fun p => [comma, blank, p.lexeme]

/-- The tokens of the parameters of a function. -/
def parameterLexemes : List Name → List Lexeme
  | [] => []
  | p :: ps => p.lexeme :: moreParameters ps

/-- The tokens between the name and the parameters of a function. -/
def opening : List Lexeme :=
  [blank, ⟨.leftAssign, ['<', '-']⟩, blank, ⟨.functionKeyword, "function".toList⟩,
    listStart]

/-- The tokens after the parameters of a function. -/
def closing : List Lexeme :=
  [listEnd, blank, ⟨.nullKeyword, "NULL".toList⟩, lineEnd]

/-- The tokens of a definition and of the end of its line. -/
def lexemes : Definition → List Lexeme
  | function name parameters =>
    name.lexeme :: (opening ++ (parameterLexemes parameters ++ closing))
  | equal name =>
    [name.lexeme, blank, ⟨.equal, ['=']⟩, blank, value, lineEnd]
  | right name =>
    [value, blank, ⟨.rightAssign, ['-', '>']⟩, blank, name.lexeme, lineEnd]

theorem chars_parameterLexemes (parameters : List Name) :
    (parameterLexemes parameters).flatMap Lexeme.chars =
      (", ".intercalate (parameters.map Name.text)).toList := by
  have hmore : ∀ ps : List Name, (moreParameters ps).flatMap Lexeme.chars =
      ps.flatMap fun p => [',', ' '] ++ p.text.toList := by
    intro ps
    induction ps with
    | nil => rfl
    | cons p ps ih =>
      rw [moreParameters, List.flatMap_cons, List.flatMap_append, ← moreParameters, ih]
      simp [comma, blank, Name.lexeme]
  rw [String.toList_intercalate]
  induction parameters with
  | nil => rfl
  | cons p ps ih =>
    rw [parameterLexemes, List.flatMap_cons, hmore]
    cases ps with
    | nil => simp [Name.lexeme, List.intercalate]
    | cons q ps =>
      rw [parameterLexemes, List.flatMap_cons, hmore] at ih
      simp [Name.lexeme, List.intercalate] at ih ⊢
      exact ih

theorem chars_lexemes (d : Definition) :
    d.lexemes.flatMap Lexeme.chars = (d.print ++ "\n").toList := by
  cases d with
  | function name parameters =>
    rw [lexemes, List.flatMap_cons, List.flatMap_append, List.flatMap_append,
      chars_parameterLexemes]
    simp [print, opening, closing, listStart, listEnd, Name.lexeme, blank, lineEnd]
  | equal name => simp [lexemes, print, Name.lexeme, blank, value, lineEnd]
  | right name => simp [lexemes, print, Name.lexeme, blank, value, lineEnd]

theorem toList_printAll (ds : List Definition) :
    (printAll ds).toList = (ds.flatMap lexemes).flatMap Lexeme.chars := by
  rw [printAll, String.toList_join, List.flatMap_map, List.flatMap_assoc]
  exact List.flatMap_congr fun d _ => d.chars_lexemes.symm

/-! ### Neighbours -/

variable {ls : List Lexeme}

theorem isChain_closing (hls : (lineEnd :: ls).IsChain Beside) :
    (closing ++ ls).IsChain Beside := by
  have hclosing : (closing.take 3 ++ [lineEnd]).IsChain Beside := by decide +kernel
  exact hclosing.append_overlap hls (by simp)

theorem isChain_moreParameters (hls : (lineEnd :: ls).IsChain Beside) (p : Name) (ps : List Name) :
    (p.lexeme :: (moreParameters ps ++ (closing ++ ls))).IsChain Beside := by
  have hcomma : Beside comma blank := by decide +kernel
  induction ps generalizing p with
  | nil => exact .cons_cons (p.beside (by decide) (by decide +kernel)) (isChain_closing hls)
  | cons q ps ih =>
    refine .cons_cons (p.beside (by decide) (by decide +kernel)) (.cons_cons hcomma ?_)
    exact .cons_cons (q.beside_of_start (by decide) (.inr (.inl rfl))) (ih q)

/-- A definition may stand behind the end of a line, and what may stand there may stand behind the
definition. -/
theorem isChain_lexemes (hls : (lineEnd :: ls).IsChain Beside) (d : Definition) :
    (lineEnd :: (d.lexemes ++ ls)).IsChain Beside := by
  have hline (name : Name) : Beside lineEnd name.lexeme :=
    name.beside_of_start (by decide) (.inr (.inr rfl))
  have hblank (name : Name) : Beside blank name.lexeme :=
    name.beside_of_start (by decide) (.inr (.inl rfl))
  cases d with
  | function name parameters =>
    have hopening : (opening.take 4 ++ [listStart]).IsChain Beside := by decide +kernel
    have hrest : (listStart :: (parameterLexemes parameters ++
        (closing ++ ls))).IsChain Beside := by
      cases parameters with
      | nil => exact .cons_cons (by decide +kernel) (isChain_closing hls)
      | cons p ps =>
        have hparen : Start.of '(' = .symbol := by decide
        exact .cons_cons (p.beside_of_start (by decide) (.inl hparen))
          (isChain_moreParameters hls p ps)
    have hall : (opening ++ (parameterLexemes parameters ++ (closing ++ ls))).IsChain Beside :=
      hopening.append_overlap hrest (by simp)
    rw [lexemes, List.cons_append, List.append_assoc, List.append_assoc]
    exact .cons_cons (hline name) (.cons_cons (name.beside (by decide) (by decide +kernel)) hall)
  | equal name =>
    have hvalue : ([blank, ⟨.equal, ['=']⟩, blank, value] ++ [lineEnd]).IsChain
        Beside := by decide +kernel
    refine .cons_cons (hline name) (.cons_cons (name.beside (by decide) (by decide +kernel)) ?_)
    exact hvalue.append_overlap hls (by simp)
  | right name =>
    have hvalue : ([lineEnd, value, blank, ⟨.rightAssign, ['-', '>']⟩] ++
        [blank]).IsChain Beside := by decide +kernel
    have hname : (blank :: name.lexeme :: lineEnd :: ls).IsChain Beside :=
      .cons_cons (hblank name) (.cons_cons (name.beside (by decide) (by decide +kernel)) hls)
    exact hvalue.append_overlap hname (by simp)

theorem isChain_flatMap_lexemes (ds : List Definition) :
    (lineEnd :: ds.flatMap lexemes).IsChain Beside := by
  induction ds with
  | nil => exact .singleton _
  | cons d ds ih => exact isChain_lexemes ih d

/-- The tokens that are the same in all definitions. -/
def fixed : List Lexeme :=
  opening ++ closing ++ [comma, ⟨.equal, ['=']⟩, value,
    ⟨.rightAssign, ['-', '>']⟩]

theorem mem_lexemes {l : Lexeme} (d : Definition) (h : l ∈ d.lexemes) :
    l ∈ fixed ∨ ∃ name : Name, l = name.lexeme := by
  cases d with
  | function name parameters =>
    rcases List.mem_cons.mp h with rfl | h
    · exact .inr ⟨name, rfl⟩
    rcases List.mem_append.mp h with h | h
    · exact .inl (List.mem_append_left _ (List.mem_append_left _ h))
    rcases List.mem_append.mp h with h | h
    · cases parameters with
      | nil => cases h
      | cons p ps =>
        simp only [parameterLexemes, moreParameters, List.mem_cons, List.mem_flatMap,
          List.not_mem_nil, or_false] at h
        rcases h with rfl | ⟨q, -, rfl | rfl | rfl⟩
        · exact .inr ⟨p, rfl⟩
        · exact .inl (by simp [fixed])
        · exact .inl (by simp [fixed, opening])
        · exact .inr ⟨q, rfl⟩
    · exact .inl (List.mem_append_left _ (List.mem_append_right _ h))
  | equal name =>
    have hvalue : [blank, ⟨.equal, ['=']⟩, blank, value, lineEnd] ⊆ fixed := by
      decide
    rcases List.mem_cons.mp h with rfl | h
    · exact .inr ⟨name, rfl⟩
    · exact .inl (hvalue h)
  | right name =>
    have hvalue : [lineEnd, value, blank, ⟨.rightAssign, ['-', '>']⟩] ⊆ fixed := by
      decide
    by_cases hname : l = name.lexeme
    · exact .inr ⟨name, hname⟩
    · refine .inl (hvalue ?_)
      simp only [lexemes, List.mem_cons, List.not_mem_nil, or_false] at h ⊢
      tauto

theorem single (d : Definition) : ∀ l ∈ d.lexemes, l.Single ∧ l.kind ≠ .rightBracket := by
  have hfixed : ∀ l ∈ fixed, (scanAll l.chars = [l] ∧ l.kind ∉ broken) ∧
      l.kind ≠ .rightBracket := by decide +kernel
  intro l hl
  rcases d.mem_lexemes hl with hl | ⟨name, rfl⟩
  · obtain ⟨⟨hscan, hended⟩, hbracket⟩ := hfixed l hl
    exact ⟨⟨hscan, hended⟩, hbracket⟩
  · exact ⟨name.single, show TokenKind.identifier ≠ .rightBracket by decide⟩

/-- The tokens of lines of definitions. -/
theorem ofText_printAll (ds : List Definition) : ofText (printAll ds) = ds.flatMap lexemes := by
  refine ofText_row (fun l hl => ?_) (isChain_flatMap_lexemes ds).tail (toList_printAll ds)
  obtain ⟨d, -, hl⟩ := List.mem_flatMap.mp hl
  exact d.single l hl

end Definition

end RSource
