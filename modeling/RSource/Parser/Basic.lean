import RSource.Outline
import RSource.Parser.Cursor
import RSource.Parser.Problem
import RSource.Token.Set

/-! Parsers.  A parser reads items from a cursor on and gives a value, the cursor after what it
read, and the problems it met, in order.  It never fails: a problem is written down and parsing goes
on. Most parsers are parts: what they give is a row of outlines, to stand side by side in a node. -/

namespace RSource

/-! ### Regions

What surrounds the place where the parser stands.  Inside parentheses and brackets a line end is
layout; inside braces and at top level it ends an expression. -/

/-- Flags of a region of the source, any number of which may be set. -/
structure Context where
  /-- The region stands inside parentheses or brackets. -/
  ignoreNewlines : Bool
  /-- The region is a doc comment. -/
  inDocComment : Bool
  deriving DecidableEq, Repr, Inhabited

namespace Context

/-- No flag is set: the region is a list of statements. -/
def statements : Context := ⟨false, false⟩

/-- Only `ignoreNewlines` is set. -/
def brackets : Context := ⟨true, false⟩

/-- Only `inDocComment` is set. -/
def docComment : Context := ⟨false, true⟩

/-- The flags set in either. -/
def union (c d : Context) : Context :=
  ⟨c.ignoreNewlines || d.ignoreNewlines, c.inDocComment || d.inDocComment⟩

/-- The flags set in the first and not in the second. -/
def diff (c d : Context) : Context :=
  ⟨c.ignoreNewlines && !d.ignoreNewlines, c.inDocComment && !d.inDocComment⟩

/-- Some flag is set in both. -/
def meets (c d : Context) : Bool :=
  (c.ignoreNewlines && d.ignoreNewlines) || (c.inDocComment && d.inDocComment)

/-- A line end ends an expression. -/
def newlinesTerminate (c : Context) : Bool := !c.ignoreNewlines

end Context

/-! ### Problems -/

/-- A problem, the cursor position it was met at, and the text it is about. -/
structure ParseError where
  place : Nat
  problem : Problem
  span : Span
  deriving DecidableEq, Repr, Inhabited

namespace ParseError

/-- The written form of an error. -/
protected def toString (e : ParseError) : String :=
  s!"[{e.problem.code.name}] {e.problem.message} at {e.span}"

instance : ToString ParseError := ⟨ParseError.toString⟩

/-- Keeps of errors in a row at one position the first; `last` is the position of the error before
them. -/
def firstAtEach (last : Option Nat) : List ParseError → List ParseError
  | [] => []
  | e :: es =>
    if last = some e.place then firstAtEach last es else e :: firstAtEach (some e.place) es

end ParseError

/-- The errors that are kept, no more than `limit`, and the place of the last one that was met. -/
structure ErrorLog where
  limit : Nat
  kept : List ParseError
  last : Option Nat

namespace ErrorLog

def empty (limit : Nat) : ErrorLog := ⟨limit, [], none⟩

/-- The log after an error is met.  The first error at a place is kept if there is room; it is the
last one met in any case. -/
def record (log : ErrorLog) (e : ParseError) : ErrorLog :=
  if log.last = some e.place then log
  else if log.kept.length < log.limit then ⟨log.limit, log.kept ++ [e], some e.place⟩
  else { log with last := some e.place }

end ErrorLog

/-! ### Outcomes -/

/-- What a parser gives. -/
structure Outcome (α : Type) where
  value : α
  cursor : Cursor
  errors : List ParseError
  deriving Inhabited

/-- A reader of items; what it does depends on the region that the cursor stands in. -/
def Parser (α : Type) : Type := Context → Cursor → Outcome α

/-- A parser of outlines that stand side by side. -/
abbrev Part : Type := Parser (List Outline)

namespace Parser

variable {α β : Type}

instance : Monad Parser where
  pure a := fun _ c => ⟨a, c, []⟩
  bind p f := fun context c =>
    let first := p context c
    let second := f first.value context first.cursor
    ⟨second.value, second.cursor, first.errors ++ second.errors⟩

@[simp] theorem pure_apply (a : α) (context : Context) (c : Cursor) :
    (pure a : Parser α) context c = ⟨a, c, []⟩ := rfl

theorem bind_apply (p : Parser α) (f : α → Parser β) (context : Context) (c : Cursor) :
    (p >>= f) context c =
      ⟨(f (p context c).value context (p context c).cursor).value,
        (f (p context c).value context (p context c).cursor).cursor,
        (p context c).errors ++ (f (p context c).value context (p context c).cursor).errors⟩ := rfl

/-! ### Looking -/

/-- A fact about the cursor. -/
def look (f : Cursor → α) : Parser α := fun _ c => ⟨f c, c, []⟩

/-- The kind of the current item. -/
def kind : Parser TokenKind := look Cursor.kind

/-- The current item has this kind. -/
def isAt (k : TokenKind) : Parser Bool := look (·.kind == k)

/-- The kind of the current item is in a set. -/
def isIn (set : TokenSet) : Parser Bool := look fun c => set.contains c.kind

def atEnd : Parser Bool := look Cursor.atEnd

/-- A line end before the item `n` places ahead ends the expression. -/
def newlineBreaks (n : Nat) : Parser Bool :=
  fun context c => ⟨context.newlinesTerminate && (c.ahead n).newlineBefore, c, []⟩

/-! ### Reading -/

/-- Takes up the current item.  Nothing is taken up at the end. -/
def bump : Part := fun _ c =>
  ⟨if c.atEnd then [] else (c.here.index.map Outline.token).toList, c.advance, []⟩

/-- Writes down a problem at the current item. -/
def report (problem : Problem) : Parser Unit := fun _ c =>
  ⟨(), c, [⟨c.position, problem, if c.atEnd then .point c.span.start else c.span⟩]⟩

/-- Takes up the current item if it has this kind. -/
def eat (k : TokenKind) : Part := do if ← isAt k then bump else return []

/-- Takes up the current item if it has this kind, and otherwise writes down a problem with what is
there instead. -/
def expect (k : TokenKind) (problem : TokenKind → Problem) : Part := do
  if ← isAt k then bump
  else
    report (problem (← kind))
    return []

/-- Reads in a region with other flags. -/
def within (change : Context → Context) (p : Parser α) : Parser α :=
  fun context c => p (change context) c

/-- Reads where line ends are layout. -/
def bracketed (p : Parser α) : Parser α := within (·.union .brackets) p

/-- Reads where line ends end expressions. -/
def braced (p : Parser α) : Parser α := within (·.diff .brackets) p

/-! ### Combining -/

/-- One outline as a part. -/
def one (p : Parser Outline) : Part := return [← p]

/-- The parts one after another, their outlines in one row. -/
def row : List Part → Part
  | [] => return []
  | p :: ps => return (← p) ++ (← row ps)

/-- A node around some parts. -/
def node (kind : NodeKind) (parts : List Part) : Parser Outline :=
  return .node kind (← row parts)

/-- A node around the current item. -/
def leaf (kind : NodeKind) : Parser Outline := node kind [bump]

/-- Repeats a part until it gives nothing, at most once for every item of a list. -/
def manyFor (p : Parser (Option (List Outline))) : List Item → Part
  | [] => return []
  | _ :: items => do
    match ← p with
    | some os => return os ++ (← manyFor p items)
    | none => return []

/-- Repeats a part until it gives nothing.  The part takes up an item whenever it gives something,
so that it is enough to try it once for every item left. -/
def many (p : Parser (Option (List Outline))) : Part := do manyFor p (← look Cursor.items)

/-- Repeats a step that puts an outline into a larger one, at most once for every item of a list. -/
def growFor (step : Outline → Parser (Option Outline)) : List Item → Outline → Parser Outline
  | [], o => return o
  | _ :: items, o => do
    match ← step o with
    | some o => growFor step items o
    | none => return o

/-- Repeats a step that puts an outline into a larger one until there is none.  The step takes up an
item whenever it gives something. -/
def grow (step : Outline → Parser (Option Outline)) (o : Outline) : Parser Outline := do
  growFor step (← look Cursor.items) o

/-- Takes up items as long as `p` holds and the end is not reached. -/
def bumpWhile (p : Cursor → Bool) : Part := many do
  if ← look fun c => !c.atEnd && p c then return some (← bump) else return none

end Parser

end RSource
