import RSource.Lexeme.Basic
import RSource.Unicode.Letter
import RSource.Unicode.Number

/-! The lexemes of R text.  At every place the longest piece that is a lexeme is taken, and a
reserved word wins over a name of the same length.  Where no lexeme fits, a `badCharacter` covers
what might still have become one, or else one character.  The functions here see the first character
of a lexeme and the characters after it, and answer how many of the latter belong to it. -/

namespace RSource.Lexeme

/-- The quote characters, by name. -/
def doubleQuote : Char := '"'

def singleQuote : Char := '\x27'

/-- The character around names that are not spelled as identifiers. -/
def backtick : Char := '\x60'

/-- White space within a line. -/
def isSpace (c : Char) : Bool := c = ' ' || c = '\t' || c = '\x0c' || c = '\r'

/-- The characters of names after the first. -/
def isNameChar (c : Char) : Bool :=
  Unicode.isLetter c || Unicode.isNumber c || c = '.' || c = '_'

def isHexDigit (c : Char) : Bool :=
  c.isDigit || ('a' ≤ c && c ≤ 'f') || ('A' ≤ c && c ≤ 'F')

/-- How many characters from the first on satisfy `p`. -/
def runLength (p : Char → Bool) (cs : List Char) : Nat := (cs.takeWhile p).length

/-- The number of characters before the first place where `goal` stands. -/
def distanceTo? (goal : List Char) : List Char → Option Nat
  | [] => if goal.isEmpty then some 0 else none
  | c :: cs =>
    if goal.isPrefixOf (c :: cs) then some 0 else (distanceTo? goal cs).map (· + 1)

/-! ### Words -/

/-- The reserved words and `...`. -/
def reserved : List (String × TokenKind) := [
  ("if", .ifKeyword), ("else", .elseKeyword), ("repeat", .repeatKeyword),
  ("while", .whileKeyword), ("function", .functionKeyword), ("for", .forKeyword),
  ("in", .inKeyword), ("next", .nextKeyword), ("break", .breakKeyword), ("TRUE", .trueKeyword),
  ("FALSE", .falseKeyword), ("NULL", .nullKeyword), ("Inf", .infKeyword), ("NaN", .nanKeyword),
  ("NA", .naKeyword), ("NA_integer_", .naIntegerKeyword), ("NA_real_", .naRealKeyword),
  ("NA_complex_", .naComplexKeyword), ("NA_character_", .naCharacterKeyword), ("...", .dots)]

/-- The reserved word with this spelling. -/
def reserved? (word : List Char) : Option TokenKind :=
  (reserved.find? fun entry => entry.1.toList = word).map Prod.snd

/-- The character is outside ASCII and its UTF-8 form begins with a byte that also begins some
letter or number.  Only the bytes CC, EE and F1 to F4 begin none. -/
def sharesLeadByte (c : Char) : Bool :=
  let n := c.toNat
  0x80 ≤ n && !(0x300 ≤ n && n < 0x340) && !(0xE000 ≤ n && n < 0xF000) && n < 0x40000

/-- The kind of a word, given the character after it.  A reserved word directly before a character
that shares its lead byte with a letter or number is a name. -/
def wordKind (word : List Char) (next : Option Char) : TokenKind :=
  if next.any sharesLeadByte then .identifier else (reserved? word).getD .identifier

/-- A word of name characters. -/
def scanWord (c : Char) (cs : List Char) : TokenKind × Nat :=
  let n := runLength isNameChar cs
  (wordKind (c :: cs.take n) (cs.drop n).head?, n)

/-- A name between backticks.  Without its end it is bad up to the end of the text. -/
def scanBackticked (cs : List Char) : TokenKind × Nat :=
  let n := runLength (· ≠ backtick) cs
  if n < cs.length then (.identifier, n + 1) else (.badCharacter, n)

/-! ### Numbers -/

/-- The length of `e`, an optional sign and digits, or 0. -/
def exponentLength : List Char → Nat
  | e :: cs =>
    if e = 'e' || e = 'E' then
      match cs with
      | s :: ds =>
        if s = '+' || s = '-' then
          let n := runLength Char.isDigit ds
          if n = 0 then 0 else n + 2
        else
          let n := runLength Char.isDigit cs
          if n = 0 then 0 else n + 1
      | [] => 0
    else 0
  | [] => 0

/-- The length of a point and the digits after it, or 0. -/
def fractionLength : List Char → Nat
  | c :: cs => if c = '.' then 1 + runLength Char.isDigit cs else 0
  | [] => 0

/-- A number whose first `n` characters are known: a suffix `L` makes it an integer, `i` complex. -/
def suffixed (n : Nat) (cs : List Char) : TokenKind × Nat :=
  match cs.drop n with
  | 'L' :: _ => (.integer, n + 1)
  | 'i' :: _ => (.complex, n + 1)
  | _ => (.numeric, n)

/-- The length of `x` and hexadecimal digits, or 0. -/
def hexLength : List Char → Nat
  | x :: cs =>
    if x = 'x' || x = 'X' then
      let n := runLength isHexDigit cs
      if n = 0 then 0 else n + 1
    else 0
  | [] => 0

/-- A number that begins with the digit `c`. -/
def scanNumber (c : Char) (cs : List Char) : TokenKind × Nat :=
  let hex := if c = '0' then hexLength cs else 0
  if hex ≠ 0 then suffixed hex cs
  else
    let whole := runLength Char.isDigit cs
    let fraction := whole + fractionLength (cs.drop whole)
    suffixed (fraction + exponentLength (cs.drop fraction)) cs

/-- A number that begins with a point; `cs` begins with a digit. -/
def scanFraction (cs : List Char) : TokenKind × Nat :=
  let fraction := runLength Char.isDigit cs
  suffixed (fraction + exponentLength (cs.drop fraction)) cs

/-- What begins with a point: a number, a name, `...` or the name `.`. -/
def scanPoint (cs : List Char) : TokenKind × Nat :=
  match cs with
  | d :: _ =>
    if d.isDigit then scanFraction cs
    else if Unicode.isLetter d || d = '.' || d = '_' then scanWord '.' cs
    else (.identifier, 0)
  | [] => (.identifier, 0)

/-! ### Strings and operators between percent signs -/

/-- The characters up to and including the closing quote, and whether there is one.  A backslash
takes the next character with it; one at the very end is left out. -/
def quotedLength (quote : Char) : List Char → Nat × Bool
  | [] => (0, false)
  | ['\\'] => (0, false)
  | '\\' :: _ :: cs => let (n, closed) := quotedLength quote cs; (n + 2, closed)
  | c :: cs =>
    if c = quote then (1, true) else let (n, closed) := quotedLength quote cs; (n + 1, closed)

def scanString (quote : Char) (cs : List Char) : TokenKind × Nat :=
  let (n, closed) := quotedLength quote cs
  (if closed then .string else .openString, n)

/-- The bracket that closes one that opens a raw string. -/
def closingBracket? : Char → Option Char
  | '(' => some ')'
  | '[' => some ']'
  | '\x7b' => some '\x7d'
  | _ => none

/-- A raw string after its `r` and quote: dashes, a bracket, and everything up to the matching
bracket, the same dashes and the quote.  Without a bracket the characters so far are bad. -/
def scanRaw (quote : Char) (cs : List Char) : TokenKind × Nat :=
  let dashes := runLength (· = '-') cs
  match cs.drop dashes with
  | bracket :: body =>
    match closingBracket? bracket with
    | some close =>
      let closer := close :: List.replicate dashes '-' ++ [quote]
      match distanceTo? closer body with
      | some n => (.string, dashes + 2 + n + closer.length)
      | none => (.openString, dashes + 2 + body.length)
    | none => (.badCharacter, dashes + 1)
  | [] => (.badCharacter, dashes + 1)

/-- What begins with a letter: a raw string after `r` or `R`, else a word. -/
def scanLetter (c : Char) (cs : List Char) : TokenKind × Nat :=
  match cs with
  | q :: rest =>
    if (c = 'r' || c = 'R') && (q = doubleQuote || q = singleQuote) then scanRaw q rest
    else scanWord c cs
  | [] => scanWord c cs

/-- An operator between percent signs.  Without its end it is bad up to the end of the line. -/
def scanPercent (cs : List Char) : TokenKind × Nat :=
  let n := runLength (fun c => c ≠ '%' && c ≠ '\n') cs
  if (cs.drop n).head? = some '%' then (.specialOp, n + 1) else (.badCharacter, n)

/-! ### Operators and punctuation -/

/-- The fixed spellings, each before those it begins with. -/
def symbols : List (String × TokenKind) := [
  ("<<-", .leftSuperAssign), ("<-", .leftAssign), ("<=", .lessEqual), ("<", .less),
  ("->>", .rightSuperAssign), ("->", .rightAssign), ("-", .minus),
  (":::", .tripleColon), ("::", .doubleColon), (":=", .colonAssign), (":", .colon),
  ("==", .equalEqual), ("=", .equal), ("!=", .notEqual), ("!", .not),
  (">=", .greaterEqual), (">", .greater), ("&&", .andAnd), ("&", .and),
  ("||", .orOr), ("|>", .specialOp), ("|", .or), ("**", .power), ("*", .times),
  ("^", .power), ("~", .tilde), ("+", .plus), ("/", .divide), ("$", .dollar), ("@", .at),
  ("?", .question), ("_", .underscore), ("(", .leftParen), (")", .rightParen),
  ("\x7b", .leftBrace), ("\x7d", .rightBrace), ("[[", .leftDoubleBracket), ("[", .leftBracket),
  ("]", .rightBracket), (",", .comma), (";", .semicolon), ("\\", .lambda)]

/-- The longest fixed spelling, or one bad character. -/
def scanSymbol (c : Char) (cs : List Char) : TokenKind × Nat :=
  match symbols.find? fun entry => entry.1.toList.isPrefixOf (c :: cs) with
  | some (spelling, kind) => (kind, spelling.length - 1)
  | none => (.badCharacter, 0)

/-! ### One lexeme and all of them -/

/-- The kind of the lexeme that begins with `c`, and how many of the characters `cs` after it belong
to it. -/
def scan (c : Char) (cs : List Char) : TokenKind × Nat :=
  if c = '\n' then (.newline, 0)
  else if c = '\r' && cs.head? = some '\n' then (.newline, 1)
  else if isSpace c then (.whitespace, runLength isSpace cs)
  else if c = '#' then (.comment, runLength (· ≠ '\n') cs)
  else if c = doubleQuote || c = singleQuote then scanString c cs
  else if c = backtick then scanBackticked cs
  else if c = '%' then scanPercent cs
  else if c.isDigit then scanNumber c cs
  else if c = '.' then scanPoint cs
  else if Unicode.isLetter c then scanLetter c cs
  else scanSymbol c cs

/-- The lexemes of the characters after the first `n`, which belong to a lexeme already taken. -/
def scanAfter : Nat → List Char → List Lexeme
  | _, [] => []
  | n + 1, _ :: cs => scanAfter n cs
  | 0, c :: cs =>
    let (kind, n) := scan c cs
    ⟨kind, c :: cs.take n⟩ :: scanAfter n cs

/-- The lexemes of a text, with every `]` on its own. -/
def scanAll (cs : List Char) : List Lexeme := scanAfter 0 cs

theorem scanAfter_eq_drop (n : Nat) (cs : List Char) : scanAfter n cs = scanAll (cs.drop n) := by
  induction cs generalizing n with
  | nil => cases n <;> rfl
  | cons c cs ih =>
    cases n with
    | zero => rfl
    | succ n => simp [scanAfter, ih]

theorem scanAll_cons (c : Char) (cs : List Char) :
    scanAll (c :: cs) = ⟨(scan c cs).1, c :: cs.take (scan c cs).2⟩ ::
      scanAll (cs.drop (scan c cs).2) := by
  rw [← scanAfter_eq_drop]
  rfl

/-- The characters of the lexemes, in order, are the text. -/
theorem flatMap_chars_scanAll (cs : List Char) : (scanAll cs).flatMap Lexeme.chars = cs := by
  generalize h : cs.length = k
  induction k using Nat.strongRecOn generalizing cs with
  | _ k ih =>
    cases cs with
    | nil => rfl
    | cons c cs =>
      rw [scanAll_cons, List.flatMap_cons,
        ih _ (by rw [← h]; exact Nat.lt_succ_of_le (by simp)) _ rfl]
      simp

end RSource.Lexeme
