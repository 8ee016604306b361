import RSource.Lexeme.Scan
import RSource.Unicode.Alphabetic
import RSource.Unicode.Range

/-! The lexemes of doc comments.  Each line is white space, the marker `#'` and its content; a line
without the marker is text.  Content is taken apart only where it is well formed:

* `@tag` as the first thing on a line, and after `@param` a list of names between commas;
* help page links `[name]`, `[pkg::name]`, `[name()]` and `[pkg::name()]`;
* links `[text](destination)`;
* links `<scheme:rest>`.

All else, broken brackets included, is text. -/

namespace RSource.Lexeme.Doc

/-- White space within a doc comment. -/
def isGap (c : Char) : Bool := c = ' ' || c = '\t'

/-- The characters of tag names. -/
def isTagChar (c : Char) : Bool := c.isAlphanum || c = '_'

/-- The length of the name that begins the characters: a word that starts with an alphabetic
character or a point, or anything between backticks. -/
def nameLength? : List Char → Option Nat
  | [] => none
  | c :: cs =>
    if c = backtick then
      let n := runLength (· ≠ backtick) cs
      if n < cs.length then some (n + 2) else none
    else if Unicode.isAlphabetic c || c = '.' then
      some (1 + runLength (fun d => Unicode.isAlphanumeric d || d = '.' || d = '_') cs)
    else none

/-- White space, a comma, white space and a name: how long each is. -/
def nextParameter? (cs : List Char) : Option (Nat × Nat × Nat) :=
  let before := runLength isGap cs
  match cs.drop before with
  | ',' :: rest =>
    let after := runLength isGap rest
    (nameLength? (rest.drop after)).map fun n => (before, after, n)
  | _ => none

/-- The further names of a parameter list, each with the comma before it, and the characters after
the last. At most `bound` names are read. -/
def moreParameters : Nat → List Char → List Lexeme × List Char
  | 0, cs => ([], cs)
  | bound + 1, cs =>
    match nextParameter? cs with
    | some (before, after, n) =>
      let rest := cs.drop (before + 1)
      let name := rest.drop after
      let (ls, left) := moreParameters bound (name.drop n)
      (nonempty .docWhitespace (cs.take before) ++ ⟨.docComma, [',']⟩ ::
        nonempty .docWhitespace (rest.take after) ++ ⟨.docIdentifier, name.take n⟩ :: ls, left)
    | none => ([], cs)

/-- The names after `@param`, and the characters after them.  There are none unless white space and
a name follow. -/
def parameters (cs : List Char) : List Lexeme × List Char :=
  let gap := runLength isGap cs
  let name := cs.drop gap
  match nameLength? name with
  | some n =>
    if gap = 0 then ([], cs)
    else
      let (ls, left) := moreParameters cs.length (name.drop n)
      (⟨.docWhitespace, cs.take gap⟩ :: ⟨.docIdentifier, name.take n⟩ :: ls, left)
  | none => ([], cs)

/-- Free text with the white space at its ends apart. -/
def freeText (cs : List Char) : List Lexeme :=
  let lead := cs.takeWhile isGap
  let body := cs.dropWhile isGap
  let trail := (body.reverse.takeWhile isGap).reverse
  nonempty .docWhitespace lead ++ nonempty .docText (body.take (body.length - trail.length)) ++
    nonempty .docWhitespace trail

/-- `[text](destination)` after its `[`. -/
def markdownLink? (cs : List Char) : Option (List Lexeme) :=
  let label := cs.takeWhile (· ≠ ']')
  match cs.drop label.length with
  | ']' :: '(' :: rest =>
    let destination := rest.takeWhile (· ≠ ')')
    if destination.length < rest.length then
      some (⟨.docText, '[' :: label ++ [']']⟩ :: ⟨.docLeftParen, ['(']⟩ ::
        nonempty .docText destination ++ [⟨.docRightParen, [')']⟩])
    else none
  | _ => none

/-- The name after `::`, if `::` begins the characters; the outer option is `none` when a name is
missing there. -/
def qualified? (cs : List Char) : Option (List Lexeme × List Char) :=
  match cs with
  | ':' :: ':' :: rest =>
    (nameLength? rest).map fun n =>
      ([⟨.docDoubleColon, [':', ':']⟩, ⟨.docIdentifier, rest.take n⟩], rest.drop n)
  | _ => some ([], cs)

/-- `[name]`, `[pkg::name]`, `[name()]` or `[pkg::name()]` after its `[`. -/
def helpPageLink? (cs : List Char) : Option (List Lexeme) := do
  let n ← nameLength? cs
  let (names, rest) ← qualified? (cs.drop n)
  let start := ⟨.docLeftBracket, ['[']⟩ :: ⟨.docIdentifier, cs.take n⟩ :: names
  match rest with
  | '(' :: ')' :: ']' :: _ =>
    some (start ++ [⟨.docLeftParen, ['(']⟩, ⟨.docRightParen, [')']⟩, ⟨.docRightBracket, [']']⟩])
  | ']' :: _ => some (start ++ [⟨.docRightBracket, [']']⟩])
  | _ => none

/-- A scheme is an ASCII letter and then ASCII letters, digits, `+`, `.` and `-`. -/
def isScheme (cs : List Char) : Bool :=
  cs.head?.any Char.isAlpha && cs.all fun c => c.isAlphanum || c = '+' || c = '.' || c = '-'

/-- `<scheme:rest>` after its `<`, without white space or another `<` inside. -/
def autolink? (cs : List Char) : Option (List Lexeme) :=
  let uri := cs.takeWhile (· ≠ '>')
  let scheme := uri.takeWhile (· ≠ ':')
  let rest := uri.drop (scheme.length + 1)
  if uri.length < cs.length && scheme.length < uri.length && isScheme scheme && !rest.isEmpty &&
      uri.all (fun c => !Unicode.isBlank c && c ≠ '<') then
    some [⟨.docLeftAngle, ['<']⟩, ⟨.docAutolinkUri, uri⟩, ⟨.docRightAngle, ['>']⟩]
  else none

/-- The link that begins with `c`, before the characters `cs`. -/
def link? (c : Char) (cs : List Char) : Option (List Lexeme) :=
  if c = '[' then (markdownLink? cs).or (helpPageLink? cs)
  else if c = '<' then autolink? cs
  else none

/-- The number of characters of lexemes. -/
def count (ls : List Lexeme) : Nat := (ls.flatMap Lexeme.chars).length

/-- The lexemes of content.  `taken` counts the characters still ahead that belong to a link already
given, and `text` holds the free text before them, last character first. -/
def contentFrom : Nat → List Char → List Char → List Lexeme
  | _, text, [] => freeText text.reverse
  | taken + 1, text, _ :: cs => contentFrom taken text cs
  | 0, text, c :: cs =>
    match link? c cs with
    | some ls => freeText text.reverse ++ ls ++ contentFrom (count ls - 1) [] cs
    | none => contentFrom 0 (c :: text) cs

/-- The lexemes of the content of a line after its tag. -/
def content (cs : List Char) : List Lexeme := contentFrom 0 [] cs

/-- The lexemes of a line after its marker and the white space that follows. -/
def marked (cs : List Char) : List Lexeme :=
  match cs with
  | '@' :: rest =>
    let name := rest.takeWhile isTagChar
    if name.isEmpty then content cs
    else
      let after := rest.drop name.length
      let (ls, left) := if name = "param".toList then parameters after else ([], after)
      ⟨.docTagName, '@' :: name⟩ :: ls ++ content left
  | _ => content cs

/-- The lexemes of a line without its line end. -/
def line (cs : List Char) : List Lexeme :=
  let body := cs.dropWhile isGap
  nonempty .docWhitespace (cs.takeWhile isGap) ++
    match body with
    | '#' :: '\x27' :: rest =>
      ⟨.docMarker, ['#', '\x27']⟩ :: nonempty .docWhitespace (rest.takeWhile isGap) ++
        marked (rest.dropWhile isGap)
    | _ => nonempty .docText body

/-- The lexemes of a line and of the line end after it, if there is one.  A carriage return before
the line end belongs to it; before the end of the text it is white space. -/
def lineWithEnd (cs : List Char) (ended : Bool) : List Lexeme :=
  let returned := cs.getLast? = some '\r'
  line (if returned then cs.dropLast else cs) ++
    if ended then [⟨.docNewline, if returned then ['\r', '\n'] else ['\n']⟩]
    else if returned then [⟨.docWhitespace, ['\r']⟩]
    else []

/-- The lexemes of the lines of a text, when `current` holds the characters of the current line so
far, last character first. -/
def linesFrom (current : List Char) : List Char → List Lexeme
  | [] => lineWithEnd current.reverse false
  | c :: cs =>
    if c = '\n' then lineWithEnd current.reverse true ++ linesFrom [] cs
    else linesFrom (c :: current) cs

/-- The lexemes of a block of doc comment lines. -/
def ofChars (cs : List Char) : List Lexeme := linesFrom [] cs

end RSource.Lexeme.Doc

namespace RSource

/-- The tokens of a block of doc comment lines, closed by an `endOfFile`. -/
def lexDoc (text : String) : List Token := Lexeme.place 0 (Lexeme.Doc.ofChars text.toList)

end RSource
