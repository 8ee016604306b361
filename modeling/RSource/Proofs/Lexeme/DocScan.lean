import RSource.Lexeme.Doc
import RSource.Proofs.Text.Window
import RSource.Text.Trim
import RSource.Token.Stream

/-! Scanning doc comments by byte positions.  The scanner sees the text through the byte at a
position and the slice between two positions, and moves by loops.  Each of these may fail: a byte
may be past the end, the ends of a slice may be out of order or inside a character, and a loop may
go on without end. -/

namespace RSource.DocScan

open Lexeme Lexeme.Doc
open Utf8 (ascii)

/-- Why a scan stops before the end of the text. -/
inductive Fault where
  /-- The span of a slice that is none. -/
  | slice (s : Span)
  /-- The position of a byte past the end. -/
  | index (offset : Nat)
  /-- A loop has taken more turns than the text has bytes. -/
  | endless
  deriving DecidableEq, Repr

/-! ### Looking at the text -/

section

variable (text : String)

/-- The byte at a position, if there is one. -/
def byte? (offset : Nat) : Option UInt8 := (Utf8.encode text)[offset]?

/-- The byte at a position. -/
def byte (offset : Nat) : Except Fault UInt8 :=
  match byte? text offset with
  | some b => .ok b
  | none => .error (.index offset)

/-- The characters between two positions. -/
def slice (start stop : Nat) : Except Fault (List Char) :=
  match Text.slice? text ⟨start, stop⟩ with
  | some part => .ok part.toList
  | none => .error (.slice ⟨start, stop⟩)

/-- The turns that a loop may take: one for each byte and one for the end. -/
def turns : Nat := Text.byteLength text + 1

end

/-- How many bytes stand before the first character that satisfies `p`. -/
def find? (p : Char → Bool) : List Char → Option Nat
  | [] => none
  | c :: cs => if p c then some 0 else (find? p cs).map (c.utf8Size + ·)

/-- What stands before and after the first `d`. -/
def splitOnce? (d : Char) : List Char → Option (List Char × List Char)
  | [] => none
  | c :: cs =>
    if c = d then some ([], cs) else (splitOnce? d cs).map fun parts => (c :: parts.1, parts.2)

/-! ### Giving out tokens -/

/-- The token between two positions, unless it is empty. -/
def push (kind : TokenKind) (start stop : Nat) : List Token :=
  if start < stop then [Token.capped ⟨kind, ⟨start, stop⟩⟩] else []

/-- The tokens of a link. -/
def pushAll (link : List Token) : List Token :=
  link.flatMap fun t => push t.kind t.span.start t.span.stop

/-! ### Runs -/

def isGapByte (b : UInt8) : Bool := b = ascii ' ' || b = ascii '\t'

def isTagByte (b : UInt8) : Bool :=
  (ascii '0' ≤ b && b ≤ ascii '9') || (ascii 'A' ≤ b && b ≤ ascii 'Z') ||
    (ascii 'a' ≤ b && b ≤ ascii 'z') || b = ascii '_'

section

variable (text : String)

/-- The first position before `stop` whose byte does not satisfy `p`, or `stop`. -/
def skip (p : UInt8 → Bool) : Nat → Nat → Nat → Except Fault Nat
  | 0, _, _ => .error .endless
  | n + 1, pos, stop =>
    if pos < stop then do
      let b ← byte text pos
      if p b then skip p n (pos + 1) stop else return pos
    else return pos

/-- The end of the white space from a position on. -/
def gapEnd (pos stop : Nat) : Except Fault Nat := skip text isGapByte (turns text) pos stop

/-- The end of the tag name from a position on. -/
def tagEnd (pos stop : Nat) : Except Fault Nat := skip text isTagByte (turns text) pos stop

/-- The end of the name that starts at a position, if one does. -/
def nameEnd? (pos stop : Nat) : Except Fault (Option Nat) :=
  match Text.slice? text ⟨pos, stop⟩ with
  | none => return none
  | some rest =>
    match rest.toList with
    | [] => return none
    | c :: cs =>
      if c = backtick then do
        let inner ← slice rest 1 (Text.byteLength rest)
        return (find? (· = backtick) inner).map fun n => pos + 1 + n + 1
      else if Unicode.isAlphabetic c || c = '.' then
        let n := find? (fun d => !(Unicode.isAlphanumeric d || d = '.' || d = '_')) (c :: cs)
        return some (pos + n.getD (Text.byteLength rest))
      else return none

/-! ### Parameter lists -/

/-- The further names of a parameter list, and where they end. -/
def moreNames : Nat → Nat → Nat → Except Fault (List Token × Nat)
  | 0, _, _ => .error .endless
  | n + 1, pos, stop => do
    let comma ← gapEnd text pos stop
    if byte? text comma ≠ some (ascii ',') ∨ stop ≤ comma then return ([], pos)
    else
      let next ← gapEnd text (comma + 1) stop
      match ← nameEnd? text next stop with
      | none => return ([], pos)
      | some nextEnd =>
        let (ts, last) ← moreNames n nextEnd stop
        return (push .docWhitespace pos comma ++ push .docComma comma (comma + 1) ++
          push .docWhitespace (comma + 1) next ++ push .docIdentifier next nextEnd ++ ts, last)

/-- The names after `@param`, and where they end. -/
def names (start stop : Nat) : Except Fault (List Token × Nat) := do
  let first ← gapEnd text start stop
  match ← nameEnd? text first stop with
  | none => return ([], start)
  | some firstEnd =>
    if first = start then return ([], start)
    else
      let (ts, last) ← moreNames text (turns text) firstEnd stop
      return (push .docWhitespace start first ++ push .docIdentifier first firstEnd ++ ts, last)

/-! ### Links -/

/-- `[text](destination)`. -/
def markdownLink? (start stop : Nat) : Except Fault (Option (List Token)) := do
  match find? (· = ']') (← slice text start stop) with
  | none => return none
  | some label =>
    let close := start + label
    if byte? text (close + 1) ≠ some (ascii '(') ∨ stop ≤ close + 1 then return none
    else
      let paren := close + 1
      match find? (· = ')') (← slice text paren stop) with
      | none => return none
      | some n =>
        let last := paren + n
        return some [⟨.docText, ⟨start, close + 1⟩⟩, ⟨.docLeftParen, ⟨paren, paren + 1⟩⟩,
          ⟨.docText, ⟨paren + 1, last⟩⟩, ⟨.docRightParen, ⟨last, last + 1⟩⟩]

/-- `::` and a name, if `::` stands at a position; the option is `none` when the name is missing. -/
def qualified? (pos stop : Nat) : Except Fault (Option (List Token × Nat)) := do
  if [':', ':'].isPrefixOf (← slice text pos stop) then
    match ← nameEnd? text (pos + 2) stop with
    | none => return none
    | some last =>
      return some ([⟨.docDoubleColon, ⟨pos, pos + 2⟩⟩, ⟨.docIdentifier, ⟨pos + 2, last⟩⟩], last)
  else return some ([], pos)

/-- `()`, if it stands at a position. -/
def called (pos stop : Nat) : Except Fault (List Token × Nat) := do
  if ['(', ')'].isPrefixOf (← slice text pos stop) then
    return ([⟨.docLeftParen, ⟨pos, pos + 1⟩⟩, ⟨.docRightParen, ⟨pos + 1, pos + 2⟩⟩], pos + 2)
  else return ([], pos)

/-- `[name]`, `[pkg::name]`, `[name()]` or `[pkg::name()]`. -/
def helpPageLink? (start stop : Nat) : Except Fault (Option (List Token)) := do
  let first := start + 1
  match ← nameEnd? text first stop with
  | none => return none
  | some firstEnd =>
    match ← qualified? text firstEnd stop with
    | none => return none
    | some (qualifier, nameEnd) =>
      let (call, pos) ← called text nameEnd stop
      if byte? text pos ≠ some (ascii ']') ∨ stop ≤ pos then return none
      else
        return some (⟨.docLeftBracket, ⟨start, start + 1⟩⟩ ::
          ⟨.docIdentifier, ⟨first, firstEnd⟩⟩ :: qualifier ++ call ++
          [⟨.docRightBracket, ⟨pos, pos + 1⟩⟩])

/-- `<scheme:rest>`. -/
def autolink? (start stop : Nat) : Except Fault (Option (List Token)) := do
  let first := start + 1
  match find? (· = '>') (← slice text first stop) with
  | none => return none
  | some n =>
    let close := first + n
    let uri ← slice text first close
    match splitOnce? ':' uri with
    | none => return none
    | some (scheme, rest) =>
      if !isScheme scheme || rest.isEmpty || uri.any (fun c => Unicode.isBlank c || c = '<') then
        return none
      else
        return some [⟨.docLeftAngle, ⟨start, first⟩⟩, ⟨.docAutolinkUri, ⟨first, close⟩⟩,
          ⟨.docRightAngle, ⟨close, close + 1⟩⟩]

/-- The link that starts at a position, if one does. -/
def link? (pos stop : Nat) : Except Fault (Option (List Token)) := do
  let b ← byte text pos
  if b = ascii '[' then
    match ← markdownLink? text pos stop with
    | some link => return some link
    | none => helpPageLink? text pos stop
  else if b = ascii '<' then autolink? text pos stop
  else return none

/-! ### Content -/

/-- Free text with the white space at its ends apart. -/
def flush (start stop : Nat) : Except Fault (List Token) :=
  if stop ≤ start then return []
  else do
    let segment ← slice text start stop
    let size := Text.size segment
    let lead := size - Text.size (Text.trimStartChars isGap segment)
    let trail := size - Text.size (Text.trimEndChars isGap segment)
    if lead = size then return push .docWhitespace start stop
    else
      return push .docWhitespace start (start + lead) ++
        push .docText (start + lead) (stop - trail) ++ push .docWhitespace (stop - trail) stop

/-- The content of a line from a position on, when free text before it starts at `free`. -/
def contentFrom : Nat → Nat → Nat → Nat → Except Fault (List Token)
  | 0, _, _, _ => .error .endless
  | n + 1, free, pos, stop =>
    if pos < stop then do
      match ← link? text pos stop with
      | some link =>
        let before ← flush text free pos
        let next := (link.getLast?.map (·.span.stop)).getD (pos + 1)
        let ts ← contentFrom n next next stop
        return before ++ pushAll link ++ ts
      | none =>
        let rest ← slice text pos (Text.byteLength text)
        contentFrom n free (pos + (rest.head?.map Char.utf8Size).getD 1) stop
    else flush text free stop

/-- The tag of a line with its parameter names, and where they end. -/
def tagged (pos stop : Nat) : Except Fault (List Token × Nat) := do
  if byte? text pos = some (ascii '@') then
    let last ← tagEnd text (pos + 1) stop
    if pos + 1 < last then
      let tag ← slice text pos last
      if tag = "@param".toList then
        let (ts, left) ← names text last stop
        return (push .docTagName pos last ++ ts, left)
      else return (push .docTagName pos last, last)
    else return ([], pos)
  else return ([], pos)

/-- A line without its line end. -/
def line (start stop : Nat) : Except Fault (List Token) := do
  let marker ← gapEnd text start stop
  if ['#', '\x27'].isPrefixOf (← slice text marker stop) then
    let body ← gapEnd text (marker + 2) stop
    let (tag, left) ← tagged text body stop
    let ts ← contentFrom text (turns text) left left stop
    return push .docWhitespace start marker ++ push .docMarker marker (marker + 2) ++
      push .docWhitespace (marker + 2) body ++ tag ++ ts
  else return push .docWhitespace start marker ++ push .docText marker stop

/-! ### Lines -/

/-- Where the content of a line ends: before a carriage return at its end. -/
def contentEnd (start lineEnd : Nat) : Except Fault Nat :=
  if start < lineEnd then do
    let b ← byte text (lineEnd - 1)
    return if b = ascii '\r' then lineEnd - 1 else lineEnd
  else return lineEnd

/-- The lines from a position on. -/
def lines : Nat → Nat → Except Fault (List Token)
  | 0, _ => .error .endless
  | n + 1, pos =>
    if pos < Text.byteLength text then do
      let rest ← slice text pos (Text.byteLength text)
      let lineEnd := ((find? (· = '\n') rest).map (pos + ·)).getD (Text.byteLength text)
      let stop ← contentEnd text pos lineEnd
      let ts ← line text pos stop
      let ending :=
        if lineEnd < Text.byteLength text then push .docNewline stop (lineEnd + 1)
        else push .docWhitespace stop lineEnd
      let more ← lines n (lineEnd + 1)
      return ts ++ ending ++ more
    else return []

/-- The tokens of a text of doc comment lines. -/
def scan : Except Fault (List Token) := do
  let ts ← lines text (turns text) 0
  return ts ++ [Token.capped ⟨.endOfFile, .point (Text.byteLength text)⟩]

end

end RSource.DocScan
