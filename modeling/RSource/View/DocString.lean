import RSource.Text.Trim
import RSource.Tree.Expression

/-! The documentation of a function: the doc comment lines above it, or else the comments at the
start of its body. -/

namespace RSource

namespace DocString

/-- What opens a line of a doc comment. -/
def marker : List Char := ['#', '\x27']

/-- The number of line ends and other comments that may stand in a row between a doc comment and the
code it documents. -/
def maxGap : Nat := 2

/-- A text without the markers that it begins with, of which there are at most `bound`. -/
def withoutMarkers : Nat → List Char → List Char
  | 0, cs => cs
  | bound + 1, cs =>
    match Text.after? marker cs with
    | some rest => withoutMarkers bound rest
    | none => cs

/-- A line of a doc comment without its markers. -/
def lineOf (comment : String) : String :=
  Text.trimBlank (.ofList (withoutMarkers comment.length comment.toList))

/-- The lines of the doc comment that stands before some code, last first.  The nodes before the
code are given nearest first, and `gap` counts the line ends and other comments since the last line.
-/
def linesBefore (t : SyntaxTree) (gap : Nat) : List NodeId → List String
  | [] => []
  | id :: ids =>
    match t.tokenKind? id with
    | some .comment =>
      if marker.isPrefixOf (t.textOf id).toList then lineOf (t.textOf id) :: linesBefore t 0 ids
      else if maxGap ≤ gap then [] else linesBefore t (gap + 1) ids
    | some .newline => if maxGap ≤ gap then [] else linesBefore t (gap + 1) ids
    | some .whitespace => linesBefore t gap ids
    | _ => []

/-- The node that the doc comment of a function stands before: the statement around it, or the
function itself at top level. -/
def anchor (t : SyntaxTree) (function : NodeId) : NodeId :=
  ((t.parent? function).filter fun p => !t.isKind .file p).getD function

/-- The lines of the doc comment above a function. -/
def above (t : SyntaxTree) (function : NodeId) : List String :=
  (linesBefore t 0 (t.siblingsBefore (anchor t function))).reverse

/-- A comment without what opens it. -/
def commentText (comment : String) : String :=
  let cs := comment.toList
  let rest := ((Text.after? marker cs).or (Text.after? ['#'] cs)).getD cs
  Text.trimBlank (.ofList rest)

/-- The comments at the start of the block that is a function's body. -/
def opening (t : SyntaxTree) (function : NodeId) : List String :=
  match t.childOfKind? function .blockExpression with
  | some block =>
    (((t.children block).takeWhile t.isToken).filter (t.isTokenOf .comment)).map
      fun c => commentText (t.textOf c)
  | none => []

/-- The lines as one text, if there are any. -/
def joined? (lines : List String) : Option String :=
  if lines.isEmpty then none else some ("\n".intercalate lines)

end DocString

/-- The documentation of a function. -/
def docString? (t : SyntaxTree) (function : NodeId) : Option String :=
  (DocString.joined? (DocString.above t function)).or
    (DocString.joined? (DocString.opening t function))

end RSource
