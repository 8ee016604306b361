import RSource.Diagnostic.Basic
import RSource.Text.Lines

/-! Diagnostics as text for a terminal, with the lines of the source they point at. -/

namespace RSource

/-- When to colour. -/
inductive ColorMode where
  /-- Where the output goes to a terminal. -/
  | auto
  | always
  | never
  deriving DecidableEq, Repr, Inhabited

/-- Whether to colour output that does or does not go to a terminal. -/
def ColorMode.colors (mode : ColorMode) (terminal : Bool) : Bool :=
  match mode with
  | .auto => terminal
  | .always => true
  | .never => false

/-- The source that diagnostics are shown against, and whether they are coloured. -/
structure Emitter where
  colors : Bool
  fileName : String
  text : String

namespace Emitter

/-- The colour that text is switched back with. -/
def reset : String := "\x1b[0m"

/-- The colour of secondary labels. -/
def secondaryColor : String := "\x1b[1;34m"

/-- The colour of a severity. -/
def severityColor : Severity → String
  | .error => "\x1b[1;31m"
  | .warning => "\x1b[1;33m"
  | .note => "\x1b[1;36m"

/-- The text in a colour, if colours are used. -/
def paint (e : Emitter) (color text : String) : String :=
  if e.colors then color ++ text ++ reset else text

/-- A number of equal characters. -/
def fill (n : Nat) (c : Char) : String := .ofList (List.replicate n c)

/-- The number of characters to underline: those of the first line under a span, and at least one.
-/
def underlineLength (e : Emitter) (span : Span) : Nat :=
  match Text.slice? e.text span with
  | some part => max 1 (Text.firstLine part).length
  | none => 1

/-- The lines of a label. -/
def label (e : Emitter) (table : Text.LineTable) (severity : Severity) (l : Label) : List String :=
  let (line, column) := table.position e.text l.span.start
  let gutter := fill (toString line).length ' '
  let color := match l.style with
    | .primary => severityColor severity
    | .secondary => secondaryColor
  let shown := (table.lineText? e.text line).getD ""
  let pad := fill (column - 1) ' '
  let marker := fill (e.underlineLength l.span) l.style.marker
  let underline := e.paint color s!"{marker} {l.message}"
  [s!"{gutter}--> {e.fileName}:{line}:{column}",
    s!"{gutter} |",
    s!"{line} | {shown}",
    s!"{gutter} | {pad}{underline}"]

/-- The lines of a diagnostic. -/
def lines (e : Emitter) (d : Diagnostic) : List String :=
  let table := Text.LineTable.ofText e.text
  (e.paint (severityColor d.severity) d.heading ++ s!": {d.message}") ::
    d.labels.flatMap (e.label table d.severity) ++ d.notes.map fun note => s!"  = note: {note}"

/-- The text of diagnostics. -/
def render (e : Emitter) (ds : List Diagnostic) : String :=
  String.join ((ds.flatMap e.lines).map (· ++ "\n"))

/-- A number of things. -/
def counted (n : Nat) (thing : String) : String :=
  s!"{n} {thing}" ++ if n = 1 then "" else "s"

/-- A last line with the numbers of errors and of other diagnostics, if there are any. -/
def summary (e : Emitter) (errors others : Nat) : String :=
  if errors = 0 ∧ others = 0 then ""
  else counted errors "error" ++ ", " ++ counted others "warning" ++ s!" in {e.fileName}\n"

end Emitter

/-- Diagnostics against their source, and a summary of them. -/
def Emitter.report (e : Emitter) (ds : List Diagnostic) : String :=
  let errors := ds.countP Diagnostic.isError
  e.render ds ++ e.summary errors (ds.length - errors)

end RSource
