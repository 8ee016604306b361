import RSource.Proofs.Grammar.Definition
import RSource.Proofs.Lexeme.Tiling
import RSource.Stub.Basic

/-! The stubs of lines of definitions: of each assignment and, behind it, of its parameters, with
the place where the name stands in the text. -/

namespace RSource

open Lexeme (blank)

/-! ### Places in a text -/

/-- The text ends with the lexemes, the first of which is the token `place` and starts at `offset`.
-/
def Lexeme.Rest (text : String) (place offset : Nat) (ls : List Lexeme) : Prop :=
  ∃ before, Lexeme.ofText text = before ++ ls ∧ before.length = place ∧
    Text.size (before.flatMap Lexeme.chars) = offset

namespace Lexeme.Rest

variable {text : String} {place offset : Nat} {l : Lexeme} {ls : List Lexeme}

theorem refl (text : String) : Rest text 0 0 (Lexeme.ofText text) := ⟨[], rfl, rfl, rfl⟩

theorem skip (xs : List Lexeme) (h : Rest text place offset (xs ++ ls)) :
    Rest text (place + xs.length) (offset + Text.size (xs.flatMap Lexeme.chars)) ls := by
  obtain ⟨before, htext, rfl, rfl⟩ := h
  exact ⟨before ++ xs, by rw [htext, List.append_assoc], List.length_append, by simp⟩

theorem token (h : Rest text place offset (l :: ls)) :
    (lex text)[place]? = some (l.tokenAt offset) ∧
      Text.slice? text (l.tokenAt offset).span = some (String.ofList l.chars) := by
  obtain ⟨before, htext, rfl, rfl⟩ := h
  exact ⟨getElem?_lex htext, slice?_lexeme htext⟩

end Lexeme.Rest

open Lexeme (Rest)

/-! ### Names -/

namespace Name

/-- The span of the name if it starts at an offset. -/
def spanAt (name : Name) (offset : Nat) : Span := ⟨offset, offset + Text.byteLength name.text⟩

theorem tokenAt_lexeme (name : Name) (offset : Nat) :
    name.lexeme.tokenAt offset = ⟨.identifier, name.spanAt offset⟩ := by
  rw [Lexeme.tokenAt, Lexeme.size, spanAt, ← Text.size_toList]
  rfl

end Name

namespace Lexeme.Rest

variable {text : String} {place offset : Nat} {name : Name} {ls : List Lexeme}

/-- A name is a token, and where it stands the text is the name. -/
theorem identifier (h : Rest text place offset (name.lexeme :: ls)) :
    (lex text)[place]? = some ⟨.identifier, name.spanAt offset⟩ ∧
      Text.slice? text (name.spanAt offset) = some name.text := by
  obtain ⟨htoken, hslice⟩ := h.token
  rw [name.tokenAt_lexeme] at htoken hslice
  exact ⟨htoken, hslice.trans (congrArg some String.ofList_toList)⟩

theorem behind (h : Rest text place offset (name.lexeme :: ls)) :
    Rest text (place + 1) (offset + Text.byteLength name.text) ls := by
  have hrest := h.skip [name.lexeme]
  rwa [List.flatMap_singleton, Name.lexeme, Text.size_toList] at hrest

end Lexeme.Rest

namespace Definition

/-! ### The stubs of definitions -/

/-- The stubs of parameters of the function that the stub `owner` assigns; the first starts at
`offset`. -/
def parameterStubs (owner : StubId) (offset : Nat) : List Name → List Stub
  | [] => []
  | p :: ps => ⟨.parameter p.text, some owner, p.spanAt offset⟩ ::
    parameterStubs owner (offset + Text.byteLength p.text + 2) ps

/-- The stubs of a definition that starts at `offset`.  The first gets the place `first`. -/
def stubs (first : StubId) (offset : Nat) : Definition → List Stub
  -- Between a name and the parameters stand 13 bytes, and 5 before a name on the right.
  | function name ps => ⟨.assignment name.text true true false, none, name.spanAt offset⟩ ::
    parameterStubs first (offset + Text.byteLength name.text + 13) ps
  | equal name => [⟨.assignment name.text false true false, none, name.spanAt offset⟩]
  | right name => [⟨.assignment name.text false true true, none, name.spanAt (offset + 5)⟩]

/-- The stubs of lines of definitions, of which the first starts at `offset`. -/
def allStubs (first : StubId) (offset : Nat) : List Definition → List Stub
  | [] => []
  | d :: ds => d.stubs first offset ++
    allStubs (first + (d.stubs first offset).length) (offset + Text.byteLength d.print + 1) ds

/-! ### Places in a definition -/

variable {text : String} {name : Name} {place offset : Nat} {ls : List Lexeme}

theorem rest_parameters {ps : List Name}
    (h : Rest text place offset ((function name ps).lexemes ++ ls)) :
    Rest text (place + 6) (offset + Text.byteLength name.text + 13)
      (parameterLexemes ps ++ (closing ++ ls)) := by
  have hname : Rest text place offset (name.lexeme ::
      (opening ++ (parameterLexemes ps ++ (closing ++ ls)))) := by simpa [lexemes] using h
  have hsize : Text.size (opening.flatMap Lexeme.chars) = 13 := by decide
  have hlist := hname.behind.skip opening
  rwa [hsize] at hlist

theorem rest_comma {p : Name} {ps : List Name}
    (h : Rest text place offset (moreParameters (p :: ps) ++ ls)) :
    Rest text (place + 2) (offset + 2) (p.lexeme :: (moreParameters ps ++ ls)) :=
  h.skip [comma, blank]

theorem rest_right (h : Rest text place offset ((right name).lexemes ++ ls)) :
    Rest text (place + 4) (offset + 5) (name.lexeme :: ([lineEnd] ++ ls)) :=
  h.skip [value, blank, ⟨.rightAssign, ['-', '>']⟩, blank]

/-- The next definition starts behind the end of the line. -/
theorem rest_next (d : Definition) (h : Rest text place offset (d.lexemes ++ ls)) :
    Rest text (place + d.lexemes.length) (offset + Text.byteLength d.print + 1) ls := by
  have hsize : Text.size (d.lexemes.flatMap Lexeme.chars) = Text.byteLength d.print + 1 := by
    rw [chars_lexemes, String.toList_append, Text.size_append, Text.size_toList]
    rfl
  have hnext := h.skip d.lexemes
  rwa [hsize, ← Nat.add_assoc] at hnext

theorem rest_printAll (ds : List Definition) : Rest (printAll ds) 0 0 (ds.flatMap lexemes) := by
  rw [← ofText_printAll]
  exact .refl _

theorem slice?_moreParameters {owner : StubId} (ps : List Name) : ∀ {place offset : Nat},
    Rest text place offset (moreParameters ps ++ ls) →
    ∀ s ∈ parameterStubs owner (offset + 2) ps, Text.slice? text s.span = some s.name := by
  induction ps with
  | nil => exact fun _ _ h => nomatch h
  | cons p ps ih =>
    intro place offset hrest s hs
    have hname := rest_comma hrest
    rcases List.mem_cons.mp hs with rfl | hs
    · exact hname.identifier.2
    · exact ih hname.behind s hs

theorem slice?_parameters {owner : StubId} (ps : List Name)
    (h : Rest text place offset (parameterLexemes ps ++ ls)) :
    ∀ s ∈ parameterStubs owner offset ps, Text.slice? text s.span = some s.name := by
  cases ps with
  | nil => exact fun _ h => nomatch h
  | cons p ps =>
    intro s hs
    rcases List.mem_cons.mp hs with rfl | hs
    · exact h.identifier.2
    · exact slice?_moreParameters ps h.behind s hs

/-- A stub of a definition spans its name. -/
theorem slice?_stubs {first : StubId} (d : Definition)
    (h : Rest text place offset (d.lexemes ++ ls)) :
    ∀ s ∈ d.stubs first offset, Text.slice? text s.span = some s.name := by
  intro s hs
  cases d with
  | function name ps =>
    rcases List.mem_cons.mp hs with rfl | hs
    · exact h.identifier.2
    · exact slice?_parameters ps (rest_parameters h) s hs
  | equal name =>
    obtain rfl := List.mem_singleton.mp hs
    exact h.identifier.2
  | right name =>
    obtain rfl := List.mem_singleton.mp hs
    exact (rest_right h).identifier.2

theorem slice?_allStubs (ds : List Definition) : ∀ {place offset : Nat} {first : StubId},
    Rest text place offset (ds.flatMap lexemes) →
    ∀ s ∈ allStubs first offset ds, Text.slice? text s.span = some s.name := by
  induction ds with
  | nil => exact fun _ _ h => nomatch h
  | cons d ds ih =>
    intro place offset first hrest s hs
    rw [List.flatMap_cons] at hrest
    rcases List.mem_append.mp hs with hs | hs
    · exact d.slice?_stubs hrest s hs
    · exact ih (d.rest_next hrest) s hs

end Definition

end RSource
