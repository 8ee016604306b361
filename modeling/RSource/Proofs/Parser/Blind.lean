import RSource.Proofs.Parser.Built

/-! Blind parsers: erasing all spans changes nothing but the spans of errors.  Parsers that do not
look at spans are blind, and find the same in tokens of the same kinds. -/

namespace RSource

/-- The error without its place in the text. -/
def ParseError.bare (e : ParseError) : ParseError := { e with span := .point 0 }

variable {α β : Type}

def Outcome.bare (r : Outcome α) : Outcome α :=
  ⟨r.value, r.cursor.bare, r.errors.map ParseError.bare⟩

namespace Parser

/-- Erasing the places of items before parsing is erasing them after. -/
def Blind (p : Parser α) : Prop := ∀ context c, p context c.bare = (p context c).bare

theorem blind_look {f : Cursor → α} (hf : ∀ c, f c.bare = f c) : Blind (look f) := by
  intro context c
  rw [look, hf]
  rfl

theorem blind_newlineBreaks (n : Nat) : Blind (newlineBreaks n) := by
  intro context c
  rw [newlineBreaks, Cursor.ahead_bare]
  rfl

theorem blind_bump : Blind bump := by
  intro context c
  rw [bump, bump, Cursor.advance_bare]
  rfl

theorem blind_report (problem : Problem) : Blind (report problem) := by
  intro context c
  have hposition : c.bare.position = c.position := List.length_map _
  simp only [report, Outcome.bare, ParseError.bare, hposition, List.map_cons, List.map_nil]
  congr
  split
  · rfl
  · rfl

theorem Built.blind {p : Parser α} (h : Built False p) : Blind p := by
  induction h with
  | pure a => exact fun _ _ => rfl
  | bind hp hf ihp ihf =>
    intro context c
    rw [bind_apply, bind_apply, ihp context c]
    simp only [Outcome.bare, ihf _ context, List.map_append]
  | look f hf => exact blind_look (hf.resolve_left id)
  | newlineBreaks n => exact blind_newlineBreaks n
  | bump => exact blind_bump
  | report problem => exact blind_report problem
  | within change hp ih => exact fun context c => ih (change context) c

end Parser

/-! ### Tokens of the same kinds -/

/-- The items of tokens do not depend on where the tokens stand. -/
theorem Item.map_bare_ofTokens : ∀ (ts us : List Token) (place : Nat) (newline : Bool)
    (last last' : Option Token), ts.map Token.kind = us.map Token.kind →
    last.map Token.kind = last'.map Token.kind →
    (ofTokens place newline last ts).map bare = (ofTokens place newline last' us).map bare
  | [], [], place, newline, last, last', _, hlast => by
    have hend : last.any (·.kind == .endOfFile) = last'.any (·.kind == .endOfFile) := by
      have hany : ∀ t : Option Token, t.any (·.kind == .endOfFile) =
          (t.map Token.kind).any (· == .endOfFile) := by
        intro t
        cases t <;> rfl
      rw [hany, hany, hlast]
    rw [ofTokens, ofTokens, hend]
    split
    · rfl
    · rfl
  | [], u :: us, _, _, _, _, h, _ => by cases h
  | t :: ts, [], _, _, _, _, h, _ => by cases h
  | t :: ts, u :: us, place, newline, last, last', h, _ => by
    obtain ⟨hkind, hrest⟩ := List.cons.inj h
    have hsome : (some t).map Token.kind = (some u).map Token.kind := congrArg some hkind
    rw [ofTokens, ofTokens, hkind]
    split
    · exact map_bare_ofTokens ts us _ true _ _ hrest hsome
    split
    · exact map_bare_ofTokens ts us _ newline _ _ hrest hsome
    · rw [List.map_cons, List.map_cons, map_bare_ofTokens ts us _ false _ _ hrest hsome]
      simp only [bare, hkind]

theorem Cursor.bare_ofTokens {ts us : List Token} (h : ts.map Token.kind = us.map Token.kind) :
    (ofTokens ts).bare = (ofTokens us).bare := by
  have hitems := Item.map_bare_ofTokens ts us 0 false none none h rfl
  unfold ofTokens
  cases hts : Item.ofTokens 0 false none ts with
  | nil =>
    rw [hts, List.map_nil, eq_comm, List.map_eq_nil_iff] at hitems
    rw [hitems]
  | cons item items =>
    cases hus : Item.ofTokens 0 false none us with
    | nil => simp [hts, hus] at hitems
    | cons item' items' =>
      rw [hts, hus] at hitems
      obtain ⟨hfirst, hrest⟩ := List.cons.inj hitems
      simp only [bare, hfirst, hrest, List.map_nil]

/-- A blind parser finds the same in tokens of the same kinds, and finds problems in both or in
neither. -/
theorem Parser.Blind.ofTokens {p : Parser α} (hp : Blind p) {ts us : List Token}
    (h : ts.map Token.kind = us.map Token.kind) (context : Context) :
    (p context (.ofTokens ts)).value = (p context (.ofTokens us)).value ∧
      ((p context (.ofTokens ts)).errors = [] → (p context (.ofTokens us)).errors = []) := by
  have hbare := hp context (.ofTokens ts)
  rw [Cursor.bare_ofTokens h, hp context (.ofTokens us)] at hbare
  refine ⟨(congrArg Outcome.value hbare).symm, fun hnone => ?_⟩
  have herrors : (p context (.ofTokens us)).errors.map ParseError.bare =
      (p context (.ofTokens ts)).errors.map ParseError.bare := congrArg Outcome.errors hbare
  rwa [hnone, List.map_nil, List.map_eq_nil_iff] at herrors

end RSource
