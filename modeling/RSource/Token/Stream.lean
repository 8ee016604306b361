import RSource.Lexeme.Bracket

/-! Streams of tokens.  A stream gives the tokens of a text one at a time, from any offset on, and
can be sent back to where it started.  It scans no further than it has to: one token ahead to see
whether two `]` close a `[[`, and one ahead of a token whose neighbours it may have to fuse with it.
Neighbouring tokens whose kind is in its merge set come out as one. -/

namespace RSource

/-- The token with its span as far as offsets go: none is above `maxOffset`. -/
def Token.capped (t : Token) : Token :=
  ⟨t.kind, ⟨min t.span.start maxOffset, min t.span.stop maxOffset⟩⟩

/-- A reader of tokens, at some place between where it started and the end of the text. -/
structure TokenStream where
  /-- The kinds whose neighbours are fused. -/
  merge : TokenSet
  /-- The offset that the stream started at. -/
  base : Nat
  /-- The characters from there to the end of the text. -/
  source : List Char
  /-- The offset of the first character that is not scanned. -/
  offset : Nat
  /-- The characters that are not scanned. -/
  unscanned : List Char
  /-- The open brackets, innermost first. -/
  opened : List TokenKind
  /-- A token that was scanned to see whether it is the other half of `]]`, and is not. -/
  stashed : Option Token
  /-- A token that was taken to see whether it is fused with the one before, and is not. -/
  ahead : Option Token
  /-- The end of the file is given out. -/
  ended : Bool
  deriving Repr

namespace TokenStream

/-- Runs of white space are merged unless a stream is told otherwise. -/
def defaultMerge : TokenSet := .single .whitespace

/-- The stream of the tokens of characters that stand at an offset. -/
def fresh (merge : TokenSet) (base : Nat) (source : List Char) : TokenStream :=
  ⟨merge, base, source, base, source, [], none, none, false⟩

/-- The stream of the tokens that begin at a byte offset or later.  Spans are those of the whole
text. Brackets opened before the offset are not known, so a `]]` that closes one of them is two `]`.
An offset past the end or inside a character gives the end of the file only. -/
def startingAt (text : String) (offset : Nat) (merge : TokenSet) : TokenStream :=
  match Text.charsFrom? offset text.toList with
  | some cs => fresh merge offset cs
  | none => fresh merge (Text.byteLength text) []

/-- The stream of all tokens of a text. -/
def ofText (text : String) (merge : TokenSet) : TokenStream := startingAt text 0 merge

/-- The stream at its start again. -/
def restart (s : TokenStream) : TokenStream := fresh s.merge s.base s.source

/-! ### One token -/

/-- The next token with every `]` on its own: the stashed one, or else one that is scanned. -/
def pull (s : TokenStream) : Option Token × TokenStream :=
  match s.stashed, s.unscanned with
  | some t, _ => (some t, { s with stashed := none })
  | none, [] => (none, s)
  | none, c :: cs =>
    let (kind, n) := Lexeme.scan c cs
    let lexeme : Lexeme := ⟨kind, c :: cs.take n⟩
    (some (lexeme.tokenAt s.offset).capped,
      { s with offset := s.offset + lexeme.size, unscanned := cs.drop n })

/-- The stream after a token that may be a bracket. -/
def track (s : TokenStream) (kind : TokenKind) : TokenStream :=
  { s with opened := Lexeme.track s.opened kind }

/-- The second token starts where the first one stops. -/
def touches (t u : Token) : Bool := u.span.start == t.span.stop

/-- The token that two tokens make. -/
def join (kind : TokenKind) (t u : Token) : Token := ⟨kind, t.span.merge u.span⟩

/-- The next token when `]]` is one token where it closes a `[[`.  After the last one comes an
`endOfFile`, once. -/
def cook (s : TokenStream) : Option Token × TokenStream :=
  match s.pull with
  | (none, s) =>
    if s.ended then (none, s)
    else (some (Token.capped ⟨.endOfFile, .point s.offset⟩), { s with ended := true })
  | (some t, s) =>
    if t.kind = .rightBracket && s.opened.head? = some .leftDoubleBracket then
      match s.pull with
      | (some u, s) =>
        if u.kind = .rightBracket && touches t u then
          (some (join .rightDoubleBracket t u), s.track .rightDoubleBracket)
        else (some t, { s with stashed := some u }.track t.kind)
      | (none, s) => (some t, s.track t.kind)
    else (some t, s.track t.kind)

/-- The token that was taken ahead, or else the next one. -/
def advance (s : TokenStream) : Option Token × TokenStream :=
  match s.ahead with
  | some t => (some t, { s with ahead := none })
  | none => s.cook

/-- How many tokens may still come at most. -/
def bound (s : TokenStream) : Nat :=
  s.unscanned.length + s.stashed.toList.length + s.ahead.toList.length + (!s.ended).toNat

theorem bound_pull {s s' : TokenStream} {t : Token} (h : s.pull = (some t, s')) :
    s'.bound < s.bound ∧ s'.stashed = none := by
  rw [pull] at h
  split at h
  · next hstashed =>
    obtain ⟨-, rfl⟩ := Prod.mk.inj h
    simp [bound, hstashed]
  · cases h
  · next c cs hstashed hunscanned =>
    generalize Lexeme.scan c cs = scanned at h
    obtain ⟨kind, n⟩ := scanned
    obtain ⟨-, rfl⟩ := Prod.mk.inj h
    have hdrop := (List.drop_sublist n cs).length_le
    refine ⟨?_, hstashed⟩
    simp only [bound, hunscanned, List.length_cons]
    omega

theorem bound_of_pull_none {s s' : TokenStream} (h : s.pull = (none, s')) : s' = s := by
  rw [pull] at h
  split at h
  · cases h
  · exact (Prod.mk.inj h).2.symm
  · cases h

@[simp] theorem bound_track (s : TokenStream) (kind : TokenKind) :
    (s.track kind).bound = s.bound := rfl

theorem bound_cook {s s' : TokenStream} {t : Token} (h : s.cook = (some t, s')) :
    s'.bound < s.bound := by
  rw [cook] at h
  split at h
  · next s₁ hpull =>
    obtain rfl := bound_of_pull_none hpull
    split at h
    · cases h
    · next hended =>
      obtain ⟨-, rfl⟩ := Prod.mk.inj h
      simp [bound, hended]
  · next t₁ s₁ hpull =>
    have hfirst := (bound_pull hpull).1
    split at h
    · split at h
      · next u s₂ hpull' =>
        obtain ⟨hsecond, hstashed⟩ := bound_pull hpull'
        split at h
        · obtain ⟨-, rfl⟩ := Prod.mk.inj h
          rw [bound_track]
          omega
        · obtain ⟨-, rfl⟩ := Prod.mk.inj h
          have hput : ({ s₂ with stashed := some u } : TokenStream).bound = s₂.bound + 1 := by
            simp [bound, hstashed]
            omega
          rw [bound_track, hput]
          omega
      · next s₂ hpull' =>
        obtain rfl := bound_of_pull_none hpull'
        obtain ⟨-, rfl⟩ := Prod.mk.inj h
        exact hfirst
    · obtain ⟨-, rfl⟩ := Prod.mk.inj h
      exact hfirst

theorem bound_advance {s s' : TokenStream} {t : Token} (h : s.advance = (some t, s')) :
    s'.bound < s.bound := by
  rw [advance] at h
  split at h
  · next hahead =>
    obtain ⟨-, rfl⟩ := Prod.mk.inj h
    simp [bound, hahead]
  · exact bound_cook h

/-- A token with the neighbours after it that are of its kind. -/
def extend (t : Token) (s : TokenStream) : Token × TokenStream :=
  match _h : s.advance with
  | (none, s') => (t, s')
  | (some u, s') =>
    if u.kind = t.kind && touches t u then extend (join t.kind t u) s'
    else (t, { s' with ahead := some u })
termination_by s.bound
decreasing_by exact bound_advance _h

/-- The next token and the stream after it. -/
def next (s : TokenStream) : Option Token × TokenStream :=
  match s.advance with
  | (none, s) => (none, s)
  | (some t, s) =>
    if s.merge.contains t.kind then
      let (t, s) := extend t s
      (some t, s)
    else (some t, s)

/-! ### Many tokens -/

/-- The next `n` tokens, or as many as there are. -/
def take (s : TokenStream) : Nat → List Token × TokenStream
  | 0 => ([], s)
  | n + 1 =>
    match s.next with
    | (none, s) => ([], s)
    | (some t, s) =>
      let (ts, s) := s.take n
      (t :: ts, s)

/-- All remaining tokens. -/
def drain (s : TokenStream) : List Token × TokenStream := s.take s.bound

end TokenStream

/-- The tokens of an R source, closed by an `endOfFile`: those that a stream gives, up to the cap on
their spans. -/
def lex (text : String) : List Token :=
  Lexeme.place 0 (Lexeme.fuse TokenStream.defaultMerge (Lexeme.ofChars text.toList))

end RSource
