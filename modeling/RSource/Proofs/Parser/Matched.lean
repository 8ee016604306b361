import RSource.Proofs.Parser.Loosened

/-! Parsers that match.  Two parsers match when the second, on items with more line ends that are
layout, finds what the first finds and no problem either, as long as the first finds none.  Every
combinator keeps to this. -/

namespace RSource

namespace Outline

mutual
/-- The outline without the places of its tokens. -/
def bare : Outline → Outline
  | .token _ => .token 0
  | .node kind os => .node kind (forestBare os)

def forestBare : List Outline → List Outline
  | [] => []
  | o :: os => o.bare :: forestBare os
end

@[simp] theorem forestBare_append (os ps : List Outline) :
    forestBare (os ++ ps) = forestBare os ++ forestBare ps := by
  induction os with
  | nil => rfl
  | cons o os ih => rw [List.cons_append, forestBare, ih, forestBare, List.cons_append]

end Outline

open TokenKind

namespace Parser

variable {α β : Type}

/-- From cursors that satisfy `pre`, where line ends count as told, the second parser finds on more
line ends what the first finds without a problem; `post` relates what they give, and the cursor. -/
def Matches (lines : Bool) (pre : Cursor → Prop) (p q : Parser α)
    (post : α → α → Cursor → Prop) : Prop :=
  ∀ context c d, context.newlinesTerminate = lines → c.Loosened d → pre c →
    (p context c).errors = [] →
      (q context d).errors = [] ∧ (p context c).cursor.Loosened (q context d).cursor ∧
        post (p context c).value (q context d).value (p context c).cursor

/-- The parser is indifferent to more line ends. -/
abbrev Keeps (lines : Bool) (pre : Cursor → Prop) (p : Parser α)
    (post : α → α → Cursor → Prop) : Prop := Matches lines pre p p post

/-- The rows have the same outlines. -/
def Rows (post : Cursor → Prop) (os ps : List Outline) (c : Cursor) : Prop :=
  Outline.forestBare ps = Outline.forestBare os ∧ post c

def Trees (post : Cursor → Prop) (o p : Outline) (c : Cursor) : Prop := p.bare = o.bare ∧ post c

/-- Both give something or neither does. -/
def Maybe (found : α → α → Cursor → Prop) (missed : Cursor → Prop) :
    Option α → Option α → Cursor → Prop
  | some a, some b, c => found a b c
  | none, none, c => missed c
  | _, _, _ => False

variable {lines : Bool} {pre pre' mid : Cursor → Prop} {p q : Parser α}
variable {post post' : α → α → Cursor → Prop} {P Q : Cursor → Prop}

theorem Matches.weaken (h : Matches lines pre p q post) (hpre : ∀ c, pre' c → pre c)
    (hpost : ∀ a b c, post a b c → post' a b c) : Matches lines pre' p q post' := by
  intro context c d hlines hloose hc hnone
  obtain ⟨herrors, hnext, hresult⟩ := h context c d hlines hloose (hpre c hc) hnone
  exact ⟨herrors, hnext, hpost _ _ _ hresult⟩

theorem Matches.of_pre (h : Matches lines pre p q post) (hpre : ∀ c, pre' c → pre c) :
    Matches lines pre' p q post := h.weaken hpre fun _ _ _ h => h

theorem matches_pure {a b : α} (h : ∀ c, pre c → post a b c) :
    Matches lines pre (pure a) (pure b) post :=
  fun _ c _ _ hloose hc _ => ⟨rfl, hloose, h c hc⟩

/-- What always finds a problem matches anything. -/
theorem matches_of_errors (h : ∀ context c, pre c → (p context c).errors ≠ []) :
    Matches lines pre p q post :=
  fun context c _ _ _ hc hnone => absurd hnone (h context c hc)

theorem matches_of_false (h : ∀ c, ¬pre c) : Matches lines pre p q post :=
  fun _ c _ _ _ hc _ => absurd hc (h c)

theorem Matches.bind {between : α → α → Cursor → Prop} {f g : α → Parser β}
    {post : β → β → Cursor → Prop} (h : Matches lines pre p q between)
    (hf : ∀ a b, Matches lines (between a b) (f a) (g b) post) :
    Matches lines pre (p >>= f) (q >>= g) post := by
  intro context c d hlines hloose hc hnone
  rw [bind_apply] at hnone ⊢
  rw [bind_apply]
  obtain ⟨hfirst, hsecond⟩ := List.append_eq_nil_iff.mp hnone
  obtain ⟨herrors, hnext, hbetween⟩ := h context c d hlines hloose hc hfirst
  obtain ⟨herrors', hlast, hpost⟩ := hf _ _ context _ _ hlines hnext hbetween hsecond
  exact ⟨by rw [herrors, herrors', List.append_nil], hlast, hpost⟩

/-- What goes on with what is found, or without. -/
theorem Matches.option {p q : Parser (Option α)} {found : α → α → Cursor → Prop}
    {missed : Cursor → Prop} {f g : Option α → Parser β} {post : β → β → Cursor → Prop}
    (h : Matches lines pre p q (Maybe found missed))
    (hsome : ∀ a b, Matches lines (found a b) (f (some a)) (g (some b)) post)
    (hnone : Matches lines missed (f none) (g none) post) :
    Matches lines pre (p >>= f) (q >>= g) post :=
  h.bind fun
    | some a, some b => hsome a b
    | none, none => hnone
    | some _, none => matches_of_false fun _ hc => hc
    | none, some _ => matches_of_false fun _ hc => hc

/-- A fact that does not depend on the cursor. -/
theorem Matches.assume {fact : Prop} (h : fact → Matches lines pre p q post) :
    Matches lines (fun c => fact ∧ pre c) p q post :=
  fun context c d hlines hloose hc => h hc.1 context c d hlines hloose hc.2

/-! ### Looking -/

theorem Matches.look {f : Cursor → α} {g g' : α → Parser β} {post : β → β → Cursor → Prop}
    (hf : ∀ c d, c.Loosened d → pre c → f d = f c)
    (hg : ∀ a, Matches lines (fun c => pre c ∧ f c = a) (g a) (g' a) post) :
    Matches lines pre (Parser.look f >>= g) (Parser.look f >>= g') post := by
  intro context c d hlines hloose hc
  rw [look_bind, look_bind, hf c d hloose hc]
  exact hg (f c) context c d hlines hloose ⟨hc, rfl⟩

/-- What is decided by a fact that holds behind more line ends too; without it there is a problem.
-/
theorem Matches.look_mono {f : Cursor → Bool} {g g' : Bool → Parser α}
    (hf : ∀ c d, c.Loosened d → f c = true → f d = true)
    (htrue : Matches lines pre (g true) (g' true) post)
    (hfalse : ∀ context c, (g false context c).errors ≠ []) :
    Matches lines pre (Parser.look f >>= g) (Parser.look f >>= g') post := by
  intro context c d hlines hloose hc
  rw [look_bind, look_bind]
  cases hvalue : f c with
  | false => exact fun hnone => absurd hnone (hfalse context c)
  | true =>
    rw [hf c d hloose hvalue]
    exact htrue context c d hlines hloose hc

/-- What is decided by a kind. -/
theorem Matches.ite {f : Cursor → Bool} {p' q' : Parser α}
    (hf : ∀ c d, c.Loosened d → pre c → f d = f c)
    (htrue : Matches lines (fun c => pre c ∧ f c = true) p q post)
    (hfalse : Matches lines (fun c => pre c ∧ f c = false) p' q' post) :
    Matches lines pre (Parser.look f >>= fun b => if b = true then p else p')
      (Parser.look f >>= fun b => if b = true then q else q') post :=
  .look hf fun
    | true => htrue
    | false => hfalse

theorem Matches.kind {g g' : TokenKind → Parser β} {post : β → β → Cursor → Prop}
    (hg : ∀ k, Matches lines (fun c => pre c ∧ c.kind = k) (g k) (g' k) post) :
    Matches lines pre (Parser.kind >>= g) (Parser.kind >>= g') post :=
  .look (fun _ _ h _ => h.kind_eq) hg

theorem Matches.isAt {k : TokenKind} {p' q' : Parser α}
    (htrue : Matches lines (fun c => pre c ∧ c.kind = k) p q post)
    (hfalse : Matches lines (fun c => pre c ∧ c.kind ≠ k) p' q' post) :
    Matches lines pre (Parser.isAt k >>= fun b => if b = true then p else p')
      (Parser.isAt k >>= fun b => if b = true then q else q') post :=
  .ite (fun _ _ h _ => by rw [h.kind_eq])
    (htrue.of_pre fun _ h => ⟨h.1, beq_iff_eq.mp h.2⟩)
    (hfalse.of_pre fun _ h => ⟨h.1, beq_eq_false_iff_ne.mp h.2⟩)

/-- A line end in front of the cursor is asked for where there are no more of them. -/
theorem Matches.newlineBreaks {s : List TokenKind} {g g' : Bool → Parser β}
    {post : β → β → Cursor → Prop} (hsettled : ∀ c, pre c → c.Settled s)
    (hg : ∀ b, Matches (linesCount s) pre (g b) (g' b) post) :
    Matches (linesCount s) pre (Parser.newlineBreaks 0 >>= g) (Parser.newlineBreaks 0 >>= g')
      post := by
  intro context c d hlines hloose hc
  have hbreaks : (context.newlinesTerminate && (d.ahead 0).newlineBefore) =
      (context.newlinesTerminate && (c.ahead 0).newlineBefore) := by
    rw [hlines]
    cases hs : linesCount s with
    | false => rfl
    | true => exact hloose.line_eq (hsettled c hc) hs
  rw [newlineBreaks_bind, newlineBreaks_bind, hbreaks]
  exact hg _ context c d hlines hloose hc

/-! ### Reading -/

/-- What holds after the item at the cursor is taken up. -/
theorem keeps_bump (hend : ∀ c, pre c → c.kind ≠ .endOfFile)
    (h : ∀ c, pre c → ∀ d : Cursor, d.past = c.kind :: c.past → d.kind = c.kindAhead 1 → P d) :
    Keeps lines pre bump (Rows P) := by
  intro context c d _ hloose hc _
  have hc' : c.atEnd = false := beq_eq_false_iff_ne.mpr (hend c hc)
  have hd' : d.atEnd = false := by rw [hloose.atEnd_eq, hc']
  refine ⟨rfl, hloose.advance hc', ?_, h c hc _ (hloose.after_eq hc').1 (Cursor.kind_advance hc')⟩
  have hindex := hloose.isSome_index
  rw [bump, bump, hc', hd']
  cases hi : c.here.index with
  | none =>
    rw [hi, Option.isSome_none, Option.isSome_eq_false_iff, Option.isNone_iff_eq_none] at hindex
    rw [hindex]
  | some i =>
    rw [hi, Option.isSome_some, Option.isSome_iff_exists] at hindex
    obtain ⟨j, hj⟩ := hindex
    rw [hj]
    rfl

theorem report_errors_ne_nil (problem : Problem) (f : Unit → Parser α) (context : Context)
    (c : Cursor) : ((report problem >>= f) context c).errors ≠ [] := by
  rw [bind_apply]
  exact List.cons_ne_nil _ _

/-- Behind a problem anything matches. -/
theorem matches_report {problem : Problem} {f g : Unit → Parser α} :
    Matches lines pre (report problem >>= f) (report problem >>= g) post :=
  matches_of_errors fun context c _ => report_errors_ne_nil problem f context c

theorem keeps_expect {k : TokenKind} {problem : TokenKind → Problem}
    (h : Keeps lines (fun c => pre c ∧ c.kind = k) bump (Rows P)) :
    Keeps lines pre (expect k problem) (Rows P) :=
  .isAt h (.kind fun _ => matches_report)

/-! ### Rows and nodes -/

theorem Matches.row {ps qs : List Part} {p q : Part} (h : Matches lines pre p q (Rows mid))
    (h' : Matches lines mid (row ps) (row qs) (Rows P)) :
    Matches lines pre (row (p :: ps)) (row (q :: qs)) (Rows P) :=
  h.bind fun os os' => .assume fun hos => h'.bind fun ps ps' =>
    .assume fun hps => matches_pure fun c hc =>
      ⟨by rw [Outline.forestBare_append, Outline.forestBare_append, hos, hps], hc⟩

theorem keeps_nil : Keeps lines P (Parser.row []) (Rows P) := matches_pure fun _ hc => ⟨rfl, hc⟩

theorem Matches.single {p q : Part} (h : Matches lines pre p q (Rows P)) :
    Matches lines pre (Parser.row [p]) (Parser.row [q]) (Rows P) := h.row keeps_nil

theorem Matches.node {ps qs : List Part} (kind : NodeKind)
    (h : Matches lines pre (Parser.row ps) (Parser.row qs) (Rows P)) :
    Matches lines pre (node kind ps) (node kind qs) (Trees P) :=
  h.bind fun os os' => .assume fun hos => matches_pure fun _ hc =>
    ⟨by rw [Outline.bare, Outline.bare, hos], hc⟩

theorem Matches.one {p q : Parser Outline} (h : Matches lines pre p q (Trees P)) :
    Matches lines pre (one p) (one q) (Rows P) :=
  h.bind fun o o' => .assume fun ho => matches_pure fun _ hc =>
    ⟨by rw [Outline.forestBare, ho]; rfl, hc⟩

theorem Matches.leaf {kind : NodeKind} (h : Keeps lines pre bump (Rows P)) :
    Keeps lines pre (leaf kind) (Trees P) := h.single.node kind

theorem Matches.found (h : Matches lines pre p q post) :
    Matches lines pre (do return some (← p)) (do return some (← q)) (Maybe post Q) :=
  h.bind fun _ _ => matches_pure fun _ hc => hc

/-! ### Repetition -/

theorem keeps_manyFor {p : Parser (Option (List Outline))}
    (h : Keeps lines P p (Maybe (Rows P) P)) (items : List Item) :
    Keeps lines P (manyFor p items) (Rows P) := by
  induction items with
  | nil => exact keeps_nil
  | cons item items ih =>
    refine h.option (fun os os' => .assume fun hos => ih.bind fun ps ps' => .assume fun hps => ?_)
      keeps_nil
    exact matches_pure fun c hc =>
      ⟨by rw [Outline.forestBare_append, Outline.forestBare_append, hos, hps], hc⟩

theorem keeps_many {p : Parser (Option (List Outline))}
    (h : Keeps lines P p (Maybe (Rows P) P)) : Keeps lines P (many p) (Rows P) := by
  rw [many_eq]
  exact .look (fun _ _ hloose _ => hloose.items.length_eq) fun n =>
    (keeps_manyFor h _).of_pre fun _ hc => hc.1

theorem matches_growFor {step : Outline → Parser (Option Outline)}
    (h : ∀ o o', o'.bare = o.bare → Matches lines P (step o) (step o') (Maybe (Trees P) P))
    (items : List Item) : ∀ o o', o'.bare = o.bare →
      Matches lines P (growFor step items o) (growFor step items o') (Trees P) := by
  induction items with
  | nil => exact fun o o' ho => matches_pure fun _ hc => ⟨ho, hc⟩
  | cons item items ih =>
    exact fun o o' ho => (h o o' ho).option (fun p p' => .assume fun hp => ih p p' hp)
      (matches_pure fun _ hc => ⟨ho, hc⟩)

theorem matches_grow {step : Outline → Parser (Option Outline)}
    (h : ∀ o o', o'.bare = o.bare → Matches lines P (step o) (step o') (Maybe (Trees P) P))
    {o o' : Outline} (ho : o'.bare = o.bare) :
    Matches lines P (grow step o) (grow step o') (Trees P) := by
  rw [grow_eq, grow_eq]
  exact .look (fun _ _ hloose _ => hloose.items.length_eq) fun n =>
    (matches_growFor h _ o o' ho).of_pre fun _ hc => hc.1

end Parser

end RSource
