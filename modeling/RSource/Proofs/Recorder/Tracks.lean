import RSource.Proofs.Parser.Reading
import RSource.Proofs.Recorder.Described
import RSource.Recorder.Basic

/-! Recorders beside parsers.  A recorder tracks a parser if from every state it comes to an end and
goes where the parser goes, leaves the flags of the region as they were, puts the errors of the
parser into the log, and adds events that say what the parser gives.  It does so where there is
room: where few enough items are left, and where the item it begins with is there. -/

namespace RSource

open Recorder

variable {α β γ δ : Type} {tokens : List Token} {n : Nat} {led : Bool}

theorem Cursor.atEnd_eq_false_of_kind {c : Cursor} {k : TokenKind} (hk : k ≠ .endOfFile)
    (h : (c.kind == k) = true) : c.atEnd = false := by
  rw [atEnd, beq_iff_eq.mp h, beq_eq_false_iff_ne]
  exact hk

/-- Fewer than `n` items come after the cursor.  A production that is led by a token may begin one
item earlier, but not at the end. -/
structure Cursor.Room (tokens : List Token) (n : Nat) (led : Bool) (c : Cursor) : Prop where
  isOver : c.Over tokens
  few : c.remaining < n + led.toNat
  inside : led = true → c.atEnd = false

namespace Cursor.Room

variable {c d : Cursor} {xs : List Item}

theorem reads (h : c.Room tokens n led) (hr : c.Reads xs d) (hled : led.toNat ≤ xs.length) :
    d.Room tokens n false := by
  have hfew := h.few
  have hremaining := hr.remaining
  refine ⟨h.isOver.reads hr, ?_, fun hfalse => (nomatch hfalse)⟩
  rw [Bool.toNat_false]
  omega

theorem mono {m : Nat} (h : c.Room tokens n false) (hmn : n ≤ m) : c.Room tokens m false :=
  ⟨h.isOver, Nat.lt_of_lt_of_le h.few hmn, h.inside⟩

/-- What is led by a token may begin at an item that is there. -/
theorem lead (h : c.Room tokens (n + 1) false) (hend : c.atEnd = false) : c.Room tokens n true :=
  ⟨h.isOver, h.few, fun _ => hend⟩

end Cursor.Room

/-- What the values of a recorder and a parser have to do with the events that are added, when there
are `n` events before these. -/
abbrev Sense (α β : Type) : Type := Nat → α → β → List Event → Prop

/-- A recorder is done where a parser comes to an outcome, and `before` are the events that do not
count as added.  It has read at least the item that it is led by. -/
structure Step (led : Bool) (R : Sense α β) (before : List Event) (s : Recording)
    (done : α × Recording) (outcome : Outcome β) : Prop where
  cursor : done.2.cursor = outcome.cursor
  reads : ∃ xs, led.toNat ≤ xs.length ∧ s.cursor.Reads xs done.2.cursor
  context : done.2.context = s.context
  log : done.2.log = outcome.errors.foldl ErrorLog.record s.log
  events : ∃ es, done.2.events = before ++ es ∧ R before.length done.1 outcome.value es

/-- A recorder comes to an end where the parser comes to an outcome. -/
def Comes (led : Bool) (R : Sense α β) (before : List Event) (s : Recording)
    (result : Option (α × Recording)) (outcome : Outcome β) : Prop :=
  ∃ done, result = some done ∧ Step led R before s done outcome

/-- From every state with room the recorder does what the parser does. -/
def Tracks (tokens : List Token) (n : Nat) (led : Bool) (R : Sense α β) (x : Recorder α)
    (p : Parser β) : Prop :=
  ∀ s : Recording, s.cursor.Room tokens n led →
    Comes led R s.events s (x s) (p s.context s.cursor)

/-! ### What events say about values -/

/-- The added events read as the outlines of a part. -/
def Rows : Sense α (List Outline) := fun _ _ os es => Describes es os

/-- The added events read as a node, the one that is completed. -/
def Whole : Sense Completed Outline := fun n c o es =>
  ∃ last, c.place = n + last ∧ DescribesOne none es last o

/-- The added events read as a node, the one that is completed; or there is none, and the added
events are `otherwise`. -/
def Perhaps (otherwise : List Event) : Sense (Option Completed) (Option Outline)
  | n, some c, some o, es => Whole n c o es
  | _, none, none, es => es = otherwise
  | _, _, _, _ => False

/-- The step of a loop is done with something, or it ends the loop and adds nothing. -/
def Goes : Sense Bool (Option (List Outline))
  | _, true, some os, es => Describes es os
  | _, false, none, es => es = []
  | _, _, _, _ => False

theorem Goes.isSome_eq {go : Bool} {os? : Option (List Outline)} {es : List Event}
    (h : Goes n go os? es) : os?.isSome = go := by
  match go, os?, h with
  | true, some _, _ => rfl
  | false, none, _ => rfl

theorem Parser.bind_pure_apply (p : Parser α) (f : α → β) (context : Context) (c : Cursor) :
    (p >>= fun a => pure (f a)) context c =
      ⟨f (p context c).value, (p context c).cursor, (p context c).errors⟩ := by
  rw [bind_apply, pure_apply, List.append_nil]

theorem Parser.one_bind_pure (p : Parser Outline) (f : List Outline → α) :
    (one p >>= fun os => pure (f os)) = p >>= fun o => pure (f [o]) := by
  funext context c
  rw [bind_pure_apply, one, bind_pure_apply, bind_pure_apply]

theorem Parser.row_singleton (p : Part) : row [p] = p := by
  funext context c
  simp [row, bind_apply]

/-- A recorder goes on from where one before it is done. -/
theorem Recorder.bind_apply {x : Recorder α} {f : α → Recorder β} {s : Recording}
    {done : α × Recording} (h : x s = some done) : (x >>= f) s = f done.1 done.2 := by
  show (x s).bind _ = _
  rw [h]
  rfl

theorem Recorder.bind_pure_apply {x : Recorder α} (f : α → β) {s : Recording}
    {done : α × Recording} (h : x s = some done) :
    (x >>= fun a => pure (f a)) s = some (f done.1, done.2) := bind_apply h

theorem Recorder.look_bind (f : Cursor → α) (g : α → Recorder β) (s : Recording) :
    (look f >>= g) s = g (f s.cursor) s := rfl

theorem Recorder.start_bind (f : Marker → Recorder α) (s : Recording) :
    (start >>= f) s = f s.marker { s with events := s.events ++ [.tombstone] } := rfl

namespace Step

variable {R : Sense α β} {before : List Event} {s : Recording} {done : α × Recording}
variable {outcome : Outcome β}

/-- The values may be others, and so may be what the events say about them. -/
theorem map {R' : Sense γ δ} (h : Step led R before s done outcome) (f : α → γ) (g : β → δ)
    (hR : ∀ n a b es, R n a b es → R' n (f a) (g b) es) :
    Step led R' before s (f done.1, done.2) ⟨g outcome.value, outcome.cursor, outcome.errors⟩ := by
  obtain ⟨es, hes, hvalue⟩ := h.events
  exact ⟨h.cursor, h.reads, h.context, h.log, es, hes, hR _ _ _ _ hvalue⟩

theorem weaken (h : Step led R before s done outcome) : Step false R before s done outcome :=
  ⟨h.cursor, h.reads.imp fun _ hxs => ⟨Nat.zero_le _, hxs.2⟩, h.context, h.log, h.events⟩

/-- A step that moves the cursor reads something. -/
theorem strengthen (h : Step false R before s done outcome)
    (hmoves : outcome.cursor.remaining < s.cursor.remaining) :
    Step true R before s done outcome := by
  obtain ⟨xs, -, hreads⟩ := h.reads
  have hremaining := hreads.remaining
  rw [h.cursor] at hremaining
  refine ⟨h.cursor, ⟨xs, ?_, hreads⟩, h.context, h.log, h.events⟩
  rw [Bool.toNat_true]
  omega

theorem remaining_lt (h : Step true R before s done outcome) :
    done.2.cursor.remaining < s.cursor.remaining := by
  obtain ⟨xs, hled, hreads⟩ := h.reads
  have hremaining := hreads.remaining
  rw [Bool.toNat_true] at hled
  omega

theorem room (h : Step led R before s done outcome) (hs : s.cursor.Room tokens n led) :
    done.2.cursor.Room tokens n false := by
  obtain ⟨xs, hled, hreads⟩ := h.reads
  exact hs.reads hreads hled

/-- What is read after a step that is led by a token is led by it too. -/
theorem trans {R' : Sense γ δ} {done' : γ × Recording} {outcome' : Outcome δ}
    (h : Step led R before s done outcome) (h' : Step false R' before done.2 done' outcome') :
    Step led R' before s done'
      ⟨outcome'.value, outcome'.cursor, outcome.errors ++ outcome'.errors⟩ := by
  obtain ⟨xs, hled, hreads⟩ := h.reads
  obtain ⟨ys, -, hreads'⟩ := h'.reads
  refine ⟨h'.cursor, ⟨xs ++ ys, ?_, hreads.trans hreads'⟩, h'.context.trans h.context, ?_,
    h'.events⟩
  · rw [List.length_append]
    omega
  · rw [List.foldl_append, ← h.log]
    exact h'.log

end Step

/-- What comes after a step goes on from where it is done. -/
theorem Step.bind {R : Sense α β} {R' : Sense γ δ} {before : List Event} {s : Recording}
    {x : Recorder α} {p : Parser β} {f : α → Recorder γ} {g : β → Parser δ} {done : α × Recording}
    (h : Step led R before s done (p s.context s.cursor)) (hdone : x s = some done)
    (hrest : Comes false R' before done.2 (f done.1 done.2)
      (g (p s.context s.cursor).value done.2.context done.2.cursor)) :
    Comes led R' before s ((x >>= f) s) ((p >>= g) s.context s.cursor) := by
  obtain ⟨done', hdone', hstep⟩ := hrest
  rw [h.cursor, h.context] at hstep
  exact ⟨done', (Recorder.bind_apply hdone).trans hdone', h.trans hstep⟩

namespace Comes

variable {R : Sense α β} {R' : Sense γ δ} {before : List Event} {s : Recording}

theorem bind {x : Recorder α} {p : Parser β} {f : α → Recorder γ} {g : β → Parser δ}
    (hs : s.cursor.Room tokens n led)
    (hx : Comes led R before s (x s) (p s.context s.cursor))
    (hf : ∀ a b t es, t.cursor.Room tokens n false → t.events = before ++ es →
      R before.length a b es → Comes false R' before t (f a t) (g b t.context t.cursor)) :
    Comes led R' before s ((x >>= f) s) ((p >>= g) s.context s.cursor) := by
  obtain ⟨done, hdone, hstep⟩ := hx
  obtain ⟨es, hes, hR⟩ := hstep.events
  exact hstep.bind hdone (hf _ _ _ es (hstep.room hs) hes hR)

theorem map {x : Recorder α} {p : Parser β} (f : α → γ) (g : β → δ)
    (hx : Comes led R before s (x s) (p s.context s.cursor))
    (hR : ∀ n a b es, R n a b es → R' n (f a) (g b) es) :
    Comes led R' before s ((x >>= fun a => pure (f a)) s)
      ((p >>= fun b => pure (g b)) s.context s.cursor) := by
  obtain ⟨done, hdone, hstep⟩ := hx
  rw [Parser.bind_pure_apply, Recorder.bind_pure_apply f hdone]
  exact ⟨_, rfl, hstep.map f g hR⟩

theorem look_bind (f : Cursor → γ) {g : γ → Recorder α} {h : γ → Parser β}
    (H : Comes led R before s (g (f s.cursor) s) (h (f s.cursor) s.context s.cursor)) :
    Comes led R before s ((look f >>= g) s) ((Parser.look f >>= h) s.context s.cursor) := H

theorem ite (b : Bool) {x y : Recorder α} {p q : Parser β}
    (hx : b = true → Comes led R before s (x s) (p s.context s.cursor))
    (hy : b = false → Comes led R before s (y s) (q s.context s.cursor)) :
    Comes led R before s ((if b then x else y) s) ((if b then p else q) s.context s.cursor) := by
  cases b with
  | true => exact hx rfl
  | false => exact hy rfl

theorem weaken {result : Option (α × Recording)} {outcome : Outcome β}
    (h : Comes led R before s result outcome) : Comes false R before s result outcome := by
  obtain ⟨done, hdone, hstep⟩ := h
  exact ⟨done, hdone, hstep.weaken⟩

theorem report_bind (problem : Problem) {x : Recorder α} {p : Parser β}
    (h : ∀ log, Comes led R before { s with log } (x { s with log }) (p s.context s.cursor)) :
    Comes led R before s ((report problem >>= fun _ => x) s)
      ((Parser.report problem >>= fun _ => p) s.context s.cursor) := by
  obtain ⟨done, hdone, hstep⟩ := h (s.log.record ⟨s.cursor.position, problem,
    if s.cursor.atEnd then .point s.cursor.span.start else s.cursor.span⟩)
  exact ⟨done, hdone, hstep.cursor, hstep.reads, hstep.context, hstep.log, hstep.events⟩

/-- The events before can be more than those that do not count, and the parser can go on with what
it has. -/
theorem after {S : Sense α β} {R' : Sense α δ} {es : List Event} {result : Option (α × Recording)}
    {q : Parser β} {f : β → δ} (h : Comes led S s.events s result (q s.context s.cursor))
    (hes : s.events = before ++ es)
    (hR : ∀ a b es', S (before.length + es.length) a b es' → R' before.length a (f b) (es ++ es')) :
    Comes led R' before s result ((q >>= fun b => pure (f b)) s.context s.cursor) := by
  obtain ⟨done, hdone, hstep⟩ := h
  obtain ⟨es', hes', hvalue⟩ := hstep.events
  rw [hes, List.append_assoc] at hes'
  rw [hes, List.length_append] at hvalue
  rw [Parser.bind_pure_apply]
  exact ⟨done, hdone, hstep.cursor, hstep.reads, hstep.context, hstep.log, es ++ es', hes',
    hR _ _ _ hvalue⟩

/-- Nothing is read, written down or added. -/
theorem pure {a : α} {b : β} {es : List Event} (hevents : s.events = before ++ es)
    (hR : R before.length a b es) :
    Comes false R before s ((Pure.pure a : Recorder α) s)
      ((Pure.pure b : Parser β) s.context s.cursor) :=
  ⟨(a, s), rfl, rfl, ⟨[], Nat.zero_le _, .refl _⟩, rfl, rfl, es, hevents, hR⟩

end Comes

namespace Tracks

variable {R : Sense α β} {x y : Recorder α} {p q : Parser β}

/-- What is led by a token does what the parser does wherever the token is there. -/
theorem at_inside (h : Tracks tokens n true R x p) {s : Recording}
    (hs : s.cursor.Room tokens (n + 1) false) (hend : s.cursor.atEnd = false) :
    Comes true R s.events s (x s) (p s.context s.cursor) :=
  h s (hs.lead hend)

/-! ### Looking and sequence -/

theorem look_bind (f : Cursor → γ) {g : γ → Recorder α} {h : γ → Parser β}
    (H : ∀ a, Tracks tokens n led R (g a) (h a)) :
    Tracks tokens n led R (look f >>= g) (Parser.look f >>= h) :=
  fun s hs => Comes.look_bind f (H _ s hs)

theorem ite (b : Bool) (hx : Tracks tokens n led R x p) (hy : Tracks tokens n led R y q) :
    Tracks tokens n led R (if b then x else y) (if b then p else q) :=
  fun s hs => Comes.ite b (fun _ => hx s hs) fun _ => hy s hs

theorem look_ite (f : Cursor → Bool) (hx : Tracks tokens n led R x p)
    (hy : Tracks tokens n led R y q) :
    Tracks tokens n led R (look f >>= fun b => if b then x else y)
      (Parser.look f >>= fun b => if b then p else q) :=
  look_bind f fun b => ite b hx hy

/-- What is led by a token of a kind, where such a token is looked for. -/
theorem isAt_ite {k : TokenKind} (hk : k ≠ .endOfFile) (hx : Tracks tokens n true R x p)
    (hy : Tracks tokens n false R y q) :
    Tracks tokens n false R (isAt k >>= fun b => if b then x else y)
      (Parser.isAt k >>= fun b => if b then p else q) := by
  intro s hs
  refine Comes.look_bind _ (Comes.ite _ (fun hkind => ?_) fun _ => hy s hs)
  exact (hx.at_inside (hs.mono (Nat.le_succ n)) (Cursor.atEnd_eq_false_of_kind hk hkind)).weaken

theorem report_bind (problem : Problem) (h : Tracks tokens n led R x p) :
    Tracks tokens n led R (report problem >>= fun _ => x)
      (Parser.report problem >>= fun _ => p) :=
  fun _ hs => Comes.report_bind problem fun _ => h _ hs

/-- What is tracked in one row after another is tracked in the row of both. -/
theorem bind_map {R : Sense α (List Outline)} {R' : Sense γ δ} {x : Recorder α} {p : Part}
    {y : α → Recorder γ} {q : Parser β} {S : Sense γ β} {f : List Outline → β → δ}
    (hx : Tracks tokens n led R x p) (hy : ∀ a, Tracks tokens n false S (y a) q)
    (hf : ∀ n a os es c b es', R n a os es → S (n + es.length) c b es' →
      R' n c (f os b) (es ++ es')) :
    Tracks tokens n led R' (x >>= y) (p >>= fun os => q >>= fun b => pure (f os b)) := by
  intro s hs
  exact (hx s hs).bind hs fun a os t es ht hes hR =>
    (hy a t ht).after hes fun c b es' => hf _ _ _ _ c b es' hR

theorem map {R' : Sense γ δ} {f : α → γ} {g : β → δ} (h : Tracks tokens n led R x p)
    (hR : ∀ n a b es, R n a b es → R' n (f a) (g b) es) :
    Tracks tokens n led R' (x >>= fun a => pure (f a)) (p >>= fun b => pure (g b)) :=
  fun s hs => (h s hs).map f g hR

/-! ### Rows -/

theorem pure (a : α) : Tracks tokens n false Rows (Pure.pure a) (Pure.pure []) :=
  fun _ _ => Comes.pure (List.append_nil _).symm .nil

theorem bump : Tracks tokens n led Rows Recorder.bump Parser.bump := by
  intro s hs
  have hbump : Recorder.bump s = some ((), if s.cursor.atEnd then s else { s with
      cursor := s.cursor.advance
      events := s.events ++ (s.cursor.here.index.map Event.token).toList }) := rfl
  refine ⟨_, hbump, ?_⟩
  cases hend : s.cursor.atEnd with
  | true =>
    have hled : led = false := Bool.eq_false_iff.mpr fun hled => by
      rw [hs.inside hled] at hend
      cases hend
    rw [Parser.bump, Cursor.advance_atEnd hend, hend, hled]
    exact ⟨rfl, ⟨[], Nat.zero_le _, .refl _⟩, rfl, rfl, [], (List.append_nil _).symm, .nil⟩
  | false =>
    rw [Parser.bump, hend]
    refine ⟨rfl, ⟨[s.cursor.here], Bool.toNat_le led, hs.isOver.advance hend⟩, rfl, rfl, _, rfl, ?_⟩
    cases s.cursor.here.index with
    | none => exact .nil
    | some i => exact .token i .nil

theorem report (problem : Problem) : Tracks tokens n false Rows (Recorder.report problem)
    (Parser.report problem >>= fun _ => Pure.pure []) := by
  intro s hs
  refine ⟨_, rfl, rfl, ⟨[], Nat.zero_le _, .refl _⟩, rfl, rfl, [], ?_, .nil⟩
  exact (List.append_nil _).symm

theorem seq {x : Recorder α} {y : Recorder β} {p : Part} {ps : List Part}
    (hx : Tracks tokens n led Rows x p) (hy : Tracks tokens n false Rows y (Parser.row ps)) :
    Tracks tokens n led Rows (x >>= fun _ => y) (Parser.row (p :: ps)) :=
  bind_map hx (fun _ => hy) fun _ _ _ _ _ _ _ => Describes.append

theorem row_singleton {x : Recorder α} {p : Part} (h : Tracks tokens n led Rows x p) :
    Tracks tokens n led Rows x (Parser.row [p]) := by
  rw [Parser.row_singleton]
  exact h

/-- What a recorder answers makes no difference to the row. -/
theorem answer {x : Recorder α} {p : Part} (h : Tracks tokens n led Rows x p) (a : β) :
    Tracks tokens n led Rows (x >>= fun _ => Pure.pure a) p := by
  intro s hs
  obtain ⟨done, hdone, hstep⟩ := h s hs
  exact ⟨_, Recorder.bind_pure_apply (fun _ => a) hdone,
    hstep.map (fun _ => a) id fun _ _ _ _ hrows => hrows⟩

theorem discard {x : Recorder α} {p : Part} (h : Tracks tokens n led Rows x p) :
    Tracks tokens n led Rows (Functor.discard x) p :=
  answer h ()

theorem within (change : Context → Context) (h : Tracks tokens n led R x p) :
    Tracks tokens n led R (Recorder.within change x) (Parser.within change p) := by
  intro s hs
  obtain ⟨done, hdone, hstep⟩ := h { s with context := change s.context } hs
  have hwithin : Recorder.within change x s =
      some (done.1, { done.2 with context := s.context }) := by
    show (x { s with context := change s.context }).bind _ = _
    rw [hdone]
    rfl
  exact ⟨_, hwithin, hstep.cursor, hstep.reads, rfl, hstep.log, hstep.events⟩

end Tracks

/-! ### Markers -/

/-- A node that is completed stands where it was opened. -/
theorem Marker.complete_apply {m : Marker} {s : Recording} {before es : List Event}
    (hevents : s.events = before ++ .tombstone :: es) (hplace : m.place = before.length)
    (kind : NodeKind) : m.complete kind s =
      some (⟨before.length⟩, { s with events := before ++ Event.enclose kind none es }) := by
  have hhere : (s.events[m.place]?).bind Event.link? = none := by
    rw [hevents, hplace, List.getElem?_append_right (Nat.le_refl _), Nat.sub_self]
    rfl
  have hset : s.events.set m.place (.start kind ((s.events[m.place]?).bind Event.link?)) ++
      [.finish] = before ++ Event.enclose kind none es := by
    rw [hhere, hevents, hplace, List.set_append_right _ _ (Nat.le_refl _), Nat.sub_self,
      List.append_assoc]
    rfl
  rw [← hset, ← hplace]
  rfl

/-- Where a marker is abandoned, what was read since says the same without its node. -/
theorem Marker.abandon_apply {m : Marker} {s : Recording} {before es : List Event}
    {os : List Outline} (hevents : s.events = before ++ .tombstone :: es)
    (hplace : m.place = before.length) (h : Describes es os) :
    ∃ es', m.abandon s = some ((), { s with events := before ++ es' }) ∧ Describes es' os := by
  by_cases hlast : m.place + 1 = s.events.length
  · obtain rfl : es = [] := by
      rw [hevents, hplace, List.length_append, List.length_cons] at hlast
      exact List.length_eq_zero_iff.mp (by omega)
    have habandon : (if m.place + 1 = s.events.length then s.events.dropLast
        else s.events.set m.place .tombstone) = before ++ [] := by
      rw [if_pos hlast, hevents, List.dropLast_concat, List.append_nil]
    exact ⟨[], by rw [← habandon]; rfl, h⟩
  · have habandon : (if m.place + 1 = s.events.length then s.events.dropLast
        else s.events.set m.place .tombstone) = before ++ .tombstone :: es := by
      rw [if_neg hlast, hevents, hplace, List.set_append_right _ _ (Nat.le_refl _), Nat.sub_self,
        List.set_cons_zero]
    exact ⟨.tombstone :: es, by rw [← habandon]; rfl, .skip h⟩

/-- A node that is put around another is opened behind it, and the start of this gets a link. -/
theorem Completed.precede_apply {c : Completed} {s : Recording} {before es : List Event}
    {o : Outline} (hevents : s.events = before ++ es) (hwhole : Whole before.length c o es) :
    ∃ m es' last, c.precede s = some (m, { s with events := before ++ es' ++ [.tombstone] }) ∧
      m.place = (before ++ es').length ∧ DescribesOne (some (es'.length - last)) es' last o := by
  obtain ⟨last, hplace, h⟩ := hwhole
  obtain ⟨kind, hstart, hrelink⟩ := h.relink
  have hlt := h.lt
  have hat : (s.events ++ [Event.tombstone])[c.place]? = some (.start kind none) := by
    rw [hevents, hplace, List.append_assoc, List.getElem?_append_right (Nat.le_add_right _ _),
      Nat.add_sub_cancel_left, List.getElem?_append_left hlt, hstart]
  have hdistance : s.events.length - c.place = es.length - last := by
    rw [hevents, hplace, List.length_append]
    omega
  have hlinked : (s.events ++ [Event.tombstone]).modify c.place
      (Event.withLink (s.events.length - c.place)) =
        before ++ es.set last (.start kind (some (es.length - last))) ++ [.tombstone] := by
    rw [List.modify_eq_set_getElem?, hat, hdistance, hevents, hplace, List.append_assoc]
    show (before ++ (es ++ [Event.tombstone])).set (before.length + last) _ = _
    rw [List.set_append_right _ _ (Nat.le_add_right _ _), Nat.add_sub_cancel_left,
      List.set_append_left _ _ hlt, List.append_assoc]
    rfl
  refine ⟨s.marker, es.set last (.start kind (some (es.length - last))), last, ?_, ?_, ?_⟩
  · rw [← hlinked]
    rfl
  · rw [Recording.marker, hevents, List.length_append, List.length_append, List.length_set]
  · rw [List.length_set]
    exact hrelink _

/-- What is read while a marker is open stands behind the event that is kept for its start. -/
theorem Step.inside {s : Recording} {done : α × Recording} {outcome : Outcome (List Outline)}
    {before : List Event} (h : Step led Rows s.events s done outcome)
    (hevents : s.events = before ++ [.tombstone]) :
    ∃ es, done.2.events = before ++ .tombstone :: es ∧ Describes es outcome.value := by
  obtain ⟨es, hes, hrows⟩ := h.events
  refine ⟨es, ?_, hrows⟩
  rw [hes, hevents, List.append_assoc, List.singleton_append]

/-- A node that is completed holds what was read since it was opened. -/
theorem Comes.complete (m : Marker) (s : Recording) (hs : s.cursor.Room tokens n led)
    {before : List Event} (hevents : s.events = before ++ [.tombstone])
    (hplace : m.place = before.length) (kind : NodeKind) {body : Recorder α} {p : Part}
    (h : Tracks tokens n led Rows body p) :
    Comes led (fun n c os es => c = Completed.mk n ∧ ∃ es', es = Event.enclose kind none es' ∧
        Describes es' os) before s ((body >>= fun _ => m.complete kind) s)
      (p s.context s.cursor) := by
  obtain ⟨done, hdone, hstep⟩ := h s hs
  obtain ⟨es, hinside, hrows⟩ := hstep.inside hevents
  refine ⟨_, (Recorder.bind_apply hdone).trans (Marker.complete_apply hinside hplace kind), ?_⟩
  exact ⟨hstep.cursor, hstep.reads, hstep.context, hstep.log, _, rfl, rfl, es, rfl, hrows⟩

/-- A marker that is abandoned leaves what was read since. -/
theorem Comes.abandon (m : Marker) (s : Recording) (hs : s.cursor.Room tokens n led)
    {before : List Event} (hevents : s.events = before ++ [.tombstone])
    (hplace : m.place = before.length) {body : Recorder α} {p : Part}
    (h : Tracks tokens n led Rows body p) :
    Comes led Rows before s ((body >>= fun _ => m.abandon) s) (p s.context s.cursor) := by
  obtain ⟨done, hdone, hstep⟩ := h s hs
  obtain ⟨es, hinside, hrows⟩ := hstep.inside hevents
  obtain ⟨es', habandon, hrows'⟩ := Marker.abandon_apply hinside hplace hrows
  exact ⟨_, (Recorder.bind_apply hdone).trans habandon, hstep.cursor, hstep.reads, hstep.context,
    hstep.log, es', rfl, hrows'⟩

/-- A node around the last one that is completed. -/
theorem Comes.around {s : Recording} (hs : s.cursor.Room tokens n led) {c : Completed}
    {before es : List Event} {o : Outline} (hevents : s.events = before ++ es)
    (hwhole : Whole before.length c o es) (kind : NodeKind) {body : Recorder Unit} {p : Part}
    (h : Tracks tokens n led Rows body p) :
    Comes led Whole before s (Recorder.around c kind body s)
      ((p >>= fun os => Pure.pure (Outline.node kind (o :: os))) s.context s.cursor) := by
  obtain ⟨m, es', last, hprecede, hm, hinner⟩ := c.precede_apply hevents hwhole
  obtain ⟨done, hdone, hstep⟩ :=
    Comes.complete m { s with events := before ++ es' ++ [.tombstone] } hs rfl hm kind h
  have haround : Recorder.around c kind body s = some done :=
    (Recorder.bind_apply hprecede).trans hdone
  obtain ⟨es'', hes, hc, inside, rfl, hrows⟩ := hstep.events
  rw [Parser.bind_pure_apply]
  refine ⟨done, haround, hstep.cursor, hstep.reads, hstep.context, hstep.log,
    es' ++ Event.enclose kind none inside, hes.trans (List.append_assoc _ _ _), es'.length, ?_,
    .around hinner hrows⟩
  rw [hc, List.length_append]

namespace Cursor

variable {c : Cursor}

theorem moveTo_eq {before after : List Item} {here : Item}
    (h : c.before.reverse ++ c.items = before.reverse ++ here :: after) :
    c.moveTo before.length = ⟨before, here, after⟩ := by
  have hlength : before.length ≤ (before.reverse ++ here :: after).length - 1 := by
    rw [List.length_append, List.length_reverse, List.length_cons]
    omega
  have hlast : before.reverse.length = before.length := List.length_reverse
  simp only [moveTo, h, Nat.min_eq_left hlength]
  rw [← hlast, List.drop_left, List.take_left]
  simp only [List.reverse_reverse]

/-- From behind an item the cursor can be moved back in front of it. -/
theorem moveTo_advance (c : Cursor) : c.advance.moveTo c.position = c := by
  refine moveTo_eq ?_
  rw [advance]
  split
  · rfl
  · split
    · rfl
    · next hafter => simp [Cursor.items, hafter]

end Cursor

/-- A marker that is rolled back undoes the events, the errors and the moves that came after it. -/
theorem Marker.rollback_apply {m : Marker} {s t : Recording} {es : List Event}
    {errors : List ParseError}
    (hm : m = s.marker) (hevents : t.events = s.events ++ es) (hcontext : t.context = s.context)
    (hcursor : t.cursor.moveTo s.cursor.position = s.cursor) (hlimit : t.log.limit = s.log.limit)
    (herrors : t.log.kept = s.log.kept ++ errors) : m.rollback t = some ((), s) := by
  have hback : m.rollback t = some ((), ⟨t.cursor.moveTo m.position, t.context,
      t.events.take m.place, ⟨t.log.limit, t.log.kept.take m.kept, m.last⟩⟩) := rfl
  rw [hback, hm, Recording.marker, hevents, hcursor, hcontext, hlimit, herrors, List.take_left,
    List.take_left]

namespace Tracks

theorem node (kind : NodeKind) {body : Recorder Unit} {parts : List Part}
    (h : Tracks tokens n led Rows body (Parser.row parts)) :
    Tracks tokens n led Whole (Recorder.node kind body) (Parser.node kind parts) := by
  intro s hs
  obtain ⟨done, hdone, hstep⟩ :=
    Comes.complete s.marker { s with events := s.events ++ [.tombstone] } hs rfl rfl kind h
  obtain ⟨es, hes, hc, inside, rfl, hrows⟩ := hstep.events
  rw [Parser.node, Parser.bind_pure_apply]
  exact ⟨done, hdone, hstep.cursor, hstep.reads, hstep.context, hstep.log, _, hes, 0,
    congrArg Completed.place hc, .first hrows⟩

theorem leaf (kind : NodeKind) :
    Tracks tokens n led Whole (Recorder.leaf kind) (Parser.leaf kind) :=
  node kind (row_singleton bump)

theorem one {x : Recorder Completed} {p : Parser Outline} (h : Tracks tokens n led Whole x p) :
    Tracks tokens n led Rows x (Parser.one p) := by
  intro s hs
  obtain ⟨done, hdone, hstep⟩ := h s hs
  rw [Parser.one, Parser.bind_pure_apply]
  exact ⟨done, hdone, hstep.map id (fun o => [o]) fun _ _ _ _ ⟨_, _, hone⟩ => hone.describes⟩

theorem emptyNode (kind : NodeKind) : Tracks tokens n false Rows
    (Functor.discard (Recorder.node kind (Pure.pure ()))) (Parser.one (Parser.node kind [])) := by
  have hempty : Tracks tokens n false Whole (Recorder.node kind (Pure.pure ()))
      (Parser.node kind []) := node kind (pure ())
  exact hempty.one.discard

theorem some {x : Recorder Completed} {p : Parser Outline} (h : Tracks tokens n led Whole x p) :
    Tracks tokens n led (Perhaps []) (x >>= fun c => Pure.pure (Option.some c))
      (p >>= fun o => Pure.pure (Option.some o)) :=
  h.map fun _ _ _ _ => id

theorem none : Tracks tokens n false (Perhaps []) (Pure.pure Option.none) (Pure.pure Option.none) :=
  fun _ _ => Comes.pure (List.append_nil _).symm rfl

theorem goes {x : Recorder α} {p : Part} (h : Tracks tokens n led Rows x p) :
    Tracks tokens n led Goes (x >>= fun _ => Pure.pure true)
      (p >>= fun os => Pure.pure (Option.some os)) :=
  h.map fun _ _ _ _ => id

theorem stops : Tracks tokens n false Goes (Pure.pure false) (Pure.pure Option.none) :=
  fun _ _ => Comes.pure (List.append_nil _).symm rfl

end Tracks

/-! ### Steps that are repeated -/

/-- A step that is repeated does what the parser does.  It reads something unless it is the last, as
`more` tells by its answer. -/
def Turned (more : α → Bool) (R : Sense α β) (before : List Event) (s : Recording) (x : Recorder α)
    (p : Parser β) : Prop :=
  ∃ done, x s = some done ∧ Step (more done.1) R before s done (p s.context s.cursor)

namespace Turned

variable {more : α → Bool} {R : Sense α β} {before : List Event} {s : Recording}

theorem look_bind (f : Cursor → γ) {g : γ → Recorder α} {h : γ → Parser β}
    (H : Turned more R before s (g (f s.cursor)) (h (f s.cursor))) :
    Turned more R before s (look f >>= g) (Parser.look f >>= h) := H

theorem newlineBreaks_bind (m : Nat) {g : Bool → Recorder α} {h : Bool → Parser β}
    (H : ∀ b, Turned more R before s (g b) (h b)) :
    Turned more R before s (newlineBreaks m >>= g) (Parser.newlineBreaks m >>= h) := H _

theorem ite (b : Bool) {x y : Recorder α} {p q : Parser β}
    (hx : b = true → Turned more R before s x p) (hy : b = false → Turned more R before s y q) :
    Turned more R before s (if b then x else y) (if b then p else q) := by
  cases b with
  | true => exact hx rfl
  | false => exact hy rfl

/-- The last step reads nothing and adds nothing. -/
theorem pure {a : α} {b : β} {es : List Event} (hlast : more a = false)
    (hevents : s.events = before ++ es) (hR : R before.length a b es) :
    Turned more R before s (Pure.pure a) (Pure.pure b) := by
  refine ⟨(a, s), rfl, ?_⟩
  rw [hlast]
  exact ⟨rfl, ⟨[], Nat.zero_le _, .refl _⟩, rfl, rfl, es, hevents, hR⟩

end Turned

/-- The step of a loop is tracked, and unless it ends the loop it reads something. -/
def Turns (tokens : List Token) (n : Nat) (x : Recorder Bool)
    (p : Parser (Option (List Outline))) : Prop :=
  ∀ s : Recording, s.cursor.Room tokens n false → Turned id Goes s.events s x p

theorem Turned.goes {s : Recording} {x : Recorder α} {p : Part} (h : Tracks tokens n true Rows x p)
    (hs : s.cursor.Room tokens n false) (hend : s.cursor.atEnd = false) :
    Turned id Goes s.events s (x >>= fun _ => Pure.pure true)
      (p >>= fun os => Pure.pure (some os)) := by
  obtain ⟨done, hdone, hstep⟩ := h.at_inside (hs.mono (Nat.le_succ n)) hend
  refine ⟨_, Recorder.bind_pure_apply (fun _ => true) hdone, ?_⟩
  rw [Parser.bind_pure_apply]
  exact hstep.map (fun _ => true) some fun _ _ _ _ => id

theorem Turned.stops {s : Recording} :
    Turned id Goes s.events s (Pure.pure false) (Pure.pure none) :=
  Turned.pure rfl (List.append_nil _).symm rfl

/-- A step that is tracked may be repeated if the cursor moves whenever the parser gives something.
-/
theorem Tracks.turns {x : Recorder Bool} {p : Parser (Option (List Outline))}
    (h : Tracks tokens n false Goes x p)
    (hmoves : ∀ context c os, c.Room tokens n false → (p context c).value = Option.some os →
      (p context c).cursor.remaining < c.remaining) : Turns tokens n x p := by
  intro s hs
  obtain ⟨⟨go, t⟩, hdone, hstep⟩ := h s hs
  obtain ⟨es, -, hvalue⟩ := hstep.events
  refine ⟨_, hdone, ?_⟩
  cases go with
  | false => exact hstep
  | true =>
    obtain ⟨os, hos⟩ := Option.isSome_iff_exists.mp hvalue.isSome_eq
    exact hstep.strengthen (hmoves _ _ os hs hos)

/-- From every state in which a node is the last that is completed, the step puts a node around it
where the parser puts one around the outline, and reads something; or it changes no event. -/
def Wraps (tokens : List Token) (n : Nat) (step : Completed → Recorder (Option Completed))
    (step' : Outline → Parser (Option Outline)) : Prop :=
  ∀ {s : Recording} {before es : List Event} {c : Completed} {o : Outline},
    s.cursor.Room tokens n false → s.events = before ++ es → Whole before.length c o es →
    Turned Option.isSome (Perhaps es) before s (step c) (step' o)

theorem Perhaps.getD {n : Nat} {c : Completed} {o : Outline} {es es' : List Event}
    (h : Whole n c o es) : ∀ {c? : Option Completed} {o? : Option Outline},
    Perhaps es n c? o? es' → Whole n (c?.getD c) (o?.getD o) es'
  | some _, some _, hwhole => hwhole
  | none, none, heq => heq ▸ h

/-- A node is put around the last one. -/
theorem Turned.around {s : Recording} {before es : List Event} {c : Completed} {o : Outline}
    (hs : s.cursor.Room tokens (n + 1) false) (hend : s.cursor.atEnd = false)
    (hevents : s.events = before ++ es) (hwhole : Whole before.length c o es) (kind : NodeKind)
    {body : Recorder Unit} {p : Part} (h : Tracks tokens n true Rows body p) :
    Turned Option.isSome (Perhaps es) before s
      (Recorder.around c kind body >>= fun c => Pure.pure (some c))
      (p >>= fun os => Pure.pure (some (Outline.node kind (o :: os)))) := by
  obtain ⟨done, hdone, hstep⟩ := Comes.around (hs.lead hend) hevents hwhole kind h
  refine ⟨_, Recorder.bind_pure_apply some hdone, ?_⟩
  rw [Parser.bind_pure_apply] at hstep ⊢
  exact hstep.map some some fun _ _ _ _ => id

/-- As every step but the last reads something, the list of the items never runs out. -/
theorem Comes.growUpTo {step : Completed → Recorder (Option Completed)}
    {step' : Outline → Parser (Option Outline)} (h : Wraps tokens n step step')
    (items : List Item) {s : Recording} {before es : List Event} {c : Completed} {o : Outline}
    (hs : s.cursor.Room tokens n false) (hroom : s.cursor.remaining < items.length)
    (hevents : s.events = before ++ es) (hwhole : Whole before.length c o es) :
    Comes false Whole before s (Recorder.growUpTo step items.length c s)
      (Parser.growFor step' items o s.context s.cursor) := by
  induction items generalizing s es c o with
  | nil => exact absurd hroom (Nat.not_lt_zero _)
  | cons item items ih =>
    obtain ⟨⟨c?, t⟩, hdone, hstep⟩ := h hs hevents hwhole
    obtain ⟨es', hes', hvalue⟩ := hstep.events
    refine hstep.weaken.bind hdone ?_
    generalize (step' o s.context s.cursor).value = o? at hvalue
    match c?, o?, hvalue with
    | some c', some o', hwhole' =>
      have hmoved : t.cursor.remaining < s.cursor.remaining := hstep.remaining_lt
      rw [List.length_cons] at hroom
      have hrest : t.cursor.remaining < items.length := by omega
      exact ih (hstep.weaken.room hs) hrest hes' hwhole'
    | none, none, heq => exact Comes.pure hes' (heq ▸ hwhole)

theorem Comes.grow {step : Completed → Recorder (Option Completed)}
    {step' : Outline → Parser (Option Outline)} (h : Wraps tokens n step step')
    {s : Recording} {before es : List Event} {c : Completed} {o : Outline}
    (hs : s.cursor.Room tokens n false) (hevents : s.events = before ++ es)
    (hwhole : Whole before.length c o es) :
    Comes false Whole before s (Recorder.grow step c s)
      (Parser.grow step' o s.context s.cursor) :=
  Comes.growUpTo h s.cursor.items hs (Nat.lt_succ_self _) hevents hwhole

/-- A loop reads something if its step does at first. -/
theorem Comes.loopUpTo {x : Recorder Bool} {p : Parser (Option (List Outline))}
    (h : Turns tokens n x p) (items : List Item) :
    ∀ s : Recording, s.cursor.Room tokens n false → s.cursor.remaining < items.length →
      Comes (p s.context s.cursor).value.isSome Rows s.events s
        (Recorder.loopUpTo x items.length s)
        (Parser.manyFor p items s.context s.cursor) := by
  induction items with
  | nil => exact fun s _ hroom => absurd hroom (Nat.not_lt_zero _)
  | cons item items ih =>
    intro s hs hroom
    obtain ⟨⟨go, t⟩, hdone, hstep⟩ := h s hs
    obtain ⟨es, hes, hvalue⟩ := hstep.events
    rw [hvalue.isSome_eq]
    refine hstep.bind hdone ?_
    generalize (p s.context s.cursor).value = os? at hvalue
    match go, os?, hvalue with
    | true, some os, hrows =>
      have hmoved : t.cursor.remaining < s.cursor.remaining := hstep.remaining_lt
      rw [List.length_cons] at hroom
      have hrest := (ih t (hstep.weaken.room hs) (by omega)).weaken
      exact hrest.after hes fun _ _ _ => Describes.append hrows
    | false, none, hnil => exact Comes.pure hes ((hnil : es = []) ▸ .nil)

theorem Comes.bumpWhile (f : Cursor → Bool) {s : Recording} (hs : s.cursor.Room tokens n false) :
    Comes (!s.cursor.atEnd && f s.cursor) Rows s.events s (Recorder.bumpWhile f s)
      (Parser.bumpWhile f s.context s.cursor) := by
  have hturns : Turns tokens n
      (look (fun c => !c.atEnd && f c) >>= fun b =>
        if b then bump >>= fun _ => Pure.pure true else Pure.pure false)
      (Parser.look (fun c => !c.atEnd && f c) >>= fun b =>
        if b then Parser.bump >>= fun os => Pure.pure (some os) else Pure.pure none) :=
    fun t ht => Turned.look_bind _ <| Turned.ite _
      (fun hgoes => Turned.goes Tracks.bump ht (by simpa using (Bool.and_eq_true_iff.mp hgoes).1))
      fun _ => Turned.stops
  have hfirst (b : Bool) : (((if b then Parser.bump >>= fun os => Pure.pure (some os)
      else Pure.pure none : Parser (Option (List Outline))) s.context s.cursor).value).isSome =
        b := by
    cases b <;> rfl
  rw [← hfirst (!s.cursor.atEnd && f s.cursor)]
  exact Comes.loopUpTo hturns s.cursor.items s hs (Nat.lt_succ_self _)

namespace Tracks

theorem loop {x : Recorder Bool} {p : Parser (Option (List Outline))} (h : Turns tokens n x p) :
    Tracks tokens n false Rows (Recorder.loop x) (Parser.many p) :=
  fun s hs => (Comes.loopUpTo h s.cursor.items s hs (Nat.lt_succ_self _)).weaken

theorem bumpWhile (f : Cursor → Bool) :
    Tracks tokens n false Rows (Recorder.bumpWhile f) (Parser.bumpWhile f) :=
  fun _ hs => (Comes.bumpWhile f hs).weaken

/-- A node is read, and another put around it. -/
theorem perhaps_bind {x : Recorder (Option Completed)} {p : Parser (Option Outline)}
    {f : Completed → Recorder Completed} {g : Outline → Parser Outline}
    (hx : Tracks tokens n false (Perhaps []) x p)
    (hf : ∀ {s before es c o}, s.cursor.Room tokens n false → s.events = before ++ es →
      Whole before.length c o es →
      Comes false Whole before s (f c s) (g o s.context s.cursor)) :
    Tracks tokens n false (Perhaps [])
      (x >>= fun c? => match c? with
        | .some c => f c >>= fun c => Pure.pure (Option.some c)
        | .none => Pure.pure .none)
      (p >>= fun o? => match o? with
        | .some o => g o >>= fun o => Pure.pure (Option.some o)
        | .none => Pure.pure .none) := by
  intro s hs
  refine (hx s hs).bind hs fun c? o? t es ht hes hvalue => ?_
  match c?, o?, hvalue with
  | .some c, .some o, hwhole =>
    exact (hf ht hes hwhole).map Option.some Option.some fun _ _ _ _ => id
  | .none, .none, heq => exact Comes.pure hes heq

end Tracks

/-! ### Tokens that are looked for -/

/-- Where a token is not there, to expect it is to write down that it is missing. -/
theorem Parser.isAt_or_expect (k : TokenKind) (problem : TokenKind → Problem) (p : Part) :
    (isAt k >>= fun b => if b then p else expect k problem) =
      isAt k >>= fun b => if b then p
        else kind >>= fun found => report (problem found) >>= fun _ => pure [] := by
  funext context c
  show (if c.kind == k then p else expect k problem) context c =
    (if c.kind == k then p
      else kind >>= fun found => report (problem found) >>= fun _ => pure []) context c
  by_cases hk : (c.kind == k) = true
  · rw [if_pos hk, if_pos hk]
  · rw [if_neg hk, if_neg hk]
    show (if c.kind == k then bump
      else kind >>= fun found => report (problem found) >>= fun _ => pure []) context c = _
    rw [if_neg hk]

namespace Recorder

theorem eat_bind (k : TokenKind) (f : Bool → Recorder α) : (eat k >>= f) =
    isAt k >>= fun b => if b then bump >>= fun _ => f true else f false := by
  rw [eat, bind_assoc]
  congr 1
  funext b
  cases b <;> simp

theorem expect_bind (k : TokenKind) (problem : TokenKind → Problem) (f : Bool → Recorder α) :
    (expect k problem >>= f) = isAt k >>= fun b => if b then bump >>= fun _ => f true
      else kind >>= fun found => report (problem found) >>= fun _ => f false := by
  rw [expect, eat_bind, bind_assoc]
  congr 1
  funext b
  cases b <;> simp

end Recorder

namespace Tracks

theorem eat (k : TokenKind) :
    Tracks tokens n false Rows (Recorder.eat k) (Parser.eat k) :=
  look_ite _ (bump.answer true) (pure false)

theorem expect (k : TokenKind) (problem : TokenKind → Problem) :
    Tracks tokens n false Rows (Recorder.expect k problem) (Parser.expect k problem) := by
  rw [Recorder.expect, eat_bind]
  exact look_ite _ (bump.answer true) <| look_bind _ fun found =>
    (report (problem found)).answer false

/-- A token that has been looked for and is not there is missed. -/
theorem look_or_expect {k : TokenKind} {problem : TokenKind → Problem} {x : Recorder Unit}
    {p : Part} (hk : k ≠ .endOfFile) (h : Tracks tokens n true Rows x p) :
    Tracks tokens n false Rows (isAt k >>= fun b => if b then x
        else kind >>= fun found => Recorder.report (problem found))
      (Parser.isAt k >>= fun b => if b then p else Parser.expect k problem) := by
  rw [Parser.isAt_or_expect]
  exact isAt_ite hk h (look_bind _ fun found => report (problem found))

/-- What comes after a token that may be there. -/
theorem eat_ite (k : TokenKind) {x : Recorder α} {y : Recorder α} {ps : List Part} {q : Part}
    (hx : Tracks tokens n false Rows x (Parser.row ps)) (hy : Tracks tokens n false Rows y q) :
    Tracks tokens n false Rows (Recorder.eat k >>= fun b => if b then x else y)
      (Parser.isAt k >>= fun b => if b then Parser.row (Parser.bump :: ps) else q) := by
  rw [eat_bind]
  exact look_ite _ (bump.seq hx) hy

end Tracks

end RSource
