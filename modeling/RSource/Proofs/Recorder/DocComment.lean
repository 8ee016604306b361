import RSource.Proofs.Recorder.Tracks
import RSource.Recorder.DocComment

/-! The productions of doc comments that write events track those that give outlines.  A piece of a
line begins with a token; a line may lack each of its parts, but not all of them. -/

namespace RSource

variable {α : Type} {tokens : List Token} {n : Nat} {led : Bool}

/-- The added events read as the outlines of a part, and the answer is whether there are any. -/
def Tells : Sense Bool (List Outline) := fun _ found os es => Describes es os ∧ found = !os.isEmpty

namespace Tracks

/-! ### Tags -/

theorem bumps (m : Nat) {x : Recorder α} {ps : List Part}
    (h : Tracks tokens n false Rows x (Parser.row ps)) :
    Tracks tokens n false Rows (Recorded.DocComment.bumps m >>= fun _ => x)
      (Parser.row (List.replicate m Parser.bump ++ ps)) := by
  induction m with
  | zero => exact h
  | succ m ih => exact bump.seq ih

/-- A further name stands behind a comma. -/
theorem gap?_spec {c : Cursor} {m : Nat} (h : Grammar.DocComment.gap? c = Option.some m) :
    c.atEnd = false ∧ 0 < m := by
  simp only [Grammar.DocComment.gap?, Option.ite_none_right_eq_some, Bool.and_eq_true,
    Option.some.injEq] at h
  obtain ⟨⟨hcomma, -⟩, rfl⟩ := h
  refine ⟨?_, ?_⟩
  · by_cases hspace : (c.kindAhead 0 == .docWhitespace) = true
    · exact Cursor.atEnd_eq_false_of_kind (by decide) hspace
    · rw [if_neg hspace] at hcomma
      exact Cursor.atEnd_eq_false_of_kind (by decide) hcomma
  · split <;> split <;> exact Nat.succ_pos _

theorem moreNames : Tracks tokens n false Rows (Recorder.loop Recorded.DocComment.moreName)
    Grammar.DocComment.moreNames := by
  refine loop fun s hs => Turned.look_bind Grammar.DocComment.gap? ?_
  cases hgap : Grammar.DocComment.gap? s.cursor with
  | none => exact Turned.stops
  | some m =>
    obtain ⟨hend, hpos⟩ := gap?_spec hgap
    obtain ⟨k, rfl⟩ := Nat.exists_eq_add_one.mpr hpos
    have hname := Turned.goes (bump.seq (bumps k (row_singleton (leaf .roxygenParameter).one))) hs
      hend
    simp only [bind_assoc] at hname
    simp only [Recorded.DocComment.bumps, bind_assoc]
    exact hname

theorem paramTag :
    Tracks tokens n led Whole Recorded.DocComment.paramTag Grammar.DocComment.paramTag :=
  node _ <| bump.seq <| (look_ite _ bump (pure ())).seq <| row_singleton <|
    look_ite _ ((leaf _).one.seq (row_singleton moreNames)) (report _)

/-! ### Links -/

theorem identifier :
    Tracks tokens n false Tells Recorded.DocComment.identifier Grammar.DocComment.identifier := by
  rw [Grammar.DocComment.identifier, Parser.isAt_or_expect]
  refine look_ite _ (fun s hs => ?_) (look_bind Cursor.kind fun found => report_bind _ fun s hs =>
    Comes.pure (List.append_nil _).symm ⟨.nil, rfl⟩)
  have hleaf : Tracks tokens n false Whole _ _ := leaf .roxygenIdentifier
  exact (hleaf s hs).map (fun _ => true) (fun o => [o]) fun _ _ _ _ ⟨_, _, hone⟩ =>
    ⟨hone.describes, rfl⟩

theorem rows_of_tells {x : Recorder Bool} {p : Part} (h : Tracks tokens n led Tells x p) :
    Tracks tokens n led Rows x p := by
  intro s hs
  obtain ⟨done, hdone, hstep⟩ := h s hs
  exact ⟨done, hdone, hstep.map id id fun _ _ _ _ hfound => hfound.1⟩

end Tracks

namespace Recorded.DocComment

theorem continues_bind (named : Bool) (f : Bool → Recorder α) (s : Recording) :
    (continues named >>= f) s = if named && s.cursor.kind == .docDoubleColon then
      (Recorder.bump >>= fun _ => f true) s else f false s := by
  cases named with
  | false => rfl
  | true =>
    rw [continues, if_pos rfl, Recorder.eat_bind, Recorder.isAt, Recorder.look_bind, Bool.true_and]
    split <;> rfl

end Recorded.DocComment

namespace Grammar.DocComment

open RSource.Parser

/-- After a name: the rest of a name from a package, if it is one. -/
def exported (name : List Outline) : Part := do
  if !name.isEmpty && (← isAt .docDoubleColon) then
    return [.node .roxygenNamespaceAccess (name ++ (← row [bump, identifier]))]
  else return name

theorem exported_apply (name : List Outline) (context : Context) (c : Cursor) :
    exported name context c = if !name.isEmpty && c.kind == .docDoubleColon then
      let rest := row [bump, identifier] context c
      ⟨[.node .roxygenNamespaceAccess (name ++ rest.value)], rest.cursor, rest.errors⟩
      else ⟨name, c, []⟩ := by
  show (if !name.isEmpty && c.kind == .docDoubleColon then
      row [bump, identifier] >>= fun os =>
        pure [Outline.node .roxygenNamespaceAccess (name ++ os)]
      else pure name : Part) context c = _
  split
  · rw [bind_pure_apply]
  · rfl

theorem pageName_apply (context : Context) (c : Cursor) : pageName context c =
    let name := identifier context c
    if !name.value.isEmpty && name.cursor.kind == .docDoubleColon then
      let all := row [identifier, bump, identifier] context c
      ⟨[.node .roxygenNamespaceAccess all.value], all.cursor, all.errors⟩
    else name := by
  have hpage : pageName = identifier >>= exported := rfl
  have hrow : row [identifier, bump, identifier] = identifier >>= fun os =>
      row [bump, identifier] >>= fun ps => pure (os ++ ps) := rfl
  rw [hpage, hrow, bind_apply, bind_apply, exported_apply, bind_pure_apply]
  dsimp only
  split
  · rfl
  · rw [List.append_nil]

end Grammar.DocComment

namespace Tracks

/-- The node of a package is kept where the grammar finds one, and abandoned elsewhere. -/
theorem pageName : Tracks tokens n false Rows Recorded.DocComment.pageName
    Grammar.DocComment.pageName := by
  intro s hs
  let opened : Recording := { s with events := s.events ++ [.tombstone] }
  have hfind : Tracks tokens n false Tells _ _ := identifier
  have hidentifier := rows_of_tells hfind
  obtain ⟨named, hnamed, hname⟩ := hfind opened hs
  obtain ⟨es, hes, hrows, hfound⟩ := hname.events
  have hcond : (named.1 && named.2.cursor.kind == .docDoubleColon) =
      (!(Grammar.DocComment.identifier s.context s.cursor).value.isEmpty &&
        (Grammar.DocComment.identifier s.context s.cursor).cursor.kind == .docDoubleColon) := by
    rw [hfound, hname.cursor]
  rw [Recorded.DocComment.pageName, Recorder.start_bind, Recorder.bind_apply hnamed,
    Recorded.DocComment.continues_bind, hcond, Grammar.DocComment.pageName_apply]
  dsimp only
  split
  · have hbody := hidentifier.seq <| bump.seq <| row_singleton hidentifier
    obtain ⟨done, hdone, hstep⟩ :=
      Comes.complete s.marker opened hs rfl rfl .roxygenNamespaceAccess hbody
    rw [bind_assoc, Recorder.bind_apply hnamed] at hdone
    obtain ⟨es', hes', -, inside, rfl, hinside⟩ := hstep.events
    have hrun := Recorder.bind_pure_apply (fun _ => ()) hdone
    rw [bind_assoc, bind_assoc] at hrun
    refine ⟨_, hrun, ?_⟩
    exact ⟨hstep.cursor, hstep.reads, hstep.context, hstep.log, _, hes',
      (DescribesOne.first hinside).describes⟩
  · obtain ⟨done, hdone, hstep⟩ := Comes.abandon s.marker opened hs rfl rfl hidentifier
    rw [Recorder.bind_apply hnamed] at hdone
    exact ⟨done, hdone, hstep.cursor, hstep.reads, hstep.context, hstep.log, hstep.events⟩

theorem helpPageLink :
    Tracks tokens n led Whole Recorded.DocComment.helpPageLink Grammar.DocComment.helpPageLink :=
  node _ <| bump.seq <| pageName.seq <|
    (eat_ite _ (row_singleton (expect _ _).discard) (pure ())).seq <|
      row_singleton (expect _ _).discard

theorem linkDestination : Tracks tokens n led Whole Recorded.DocComment.linkDestination
    Grammar.DocComment.linkDestination :=
  node _ <| bump.seq <| (bumpWhile _).seq <| row_singleton (expect _ _).discard

theorem autolink :
    Tracks tokens n led Whole Recorded.DocComment.autolink Grammar.DocComment.autolink :=
  node _ <| bump.seq <| (expect _ _).seq <| row_singleton (expect _ _).discard

end Tracks

/-! ### Lines -/

/-- A node that begins with a token is read, and the loop goes on. -/
theorem Turned.goes_one {s : Recording} {x : Recorder Completed} {p : Parser Outline}
    (h : Tracks tokens n true Whole x p) (hs : s.cursor.Room tokens n false)
    (hend : s.cursor.atEnd = false) : Turned id Goes s.events s (x >>= fun _ => Pure.pure true)
      (p >>= fun o => Pure.pure (some [o])) := by
  rw [← Parser.one_bind_pure p some]
  exact Turned.goes h.one hs hend

theorem turns_piece (text : String) :
    Turns tokens n (Recorded.DocComment.piece text) (Grammar.DocComment.piece? text) := by
  intro s hs
  refine Turned.look_bind Grammar.DocComment.lineEnded <| Turned.ite _ (fun _ => Turned.stops)
    fun hline => Turned.look_bind Cursor.kind ?_
  have hend : s.cursor.atEnd = false := (Bool.or_eq_false_iff.mp hline).2
  cases s.cursor.kind with
  | docTagName =>
    exact Turned.look_bind _ <| Turned.ite _ (fun _ => Turned.goes_one Tracks.paramTag hs hend)
      fun _ => Turned.goes_one (Tracks.leaf _) hs hend
  | docLeftBracket => exact Turned.goes_one Tracks.helpPageLink hs hend
  | docLeftParen => exact Turned.goes_one Tracks.linkDestination hs hend
  | docLeftAngle => exact Turned.goes_one Tracks.autolink hs hend
  | _ => exact Turned.goes Tracks.bump hs hend

namespace Comes

variable {s : Recording} {x : Recorder α} {p : Part}

/-- One part after another reads something if the first does, and also if the second does where the
first reads nothing. -/
theorem seq {β : Type} (f : Cursor → Bool) {y : Recorder β} {ps : List Part}
    (hs : s.cursor.Room tokens n false)
    (hx : Comes led Rows s.events s (x s) (p s.context s.cursor))
    (hy : ∀ t : Recording, t.cursor.Room tokens n false →
      Comes (f t.cursor) Rows t.events t (y t) (Parser.row ps t.context t.cursor)) :
    Comes (led || f s.cursor) Rows s.events s ((x >>= fun _ => y) s)
      (Parser.row (p :: ps) s.context s.cursor) := by
  obtain ⟨done, hdone, hstep⟩ := hx
  obtain ⟨es, hes, hrows⟩ := hstep.events
  obtain ⟨xs, hled, hreads⟩ := hstep.reads
  obtain ⟨done', hdone', hstep'⟩ := hy done.2 (hstep.weaken.room hs)
  obtain ⟨es', hes', hrows'⟩ := hstep'.events
  obtain ⟨ys, hled', hreads'⟩ := hstep'.reads
  have hall : Comes led Rows s.events s ((x >>= fun _ => y) s)
      (Parser.row (p :: ps) s.context s.cursor) :=
    hstep.bind hdone (Comes.after ⟨done', hdone', hstep'.weaken⟩ hes fun _ _ _ =>
      Describes.append hrows)
  obtain ⟨last, hlast, hstep''⟩ := hall
  obtain rfl : done' = last :=
    Option.some.inj (((Recorder.bind_apply hdone).trans hdone').symm.trans hlast)
  refine ⟨done', hlast, hstep''.cursor, ⟨xs ++ ys, ?_, hreads.trans hreads'⟩, hstep''.context,
    hstep''.log, hstep''.events⟩
  cases xs with
  | nil =>
    rw [hreads.eq_of_nil] at hled'
    rw [Bool.toNat_eq_zero.mp (Nat.le_zero.mp hled)]
    exact hled'
  | cons x xs => exact Nat.le_trans (Bool.toNat_le _) (Nat.succ_le_succ (Nat.zero_le _))

/-- A token that may be there is read where it is. -/
theorem eat {k : TokenKind} (hk : k ≠ .endOfFile) (hs : s.cursor.Room tokens n false) :
    Comes (s.cursor.kind == k) Rows s.events s (Recorder.eat k s)
      (Parser.eat k s.context s.cursor) := by
  cases hkind : s.cursor.kind == k with
  | false => exact Tracks.eat k s hs
  | true =>
    refine Comes.look_bind _ (Comes.ite _ (fun _ => ?_) fun hother => ?_)
    · exact (Tracks.bump.answer true).at_inside (hs.mono (Nat.le_succ n))
        (Cursor.atEnd_eq_false_of_kind hk hkind)
    · rw [hkind] at hother
      cases hother

theorem content (text : String) (hs : s.cursor.Room tokens n false) :
    Comes (s.cursor.kind == .docMarker || !Grammar.DocComment.lineEnded s.cursor) Rows s.events s
      (Recorded.DocComment.content text s)
      (Grammar.DocComment.content text s.context s.cursor) := by
  rw [Recorded.DocComment.content, Recorder.eat_bind]
  refine Comes.look_bind _ ?_
  cases hmarker : s.cursor.kind == .docMarker with
  | true =>
    exact (Tracks.bump.seq (Tracks.row_singleton (Tracks.loop (turns_piece text)))).at_inside
      (hs.mono (Nat.le_succ n)) (Cursor.atEnd_eq_false_of_kind (by decide) hmarker)
  | false =>
    rw [Bool.false_or]
    refine Comes.look_bind Grammar.DocComment.lineEnded ?_
    cases hline : Grammar.DocComment.lineEnded s.cursor with
    | true => exact Tracks.bumpWhile (fun c => !Grammar.DocComment.lineEnded c) s hs
    | false =>
      have hend : s.cursor.atEnd = false := (Bool.or_eq_false_iff.mp hline).2
      refine Comes.report_bind .noDocMarker fun log => ?_
      have hskip := Comes.bumpWhile (fun c => !Grammar.DocComment.lineEnded c)
        (s := { s with log }) hs
      dsimp only at hskip
      rw [hline, hend] at hskip
      exact hskip

end Comes

theorem turns_line (text : String) :
    Turns tokens n (Recorded.DocComment.line text) (Grammar.DocComment.line? text) := by
  intro s hs
  refine Turned.look_bind Cursor.atEnd <| Turned.ite _ (fun _ => Turned.stops) fun hend => ?_
  have hrest (t : Recording) (ht : t.cursor.Room tokens n false) :=
    Comes.seq (·.kind == .docNewline) ht (Comes.content text ht) fun u hu => by
      rw [Parser.row_singleton]
      exact Comes.eat (k := .docNewline) (by decide) hu
  obtain ⟨done, hdone, hstep⟩ := Comes.seq (fun c => c.kind == .docMarker ||
    !Grammar.DocComment.lineEnded c || c.kind == .docNewline) hs
    (Comes.eat (k := .docWhitespace) (by decide) hs) hrest
  -- The end of a line is read unless there is none.
  have hled : (s.cursor.kind == .docWhitespace || (s.cursor.kind == .docMarker ||
      !Grammar.DocComment.lineEnded s.cursor || s.cursor.kind == .docNewline)) = true := by
    rw [Grammar.DocComment.lineEnded, hend, Bool.or_false]
    cases s.cursor.kind == .docNewline <;> simp
  rw [hled] at hstep
  have hall := Recorder.bind_pure_apply (fun _ => true) hdone
  simp only [bind_assoc] at hall
  refine ⟨_, hall, ?_⟩
  rw [Parser.bind_pure_apply]
  exact hstep.map (fun _ => true) some fun _ _ _ _ => id

/-- The events of a doc comment say what the grammar finds in it. -/
theorem Comes.comment (text : String) {s : Recording} (hover : s.cursor.Over tokens) :
    Comes false Whole s.events s (Recorded.DocComment.comment text s)
      (Grammar.DocComment.comment text s.context s.cursor) :=
  Tracks.node _ (Tracks.row_singleton (Tracks.loop (turns_line text))) s
    ⟨hover, Nat.lt_succ_self _, fun h => nomatch h⟩

end RSource
