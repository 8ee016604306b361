import RSource.Proofs.Tree.FromOutline
import RSource.Proofs.Tree.Links

/-! What written events say about outlines.  The events of a node stand between its start and its
finish.  Where a node is put around another that is finished, its start comes behind the events of
this one, and the start of this one has a link to it.  A builder that follows such events does what
it does when it takes up the outlines. -/

namespace RSource

/-- The events of a node around others. -/
def Event.enclose (kind : NodeKind) (outer : Option Nat) (es : List Event) : List Event :=
  .start kind outer :: (es ++ [.finish])

mutual
/-- The events read as outlines that stand side by side. -/
inductive Describes : List Event → List Outline → Prop
  | nil : Describes [] []
  | skip {es : List Event} {os : List Outline} (h : Describes es os) :
      Describes (.tombstone :: es) os
  | token {es : List Event} {os : List Outline} (i : Nat) (h : Describes es os) :
      Describes (.token i :: es) (.token i :: os)
  | node {es es' : List Event} {last : Nat} {o : Outline} {os : List Outline}
      (ho : DescribesOne none es last o) (h : Describes es' os) : Describes (es ++ es') (o :: os)

/-- The events read as a node, the start of which has the index `last` and the link `outer`.  A node
that was put around another starts behind it, and the start of this has a link to that. -/
inductive DescribesOne : Option Nat → List Event → Nat → Outline → Prop
  | first {es : List Event} {os : List Outline} {kind : NodeKind} {outer : Option Nat}
      (h : Describes es os) : DescribesOne outer (Event.enclose kind outer es) 0 (.node kind os)
  | around {inner es : List Event} {last : Nat} {o : Outline} {os : List Outline}
      {kind : NodeKind} {outer : Option Nat}
      (ho : DescribesOne (some (inner.length - last)) inner last o) (h : Describes es os) :
      DescribesOne outer (inner ++ Event.enclose kind outer es) inner.length (.node kind (o :: os))
end

namespace Event

variable {taken taken' : List Nat} {place : Nat}

theorem length_enclose (kind : NodeKind) (outer : Option Nat) (es : List Event) :
    (enclose kind outer es).length = es.length + 2 := by
  rw [enclose, List.length_cons, List.length_append, List.length_singleton]

theorem enclose_append (kind : NodeKind) (outer : Option Nat) (es rest : List Event) :
    enclose kind outer es ++ rest = .start kind outer :: (es ++ .finish :: rest) := by
  rw [enclose, List.cons_append, List.append_assoc, List.singleton_append]

/-- What a start at `place` opens beside its own node: the kinds that its link leads to and their
places. -/
def linked? (taken : List Nat) (place : Nat) (outer : Option Nat) (rest : List Event) :
    Option (List NodeKind × List Nat) :=
  match outer with
  | none => some ([], [])
  | some 0 => none
  | some (d + 1) => chain? taken (place + 1) d rest

theorem opened?_eq_linked? (taken : List Nat) (place : Nat) (kind : NodeKind) (outer : Option Nat)
    (rest : List Event) : opened? taken place kind outer rest =
      (linked? taken place outer rest).map fun (kinds, places) => (kind :: kinds, places) := by
  rcases outer with _ | _ | d <;> rfl

/-- A chain goes on from a start that none has opened with the link of this. -/
theorem chain?_start (h : place ∉ taken) (kind : NodeKind) (outer : Option Nat)
    (rest : List Event) : chain? taken place 0 (.start kind outer :: rest) =
      (linked? taken place outer rest).map fun (kinds, places) =>
        (kind :: kinds, place :: places) := by
  rcases outer with _ | _ | d <;> simp only [chain?, if_neg h, linked?, Option.map_some,
    Option.map_none]

/-- The link of a node that another was put around leads to the start of this. -/
theorem linked?_inner {inner rest : List Event} {last : Nat} {outer : Option Nat}
    {kinds : List NodeKind} {places : List Nat} (kind : NodeKind) (hlast : last < inner.length)
    (hplace : place + inner.length ∉ taken)
    (hlinked : linked? taken (place + inner.length) outer rest = some (kinds, places)) :
    linked? taken (place + last) (some (inner.length - last))
      (inner.drop (last + 1) ++ .start kind outer :: rest) =
        some (kind :: kinds, (place + inner.length) :: places) := by
  obtain ⟨d, hd⟩ : ∃ d, inner.length - last = d + 1 := ⟨inner.length - last - 1, by omega⟩
  have hlength : (inner.drop (last + 1)).length = d := by
    rw [List.length_drop]
    omega
  rw [hd, linked?, chain?_drop, List.drop_left' hlength,
    show place + last + 1 + d = place + inner.length by omega, chain?_start hplace, hlinked]
  rfl

theorem chain?_congr (es : List Event) : ∀ place skip,
    (∀ i, place ≤ i → (i ∈ taken ↔ i ∈ taken')) →
    chain? taken place skip es = chain? taken' place skip es := by
  induction es with
  | nil => exact fun _ _ _ => rfl
  | cons e es ih =>
    intro place skip h
    have hrest : ∀ i, place + 1 ≤ i → (i ∈ taken ↔ i ∈ taken') := fun i hi => h i (by omega)
    cases skip with
    | succ skip => exact ih (place + 1) skip hrest
    | zero =>
      have hplace := h place (Nat.le_refl _)
      rcases e with ⟨kind, _ | _ | d⟩ | _ | _ | _ <;>
        simp only [chain?, hplace, ih (place + 1) _ hrest]

end Event

theorem Describes.append {es es' : List Event} {os os' : List Outline} (h : Describes es os)
    (h' : Describes es' os') : Describes (es ++ es') (os ++ os') := by
  match h with
  | .nil => exact h'
  | .skip h => exact .skip (h.append h')
  | .token i h => exact .token i (h.append h')
  | .node ho h =>
    rw [List.append_assoc]
    exact .node ho (h.append h')

namespace DescribesOne

variable {outer : Option Nat} {es : List Event} {last : Nat} {o : Outline}

theorem describes (h : DescribesOne none es last o) : Describes es [o] := by
  have hone := Describes.node h .nil
  rwa [List.append_nil] at hone

theorem lt (h : DescribesOne outer es last o) : last < es.length := by
  cases h with
  | first h => exact Nat.succ_pos _
  | around ho h =>
    rw [List.length_append, Event.length_enclose]
    omega

/-- The start of the node can be given another link. -/
theorem relink (h : DescribesOne outer es last o) : ∃ kind, es[last]? = some (.start kind outer) ∧
    ∀ outer', DescribesOne outer' (es.set last (.start kind outer')) last o := by
  cases h with
  | @first es os kind _ h => exact ⟨kind, rfl, fun outer' => .first h⟩
  | @around inner es last o os kind _ ho h =>
    refine ⟨kind, ?_, fun outer' => ?_⟩
    · rw [List.getElem?_append_right (Nat.le_refl _), Nat.sub_self]
      rfl
    · rw [List.set_append_right _ _ (Nat.le_refl _), Nat.sub_self]
      exact .around ho h

end DescribesOne

/-! ### Building -/

namespace Builder

variable {n : Nat} {taken taken' : List Nat}

/-- What was opened before a place makes no difference from there on. -/
theorem run_congr (es : List Event) : ∀ place (b : Builder),
    (∀ i, place ≤ i → (i ∈ taken ↔ i ∈ taken')) →
    run n place taken b es = run n place taken' b es := by
  induction es generalizing taken taken' with
  | nil => exact fun _ _ _ => rfl
  | cons e es ih =>
    intro place b h
    have hrest : ∀ i, place + 1 ≤ i → (i ∈ taken ↔ i ∈ taken') := fun i hi => h i (by omega)
    cases e with
    | tombstone => exact ih _ _ hrest
    | finish => exact bind_congr fun b' => ih _ b' hrest
    | token index => exact bind_congr fun b' => ih _ b' hrest
    | start kind outer =>
      have hlinked : Event.opened? taken place kind outer es =
          Event.opened? taken' place kind outer es := by
        rw [Event.opened?_eq_linked?, Event.opened?_eq_linked?]
        rcases outer with _ | _ | d
        · rfl
        · rfl
        · rw [Event.linked?, Event.linked?, Event.chain?_congr es _ _ hrest]
      rw [run, run, hlinked]
      simp only [h place (Nat.le_refl _)]
      split
      · exact ih _ _ hrest
      · cases Event.opened? taken' place kind outer es with
        | none => rfl
        | some opened =>
          refine ih _ _ fun i hi => ?_
          rw [List.mem_append, List.mem_append, hrest i hi]

/-- A start that no chain has opened opens its node inside those that its link leads to. -/
theorem run_start {place : Nat} {b : Builder} {kind : NodeKind} {outer : Option Nat}
    {rest : List Event} {kinds : List NodeKind} {places : List Nat} (h : place ∉ taken)
    (hlinked : Event.linked? taken place outer rest = some (kinds, places)) :
    run n place taken b (.start kind outer :: rest) =
      run n (place + 1) (places ++ taken) (start (kinds.reverse.foldl start b) kind) rest := by
  rw [run, if_neg h, Event.opened?_eq_linked?, hlinked]
  simp only [Option.map_some, List.reverse_cons, List.foldl_append, List.foldl_cons, List.foldl_nil]

/-- What is opened before some events or behind them stands outside of those within. -/
theorem outside_append {places : List Nat} {first last first' last' : Nat}
    (htaken : ∀ i ∈ taken, i < first ∨ last ≤ i) (hplaces : ∀ i ∈ places, last ≤ i)
    (hfirst : first ≤ first') (hlast : last' ≤ last) :
    ∀ i ∈ places ++ taken, i < first' ∨ last' ≤ i := by
  intro i hi
  rcases List.mem_append.mp hi with hi | hi
  · exact .inr (Nat.le_trans hlast (hplaces i hi))
  · exact (htaken i hi).imp (Nat.lt_of_lt_of_le · hfirst) (Nat.le_trans hlast)

mutual
/-- The events that read as outlines are followed by taking up these. -/
theorem run_describes {es : List Event} {os : List Outline} (h : Describes es os) :
    ∀ place taken (b : Builder) rest, (∀ i ∈ taken, i < place ∨ place + es.length ≤ i) →
    run n place taken b (es ++ rest) =
      forestTake n b os >>= fun b => run n (place + es.length) taken b rest := by
  match h with
  | .nil => exact fun _ _ _ _ _ => rfl
  | .skip h =>
    intro place taken b rest htaken
    rw [List.length_cons] at htaken
    have hrest := run_describes h (place + 1) taken b rest fun i hi => by have := htaken i hi; omega
    rw [List.length_cons, Nat.add_comm _ 1, ← Nat.add_assoc]
    exact hrest
  | .token i h =>
    intro place taken b rest htaken
    rw [List.length_cons] at htaken
    have hrest (b : Builder) := run_describes h (place + 1) taken b rest fun i hi => by
      have := htaken i hi
      omega
    rw [List.length_cons, Nat.add_comm _ 1, ← Nat.add_assoc, forestTake, bind_assoc]
    exact bind_congr hrest
  | @Describes.node es es' last o os ho h =>
    intro place taken b rest htaken
    rw [List.length_append] at htaken
    have hfirst := run_describesOne ho place taken b (es' ++ rest) [] [] (fun i hi => by
      have := htaken i hi
      omega) rfl fun i hi => absurd hi List.not_mem_nil
    have hrest (b : Builder) := run_describes h (place + es.length) taken b rest fun i hi => by
      have := htaken i hi
      omega
    rw [List.append_assoc, hfirst, forestTake, bind_assoc, List.length_append, ← Nat.add_assoc]
    exact bind_congr hrest

/-- The events that read as a node are followed by taking up this, inside the nodes that its start
is linked to. -/
theorem run_describesOne {outer : Option Nat} {es : List Event} {last : Nat} {o : Outline}
    (h : DescribesOne outer es last o) : ∀ place taken (b : Builder) rest kinds places,
    (∀ i ∈ taken, i < place ∨ place + es.length ≤ i) →
    Event.linked? taken (place + last) outer (es.drop (last + 1) ++ rest) = some (kinds, places) →
    (∀ i ∈ places, place + es.length ≤ i) →
    run n place taken b (es ++ rest) =
      take n (kinds.reverse.foldl start b) o >>= fun b =>
        run n (place + es.length) (places ++ taken) b rest := by
  match h with
  | @DescribesOne.first es os kind outer h =>
    intro place taken b rest kinds places htaken hlinked hplaces
    rw [Event.length_enclose] at htaken hplaces ⊢
    have hplace : place ∉ taken := fun hmem => by have := htaken place hmem; omega
    have hinside : ∀ i ∈ places ++ taken, i < place + 1 ∨ place + 1 + es.length ≤ i :=
      outside_append htaken hplaces (by omega) (by omega)
    have hlinked : Event.linked? taken place outer (es ++ .finish :: rest) =
        some (kinds, places) := by
      rw [← hlinked, Event.enclose, List.drop_succ_cons, List.drop_zero, List.append_assoc]
      rfl
    rw [Event.enclose_append, run_start hplace hlinked,
      run_describes h (place + 1) (places ++ taken) _ (.finish :: rest) hinside, take, bind_assoc,
      show place + (es.length + 2) = place + 1 + es.length + 1 by omega]
    rfl
  | @DescribesOne.around inner es last o os kind outer ho h =>
    intro place taken b rest kinds places htaken hlinked hplaces
    rw [List.length_append, Event.length_enclose] at htaken hplaces
    have hlt := ho.lt
    have hplace : place + inner.length ∉ taken := fun hmem => by have := htaken _ hmem; omega
    have hdrop : (inner ++ Event.enclose kind outer es).drop (inner.length + 1) =
        es ++ [.finish] := by
      rw [← List.drop_drop, List.drop_left]
      rfl
    rw [hdrop, List.append_assoc, List.singleton_append] at hlinked
    have hfirst := run_describesOne ho place taken b (.start kind outer :: (es ++ .finish :: rest))
      (kind :: kinds) ((place + inner.length) :: places)
      (fun i hi => by have := htaken i hi; omega)
      (Event.linked?_inner kind hlt hplace hlinked) (fun i hi => by
        rcases List.mem_cons.mp hi with rfl | hi
        · exact Nat.le_refl _
        · have := hplaces i hi
          omega)
    -- The start of the node is opened already when the builder comes to it.
    have hskip (b : Builder) : run n (place + inner.length)
        ((place + inner.length) :: places ++ taken) b
          (.start kind outer :: (es ++ .finish :: rest)) =
        run n (place + inner.length + 1) (places ++ taken) b (es ++ .finish :: rest) := by
      rw [run, if_pos (List.mem_append_left _ List.mem_cons_self)]
      refine run_congr _ _ b fun i hi => ?_
      rw [List.cons_append, List.mem_cons]
      exact or_iff_right (by omega)
    have hinside : ∀ i ∈ places ++ taken,
        i < place + inner.length + 1 ∨ place + inner.length + 1 + es.length ≤ i :=
      outside_append htaken hplaces (by omega) (by omega)
    have hinner (b : Builder) := run_describes h (place + inner.length + 1) (places ++ taken) b
      (.finish :: rest) hinside
    rw [List.append_assoc, Event.enclose_append, hfirst, take, forestTake, List.length_append,
      Event.length_enclose, show place + (inner.length + (es.length + 2)) =
        place + inner.length + 1 + es.length + 1 by omega]
    simp only [List.reverse_cons, List.foldl_append, List.foldl_cons, List.foldl_nil, bind_assoc]
    refine bind_congr fun b₁ => ?_
    rw [hskip, hinner]
    exact bind_congr fun b₂ => rfl
end

/-- A builder that comes through has followed every link. -/
theorem followed_of_run {es : List Event} : ∀ {place : Nat} {taken : List Nat} {b b' : Builder},
    run n place taken b es = .ok b' → Event.followed place taken es = true := by
  induction es with
  | nil => exact fun _ => rfl
  | cons e es ih =>
    intro place taken b b' h
    cases e with
    | tombstone => exact ih h
    | finish =>
      obtain ⟨b₁, -, h⟩ := bind_eq_ok_iff.mp h
      exact ih h
    | token index =>
      obtain ⟨b₁, -, h⟩ := bind_eq_ok_iff.mp h
      exact ih h
    | start kind outer =>
      rw [run] at h
      rw [Event.followed]
      split at h
      · next hmem => rw [if_pos hmem]; exact ih h
      · next hmem =>
        rw [if_neg hmem]
        cases hopened : Event.opened? taken place kind outer es with
        | none => rw [hopened] at h; cases h
        | some opened => rw [hopened] at h; exact ih h

end Builder

namespace SyntaxTree

variable {text : String} {tokens : List Token} {es : List Event} {o : Outline}

/-- The events that read as an outline build the tree of the outline. -/
theorem build_of_describes (h : Describes es [o]) :
    build text tokens es = build text tokens o.events := by
  obtain ⟨place, hrun⟩ := Builder.run_eventsThen (Text.byteLength text) 0 o
  have hes := Builder.run_describes (n := Text.byteLength text) h 0 [] ⟨0, tokens, [], []⟩ []
    fun i hi => absurd hi List.not_mem_nil
  have ho := hrun ⟨0, tokens, [], []⟩ []
  rw [List.append_nil, Builder.forestTake, bind_assoc] at hes
  rw [build, build, hes, Outline.events, ho]
  simp only [bind_assoc]
  exact bind_congr fun b => rfl

theorem wellLinked_of_build {t : SyntaxTree} (h : build text tokens es = .ok t) :
    Event.WellLinked es := by
  obtain ⟨b, hrun, -⟩ := bind_eq_ok_iff.mp h
  exact Event.wellLinked_iff.mpr (Builder.followed_of_run hrun)

end SyntaxTree

end RSource
