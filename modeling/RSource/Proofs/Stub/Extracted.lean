import RSource.Proofs.Lexeme.Cover
import RSource.Proofs.Stub.Count
import RSource.Proofs.Stub.Stored
import RSource.Proofs.Tree.Bounds

/-! The stubs of a tree.  A walk over the tree adds stubs behind those it has, each with a parent
that is there already, and takes their spans and names from nodes: every visit keeps this
(`Walk.Sound`).  So the stubs of a source can always be stored. -/

namespace RSource.StubTree

variable {t : SyntaxTree} {scope : Option StubId} {stubs : Array Stub}

/-- The span and the name of the stub come from nodes. -/
structure Drawn (t : SyntaxTree) (s : Stub) : Prop where
  span : ∃ id, s.span = t.span id
  name : ∃ id, s.name = nameOrUnnamed t id

/-- What is assigned here belongs to an assignment that has its stub. -/
def Scoped (scope : Option StubId) (stubs : Array Stub) : Prop :=
  ∀ p ∈ scope, ∃ owner ∈ stubs[p]?, owner.declaration.isAssignment = true

theorem Scoped.append (h : Scoped scope stubs) (more : List Stub) :
    Scoped scope (stubs ++ more) := by
  intro p hp
  obtain ⟨owner, howner, ha⟩ := h p hp
  have hlt := (Array.getElem?_eq_some_iff.mp howner).1
  refine ⟨owner, ?_, ha⟩
  rw [← Array.getElem?_toList, Array.toList_appendList, List.getElem?_append_left (by simpa),
    Array.getElem?_toList]
  exact howner

theorem drawn_declared (place : StubId) (id name : NodeId) :
    ∀ s ∈ declared t scope place id name, Drawn t s := by
  intro s hs
  rcases List.mem_cons.mp hs with rfl | hs
  · exact ⟨⟨_, rfl⟩, ⟨_, rfl⟩⟩
  · obtain ⟨p, -, rfl⟩ := List.mem_map.mp hs
    exact ⟨⟨_, rfl⟩, ⟨_, rfl⟩⟩

theorem wellFormed_declared (hspan : ∀ id, (t.span id).Straight) (hwell : WellFormed ⟨stubs⟩)
    (hscope : Scoped scope stubs) (id name : NodeId) :
    WellFormed ⟨stubs ++ declared t scope stubs.size id name⟩ := by
  rw [declared, Array.appendList_cons]
  have hassignment : (assignmentStub t scope id name).Follows stubs := by
    refine ⟨fun p hp => ?_, fun hd => Bool.noConfusion (hd : true = false), hspan name⟩
    obtain ⟨owner, howner, -⟩ := hscope p hp
    exact (Array.getElem?_eq_some_iff.mp howner).1
  refine WellFormed.append (wellFormed_push_iff.mpr ⟨hwell, hassignment⟩) fun s hs => ?_
  obtain ⟨p, -, rfl⟩ := List.mem_map.mp hs
  refine ⟨fun q hq => ?_, fun _ => ⟨_, rfl, _, Array.getElem?_push_size, rfl⟩, hspan _⟩
  obtain rfl := Option.some.inj hq
  rw [Array.size_push]
  exact Nat.lt_succ_self _

theorem scoped_declared (id name : NodeId) :
    Scoped (some stubs.size) (stubs ++ declared t scope stubs.size id name) := by
  rw [declared, Array.appendList_cons]
  refine Scoped.append ?_ _
  rintro p hp
  obtain rfl := Option.some.inj hp
  exact ⟨_, Array.getElem?_push_size, rfl⟩

/-! ### What a walk keeps -/

/-- The stubs come from nodes and each stands well behind the others, and what is still to be
visited belongs to assignments that have their stubs. -/
structure Walk.Sound (t : SyntaxTree) (w : Walk) : Prop where
  drawn : ∀ s ∈ w.stubs, Drawn t s
  wellFormed : (∀ id, (t.span id).Straight) → WellFormed ⟨w.stubs⟩
  owned : ∀ v ∈ w.waiting, Scoped v.2 w.stubs

namespace Walk.Sound

variable {id : NodeId} {waiting : List (NodeId × Option StubId)}

theorem enter {w : Walk} (h : w.Sound t) (hscope : Scoped scope w.stubs) (id : NodeId) :
    (w.enter t id scope).Sound t := by
  refine ⟨h.drawn, h.wellFormed, fun v hv => ?_⟩
  rcases List.mem_append.mp hv with hv | hv
  · obtain ⟨c, -, rfl⟩ := List.mem_map.mp hv
    exact hscope
  · exact h.owned v hv

theorem declare (h : Sound t ⟨waiting, stubs⟩) (hscope : Scoped scope stubs) (name : NodeId) :
    Sound t ⟨waiting, stubs ++ declared t scope stubs.size id name⟩ := by
  refine ⟨fun s hs => ?_, fun hspan => ?_, fun v hv => (h.owned v hv).append _⟩
  · rw [← Array.mem_toList_iff, Array.toList_appendList, List.mem_append] at hs
    exact hs.elim (fun hs => h.drawn s (Array.mem_toList_iff.mp hs)) (drawn_declared _ id name s)
  · exact wellFormed_declared hspan (h.wellFormed hspan) hscope id name

theorem visit (h : Sound t ⟨(id, scope) :: waiting, stubs⟩) :
    (Walk.visit t id scope ⟨waiting, stubs⟩).Sound t := by
  have hrest : Sound t ⟨waiting, stubs⟩ :=
    ⟨h.drawn, h.wellFormed, fun v hv => h.owned v (List.mem_cons_of_mem _ hv)⟩
  have hscope := h.owned (id, scope) List.mem_cons_self
  rw [Walk.visit]
  split
  · exact hrest
  · split
    · next name _ => exact (hrest.declare hscope name).enter (scoped_declared id name) id
    · exact hrest.enter hscope id

theorem run (bound : Nat) : ∀ w, Sound t w → Sound t ⟨[], w.run t bound⟩ := by
  induction bound with
  | zero => exact fun w h => ⟨h.drawn, h.wellFormed, fun _ hv => (nomatch hv)⟩
  | succ bound ih =>
    intro w h
    match w with
    | ⟨[], stubs⟩ => exact h
    | ⟨(id, scope) :: waiting, stubs⟩ => exact ih _ h.visit

end Walk.Sound

theorem sound_ofTree (t : SyntaxTree) : Walk.Sound t ⟨[], (ofTree t).stubs⟩ := by
  refine Walk.Sound.run t.size ⟨[(t.root, none)], #[]⟩
    ⟨fun s hs => ?_, fun _ => wellFormed_empty, ?_⟩
  · exact absurd hs (Array.not_mem_empty s)
  · intro v hv p hp
    rw [List.mem_singleton.mp hv] at hp
    cases hp

theorem wellFormed_ofTree (hspan : ∀ id, (t.span id).Straight) : (ofTree t).WellFormed :=
  (sound_ofTree t).wellFormed hspan

theorem drawn_ofTree : ∀ s ∈ (ofTree t).stubs, Drawn t s := (sound_ofTree t).drawn

/-! ### Sources -/

variable {text : String} {limit : Nat} {u : StubTree}

theorem ofSource_eq_ok_iff :
    ofSource text limit = .ok u ↔ ∃ p, parse text limit = .ok p ∧ ofTree p.tree = u := by
  rw [ofSource, bind_eq_ok_iff]
  exact exists_congr fun p => and_congr_right fun _ => ⟨Except.ok.inj, congrArg Except.ok⟩

theorem ofSource_ok (hsize : Text.byteLength text ≤ maxOffset) (limit : Nat) :
    ∃ u, ofSource text limit = .ok u := by
  obtain ⟨p, hp, -⟩ := parseTokens_ok hsize (lex text) limit
  exact ⟨_, ofSource_eq_ok_iff.mpr ⟨p, hp, rfl⟩⟩

theorem ofSource_tooLarge (hsize : maxOffset < Text.byteLength text) (limit : Nat) :
    ofSource text limit = .error .sourceTooLarge := by
  have hparse : parse text limit = .error .sourceTooLarge := by
    rw [parse, parseTokens, parseWith, if_pos hsize]
    rfl
  rw [ofSource, hparse]
  rfl

/-- The stubs of a source point into its text. -/
theorem span_of_ofSource (h : ofSource text limit = .ok u) {s : Stub} (hs : s ∈ u.stubs) :
    s.span.start ≤ s.span.stop ∧ s.span.stop ≤ Text.byteLength text := by
  obtain ⟨p, hp, rfl⟩ := ofSource_eq_ok_iff.mp h
  obtain ⟨os, more, hfound⟩ := Grammar.found (lex text)
  have hbuild := (parseTokens_eq_ok hfound hp).1
  obtain ⟨id, hspan⟩ := (drawn_ofTree s hs).span
  rw [hspan]
  exact SyntaxTree.build_bounds (consecutive_lex text) hbuild id

/-- The stubs of a source are well-formed, and there is room for all they say. -/
theorem storable_ofSource (hsize : Text.byteLength text ≤ maxOffset)
    (h : ofSource text limit = .ok u) : u.WellFormed ∧ u.Storable := by
  obtain ⟨p, hp, rfl⟩ := ofSource_eq_ok_iff.mp h
  obtain ⟨os, more, hfound⟩ := Grammar.found (lex text)
  have hbuild := (parseTokens_eq_ok hfound hp).1
  have hbounds := SyntaxTree.build_bounds (consecutive_lex text) hbuild
  have htext := SyntaxTree.text_of_build hbuild
  -- A parent has its place among the stubs, which are no more than the tokens.
  have hwell := wellFormed_ofTree fun id => (hbounds id).1
  have hcount := Nat.le_trans (size_ofTree_le hfound hbuild) (length_lex_le text)
  have hcapacity : maxOffset + 1 = Bytes.capacity 4 ∧ maxOffset + 1 < Bytes.capacity 8 := by decide
  refine ⟨hwell, by omega, fun s hs => ?_, fun s hs q hq => ?_, fun s hs => ?_, fun s hs => ?_⟩
  · obtain ⟨id, hname⟩ := (drawn_ofTree s hs).name
    have hle := byteLength_nameOrUnnamed_le p.tree id
    have hunnamed : Text.byteLength unnamed ≤ maxOffset := by decide
    rw [hname]
    rw [htext] at hle
    omega
  · obtain ⟨i, hi, rfl⟩ := Array.mem_iff_getElem.mp hs
    have hlt := hwell.parent i _ (Array.getElem?_eq_getElem hi) q hq
    rw [size] at hcount
    exact Nat.lt_trans hlt (by omega)
  · have := span_of_ofSource h hs
    omega
  · have := span_of_ofSource h hs
    omega

/-- Well-formed stubs survive being stored, whatever their names, flags, parents and spans; the
sizes are those that names, spans and places can have.  The stubs of a source are such: they are
found in every source that is not too large to be read, with or without errors. -/
theorem stored_roundtrip :
    (∀ u : StubTree, u.WellFormed → u.Storable → decode (encode u) = .ok u) ∧
    ∀ text limit,
      (maxOffset < Text.byteLength text ∧ ofSource text limit = .error .sourceTooLarge) ∨
      ∃ u, ofSource text limit = .ok u ∧ u.WellFormed ∧ u.Storable ∧
        decode (encode u) = .ok u := by
  refine ⟨fun u => decode_encode, fun text limit => ?_⟩
  rcases Nat.lt_or_ge maxOffset (Text.byteLength text) with hsize | hsize
  · exact .inl ⟨hsize, ofSource_tooLarge hsize limit⟩
  · obtain ⟨u, hu⟩ := ofSource_ok hsize limit
    obtain ⟨hwell, hstorable⟩ := storable_ofSource hsize hu
    exact .inr ⟨u, hu, hwell, hstorable, decode_encode hwell hstorable⟩

/-- The stubs of `f <- g <- function(é) é`. -/
def chainedStubs : StubTree :=
  ⟨#[⟨.assignment "f" false true false, none, ⟨0, 1⟩⟩,
    ⟨.assignment "g" true false false, some 0, ⟨5, 6⟩⟩, ⟨.parameter "é", some 1, ⟨19, 21⟩⟩]⟩

theorem stored_roundtrip_chained : chainedStubs.WellFormed ∧ chainedStubs.Storable ∧
    decode (encode chainedStubs) = .ok chainedStubs := by
  have hwell : chainedStubs.WellFormed := by
    refine wellFormed_push_iff.mpr ⟨wellFormed_push_iff.mpr ⟨wellFormed_push_iff.mpr
      ⟨wellFormed_empty, ?_⟩, ?_⟩, ?_⟩
    · exact ⟨by decide, by decide, by decide⟩
    · exact ⟨by decide, by decide, by decide⟩
    · exact ⟨by decide, fun _ => ⟨1, rfl, _, rfl, rfl⟩, by decide⟩
  have hstorable : chainedStubs.Storable :=
    ⟨by decide, by decide, by decide, by decide, by decide⟩
  exact ⟨hwell, hstorable, stored_roundtrip.1 chainedStubs hwell hstorable⟩

end RSource.StubTree
