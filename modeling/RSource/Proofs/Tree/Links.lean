import RSource.Tree.Build

/-! What links between starts mean.  A list whose links all lead to starts of their own builds the
same tree, or fails with the same error, as the list without links in which the kinds of each chain
stand as starts at the place of the first, the outermost one first. -/

namespace RSource

namespace Event

variable {es : List Event} {taken : List Nat} {place i j p : Nat}

/-- Where the link of the start at `i` leads, if a start with a link stands there. -/
def target? (es : List Event) (i : Nat) : Option Nat :=
  match es[i]? with
  | some (.start _ (some distance)) => some (i + distance)
  | _ => none

/-- Each link leads to a later start, and no two lead to the same one: when a link is followed, no
chain has opened its start before. -/
structure WellLinked (es : List Event) : Prop where
  later : ∀ i j, target? es i = some j → i < j ∧ ∃ kind outer, es[j]? = some (.start kind outer)
  once : ∀ i i' j, target? es i = some j → target? es i' = some j → i = i'

/-- The kinds along the chain of links that begins `skip` events into the list. -/
def chainKinds (skip : Nat) : List Event → List NodeKind
  | [] => []
  | e :: es =>
    match skip, e with
    | skip + 1, _ => chainKinds skip es
    | 0, .start kind none => [kind]
    | 0, .start kind (some (d + 1)) => kind :: chainKinds d es
    | 0, _ => []

/-- What stands for the event at `i` when links are resolved. -/
def resolvedAt (es : List Event) (i : Nat) : List Event :=
  match es[i]? with
  | some (.start _ _) =>
    if ∃ k ∈ List.range es.length, target? es k = some i then []
    else (chainKinds i es).reverse.map (.start · none)
  | some .tombstone => []
  | some e => [e]
  | none => []

/-- The list without links: the first start of a chain becomes the starts of the whole chain,
outermost first, and the others and all tombstones are dropped. -/
def resolved (es : List Event) : List Event :=
  (List.range es.length).flatMap (resolvedAt es)

theorem drop_eq_cons {e : Event} (h : es[i]? = some e) : es.drop i = e :: es.drop (i + 1) := by
  obtain ⟨hi, rfl⟩ := List.getElem?_eq_some_iff.1 h
  exact List.drop_eq_getElem_cons hi

theorem target?_eq_some {kind : NodeKind} {d : Nat} (h : es[i]? = some (.start kind (some d))) :
    target? es i = some (i + d) := by
  simp [target?, h]

theorem target?_eq_none {e : Event} (h : es[i]? = some e)
    (he : ∀ kind d, e ≠ .start kind (some d)) : target? es i = none := by
  unfold target?
  rw [h]
  cases e with
  | start kind outer =>
    cases outer with
    | none => rfl
    | some d => exact absurd rfl (he kind d)
  | _ => rfl

/-! ### Chains -/

theorem chainKinds_eq (skip : Nat) : ∀ es, chainKinds skip es = chainKinds 0 (es.drop skip) := by
  induction skip with
  | zero => intro es; rfl
  | succ skip ih =>
    intro es
    cases es with
    | nil => rfl
    | cons e es => rw [chainKinds, ih, List.drop_succ_cons]

theorem chainKinds_of_last {kind : NodeKind} (h : es[i]? = some (.start kind none)) :
    chainKinds i es = [kind] := by
  rw [chainKinds_eq, drop_eq_cons h, chainKinds]

theorem chainKinds_of_link {kind : NodeKind} {d : Nat}
    (h : es[i]? = some (.start kind (some (d + 1)))) :
    chainKinds i es = kind :: chainKinds (i + (d + 1)) es := by
  rw [chainKinds_eq, drop_eq_cons h, chainKinds, chainKinds_eq d, chainKinds_eq (i + (d + 1)),
    List.drop_drop, show i + 1 + d = i + (d + 1) by omega]

theorem chain?_drop (skip : Nat) : ∀ place es,
    chain? taken place skip es = chain? taken (place + skip) 0 (es.drop skip) := by
  induction skip with
  | zero => intro place es; rfl
  | succ skip ih =>
    intro place es
    cases es with
    | nil => simp [chain?]
    | cons e es =>
      rw [chain?, ih, List.drop_succ_cons, show place + 1 + skip = place + (skip + 1) by omega]

theorem chain?_at {e : Event} (h : es[p]? = some e) (hp : p ∉ taken) :
    chain? taken p 0 (es.drop p) =
      match e with
      | .start kind none => some ([kind], [p])
      | .start kind (some (d + 1)) =>
        (chain? taken (p + (d + 1)) 0 (es.drop (p + (d + 1)))).map fun (kinds, places) =>
          (kind :: kinds, p :: places)
      | _ => none := by
  rw [drop_eq_cons h]
  rcases e with ⟨kind, _ | _ | d⟩ | _ | _ | _ <;> simp only [chain?, if_neg hp]
  rw [chain?_drop d, List.drop_drop, show p + 1 + d = p + (d + 1) by omega]

theorem chain?_of_mem (hp : p ∈ taken) : chain? taken p 0 (es.drop p) = none := by
  cases es.drop p <;> simp [chain?, hp]

/-- The chain of links that begins at a place, outside the places in `taken`: its kinds and
places. -/
inductive Chain (es : List Event) (taken : List Nat) : Nat → List NodeKind → List Nat → Prop
  | last {p : Nat} {kind : NodeKind} : p ∉ taken → es[p]? = some (.start kind none) →
      Chain es taken p [kind] [p]
  | link {p d : Nat} {kind : NodeKind} {kinds : List NodeKind} {places : List Nat} : p ∉ taken →
      es[p]? = some (.start kind (some (d + 1))) → Chain es taken (p + (d + 1)) kinds places →
      Chain es taken p (kind :: kinds) (p :: places)

theorem Chain.chain?_eq {kinds : List NodeKind} {places : List Nat}
    (h : Chain es taken p kinds places) :
    chain? taken p 0 (es.drop p) = some (kinds, places) := by
  induction h with
  | last hp h => rw [chain?_at h hp]
  | link hp h _ ih =>
    rw [chain?_at h hp]
    simp only [ih, Option.map_some]

theorem chain_of_chain? {kinds : List NodeKind} {places : List Nat} :
    chain? taken p 0 (es.drop p) = some (kinds, places) → Chain es taken p kinds places := by
  induction hn : es.length - p using Nat.strongRecOn generalizing p kinds places with
  | ind n ih =>
    intro h
    have hp : p ∉ taken := fun hp => by simp [chain?_of_mem hp] at h
    rcases he : es[p]? with _ | e
    · rw [List.drop_eq_nil_of_le (List.getElem?_eq_none_iff.1 he)] at h
      cases h
    · have hlt := (List.getElem?_eq_some_iff.1 he).1
      rw [chain?_at he hp] at h
      rcases e with ⟨kind, _ | _ | d⟩ | _ | _ | _ <;> simp only [reduceCtorEq] at h
      · cases h
        exact .last hp he
      · obtain ⟨⟨ks, ps⟩, hrest, heq⟩ := Option.map_eq_some_iff.1 h
        cases heq
        exact .link hp he (ih _ (by omega) rfl hrest)

/-- A start opens the kinds of its chain and uses up the further places. -/
theorem opened?_eq {kind : NodeKind} {outer : Option Nat} (h : es[p]? = some (.start kind outer))
    (hp : p ∉ taken) :
    opened? taken p kind outer (es.drop (p + 1)) =
      (chain? taken p 0 (es.drop p)).map fun (kinds, places) => (kinds, places.tail) := by
  rw [chain?_at h hp]
  rcases outer with _ | _ | d
  · rfl
  · rfl
  · simp only [opened?, Option.map_map]
    rw [chain?_drop d, List.drop_drop, show p + 1 + d = p + (d + 1) by omega]
    rfl

namespace Chain

variable {kinds : List NodeKind} {places : List Nat}

/-- The first place is where the chain begins. -/
theorem mem_iff (h : Chain es taken p kinds places) : i ∈ places ↔ i = p ∨ i ∈ places.tail := by
  cases h <;> exact List.mem_cons

theorem le (h : Chain es taken p kinds places) (hi : i ∈ places) : p ≤ i := by
  induction h with
  | last => exact Nat.le_of_eq (List.mem_singleton.1 hi).symm
  | link _ _ _ ih =>
    rcases List.mem_cons.1 hi with rfl | hi
    · exact Nat.le_refl _
    · have := ih hi
      omega

theorem not_mem (h : Chain es taken p kinds places) (hi : i ∈ places) : i ∉ taken := by
  induction h with
  | last hp => exact List.mem_singleton.1 hi ▸ hp
  | link hp _ _ ih =>
    rcases List.mem_cons.1 hi with rfl | hi
    · exact hp
    · exact ih hi

theorem start (h : Chain es taken p kinds places) (hi : i ∈ places) :
    ∃ kind outer, es[i]? = some (.start kind outer) := by
  induction h with
  | last _ h => exact ⟨_, _, List.mem_singleton.1 hi ▸ h⟩
  | link _ h _ ih =>
    rcases List.mem_cons.1 hi with rfl | hi
    · exact ⟨_, _, h⟩
    · exact ih hi

/-- The places after the first are those that the links of the chain lead to. -/
theorem mem_tail_iff (h : Chain es taken p kinds places) :
    j ∈ places.tail ↔ ∃ i ∈ places, target? es i = some j := by
  induction h with
  | last _ h =>
    have hnone := target?_eq_none h (by simp)
    simp [hnone]
  | link _ h hrest ih =>
    rw [List.tail_cons, hrest.mem_iff, ih]
    simp only [List.mem_cons, exists_eq_or_imp, target?_eq_some h, Option.some.injEq]
    exact or_congr_left eq_comm

theorem lt (h : Chain es taken p kinds places) (hi : i ∈ places) (hij : target? es i = some j) :
    i < j := by
  induction h with
  | last _ h =>
    cases List.mem_singleton.1 hi
    simp [target?_eq_none h] at hij
  | link _ h _ ih =>
    rcases List.mem_cons.1 hi with rfl | hi
    · cases (target?_eq_some h).symm.trans hij
      omega
    · exact ih hi

/-- A chain goes forward, so its links lead to different starts. -/
theorem once (h : Chain es taken p kinds places) {i' : Nat} (hi : i ∈ places) (hi' : i' ∈ places)
    (hij : target? es i = some j) (hij' : target? es i' = some j) : i = i' := by
  induction h with
  | last => rw [List.mem_singleton.1 hi, List.mem_singleton.1 hi']
  | link _ h hrest ih =>
    have hlink := target?_eq_some h
    rcases List.mem_cons.1 hi with rfl | hi <;> rcases List.mem_cons.1 hi' with heq | hi'
    · exact heq.symm
    · cases hlink.symm.trans hij
      have hle := hrest.le hi'
      have hlt := hrest.lt hi' hij'
      omega
    · cases hlink.symm.trans (heq ▸ hij')
      have hle := hrest.le hi
      have hlt := hrest.lt hi hij
      omega
    · exact ih hi hi'

end Chain

/-! ### What is used up -/

/-- Before `place`, the starts that are used up are the ones that links lead to, from a start before
it or from one that is used up. -/
def UsedUp (es : List Event) (place : Nat) (taken : List Nat) : Prop :=
  ∀ j, place ≤ j → (j ∈ taken ↔ ∃ i, (i < place ∨ i ∈ taken) ∧ target? es i = some j)

theorem usedUp_zero : UsedUp es 0 [] := fun _ _ => by simp

/-- The step over an event that opens nothing. -/
theorem UsedUp.skip (h : UsedUp es place taken) (hskip : target? es place = none ∨ place ∈ taken) :
    UsedUp es (place + 1) taken := by
  intro j hj
  rw [h j (by omega)]
  refine exists_congr fun i => and_congr_left fun hi => ⟨?_, ?_⟩
  · rintro (hlt | hmem)
    · exact .inl (by omega)
    · exact .inr hmem
  · rintro (hlt | hmem)
    · rcases Nat.lt_succ_iff_lt_or_eq.1 hlt with hlt | rfl
      · exact .inl hlt
      · exact .inr (hskip.resolve_left (by simp [hi]))
    · exact .inr hmem

/-- The step over a start that opens its chain. -/
theorem UsedUp.opened {kinds : List NodeKind} {places : List Nat} (h : UsedUp es place taken)
    (hchain : Chain es taken place kinds places) :
    UsedUp es (place + 1) (places.tail ++ taken) := by
  intro j hj
  rw [List.mem_append, h j (by omega), hchain.mem_tail_iff, ← exists_or]
  refine exists_congr fun i => ?_
  rw [← or_and_right]
  refine and_congr_left fun _ => ?_
  rw [hchain.mem_iff, List.mem_append, Nat.lt_succ_iff_lt_or_eq]
  grind

namespace WellLinked

theorem target_of_usedUp (h : WellLinked es) (hused : UsedUp es place taken) (hp : place ≤ i)
    (hi : i ∉ taken) (hij : target? es i = some j) : j ∉ taken := by
  intro hj
  obtain ⟨i', hi', hij'⟩ := (hused j (by have := (h.later i j hij).1; omega)).1 hj
  cases h.once i i' j hij hij'
  rcases hi' with hlt | hmem
  · omega
  · exact hi hmem

/-- A start that is not used up opens the whole chain of its links. -/
theorem exists_chain (h : WellLinked es) (hused : UsedUp es place taken) {kind : NodeKind}
    {outer : Option Nat} (hp : place ≤ p) (hmem : p ∉ taken)
    (hstart : es[p]? = some (.start kind outer)) :
    ∃ places, Chain es taken p (chainKinds p es) places := by
  induction hn : es.length - p using Nat.strongRecOn generalizing p kind outer with
  | ind n ih =>
    have hlt := (List.getElem?_eq_some_iff.1 hstart).1
    rcases outer with _ | _ | d
    · rw [chainKinds_of_last hstart]
      exact ⟨_, .last hmem hstart⟩
    · have := (h.later _ _ (target?_eq_some hstart)).1
      omega
    · have hlink := target?_eq_some hstart
      obtain ⟨_, _, hnext⟩ := (h.later _ _ hlink).2
      obtain ⟨places, hrest⟩ := ih _ (by omega) (by omega)
        (h.target_of_usedUp hused hp hmem hlink) hnext rfl
      rw [chainKinds_of_link hstart]
      exact ⟨_, .link hmem hstart hrest⟩

/-- A start is used up when the builder comes to it if and only if a link leads to it. -/
theorem mem_iff (h : WellLinked es) (hused : UsedUp es place taken) :
    place ∈ taken ↔ ∃ k ∈ List.range es.length, target? es k = some place := by
  rw [hused place (Nat.le_refl _)]
  refine exists_congr fun k => and_congr_left fun hk => ⟨fun _ => ?_, fun _ => ?_⟩
  · unfold target? at hk
    split at hk
    · rename_i hk'
      exact List.mem_range.2 (List.getElem?_eq_some_iff.1 hk').1
    · cases hk
  · exact .inl (h.later _ _ hk).1

end WellLinked

/-- Whether each start that is not used up opens a chain, as the events are followed: none of its
links leads out of the list, to another event or to a start that a chain has opened. -/
def followed (place : Nat) (taken : List Nat) : List Event → Bool
  | [] => true
  | .start kind outer :: es =>
    if place ∈ taken then followed (place + 1) taken es
    else
      match opened? taken place kind outer es with
      | none => false
      | some (_, places) => followed (place + 1) (places ++ taken) es
  | _ :: es => followed (place + 1) taken es

theorem followed_of_wellLinked (h : WellLinked es) : ∀ (count place : Nat) (taken : List Nat),
    place + count = es.length → UsedUp es place taken → followed place taken (es.drop place) := by
  intro count
  induction count with
  | zero =>
    intro place taken hlen _
    rw [List.drop_eq_nil_of_le (by omega)]
    rfl
  | succ count ih =>
    intro place taken hlen hused
    obtain ⟨e, he⟩ : ∃ e, es[place]? = some e := ⟨_, List.getElem?_eq_getElem (by omega)⟩
    rw [drop_eq_cons he]
    cases e with
    | start kind outer =>
      rw [followed]
      split
      · rename_i hmem
        exact ih _ _ (by omega) (hused.skip (.inr hmem))
      · rename_i hmem
        obtain ⟨places, hchain⟩ := h.exists_chain hused (Nat.le_refl _) hmem he
        rw [opened?_eq he hmem, hchain.chain?_eq]
        exact ih _ _ (by omega) (hused.opened hchain)
    | _ => exact ih _ _ (by omega) (hused.skip (.inl (target?_eq_none he (by simp))))

/-- The links of the starts from `place` on that are not used up lead to later starts that are not
used up either, each to one of its own. -/
structure LinkedFrom (es : List Event) (place : Nat) (taken : List Nat) : Prop where
  later : ∀ i j, place ≤ i → i ∉ taken → target? es i = some j →
    i < j ∧ j ∉ taken ∧ ∃ kind outer, es[j]? = some (.start kind outer)
  once : ∀ i i' j, place ≤ i → i ∉ taken → place ≤ i' → i' ∉ taken → target? es i = some j →
    target? es i' = some j → i = i'

theorem wellLinked_iff_linkedFrom : WellLinked es ↔ LinkedFrom es 0 [] := by
  constructor
  · exact fun h => ⟨fun i j _ _ hij => ⟨(h.later i j hij).1, List.not_mem_nil, (h.later i j hij).2⟩,
      fun i i' j _ _ _ _ => h.once i i' j⟩
  · refine fun h => ⟨fun i j hij => ?_, fun i i' j => ?_⟩
    · obtain ⟨hlt, _, hstart⟩ := h.later i j (Nat.zero_le _) List.not_mem_nil hij
      exact ⟨hlt, hstart⟩
    · exact h.once i i' j (Nat.zero_le _) List.not_mem_nil (Nat.zero_le _) List.not_mem_nil

namespace LinkedFrom

theorem skip (h : LinkedFrom es (place + 1) taken)
    (hskip : target? es place = none ∨ place ∈ taken) : LinkedFrom es place taken := by
  have hlt {i j} (hi : place ≤ i) (hmem : i ∉ taken) (hij : target? es i = some j) :
      place + 1 ≤ i := by
    rcases Nat.lt_or_eq_of_le hi with hlt | rfl
    · exact hlt
    · exact (hskip.elim (by simp [hij]) hmem).elim
  exact ⟨fun i j hi hmem hij => h.later i j (hlt hi hmem hij) hmem hij,
    fun i i' j hi hmem hi' hmem' hij hij' =>
      h.once i i' j (hlt hi hmem hij) hmem (hlt hi' hmem' hij') hmem' hij hij'⟩

theorem opened {kinds : List NodeKind} {places : List Nat}
    (h : LinkedFrom es (place + 1) (places.tail ++ taken))
    (hchain : Chain es taken place kinds places) : LinkedFrom es place taken := by
  -- outside the chain, the start is still there after it
  have hrest {i} (hi : place ≤ i) (hmem : i ∉ taken) (hplaces : i ∉ places) :
      place + 1 ≤ i ∧ i ∉ places.tail ++ taken := by
    rw [hchain.mem_iff, not_or] at hplaces
    exact ⟨by omega, by simp [hplaces.2, hmem]⟩
  have hinside {i j} (hi : i ∈ places) (hij : target? es i = some j) : j ∈ places.tail :=
    hchain.mem_tail_iff.2 ⟨i, hi, hij⟩
  have houtside {i j} (hi : place ≤ i) (hmem : i ∉ taken) (hplaces : i ∉ places)
      (hij : target? es i = some j) : j ∉ places.tail ++ taken :=
    (h.later i j (hrest hi hmem hplaces).1 (hrest hi hmem hplaces).2 hij).2.1
  constructor
  · intro i j hi hmem hij
    by_cases hplaces : i ∈ places
    · have hj := hchain.mem_iff.2 (.inr (hinside hplaces hij))
      exact ⟨hchain.lt hplaces hij, hchain.not_mem hj, hchain.start hj⟩
    · obtain ⟨hlt, hj, hstart⟩ :=
        h.later i j (hrest hi hmem hplaces).1 (hrest hi hmem hplaces).2 hij
      exact ⟨hlt, fun hj' => hj (List.mem_append_right _ hj'), hstart⟩
  · intro i i' j hi hmem hi' hmem' hij hij'
    by_cases hplaces : i ∈ places <;> by_cases hplaces' : i' ∈ places
    · exact hchain.once hplaces hplaces' hij hij'
    · exact absurd (List.mem_append_left _ (hinside hplaces hij))
        (houtside hi' hmem' hplaces' hij')
    · exact absurd (List.mem_append_left _ (hinside hplaces' hij'))
        (houtside hi hmem hplaces hij)
    · exact h.once i i' j (hrest hi hmem hplaces).1 (hrest hi hmem hplaces).2
        (hrest hi' hmem' hplaces').1 (hrest hi' hmem' hplaces').2 hij hij'

end LinkedFrom

theorem linkedFrom_of_followed : ∀ (count place : Nat) (taken : List Nat),
    place + count = es.length → followed place taken (es.drop place) →
    LinkedFrom es place taken := by
  intro count
  induction count with
  | zero =>
    intro place taken hlen _
    have hnone {i} (hi : place ≤ i) : target? es i = none := by
      rw [target?, List.getElem?_eq_none (by omega)]
    exact ⟨fun i j hi _ hij => by simp [hnone hi] at hij,
      fun i i' j hi _ _ _ hij => by simp [hnone hi] at hij⟩
  | succ count ih =>
    intro place taken hlen h
    obtain ⟨e, he⟩ : ∃ e, es[place]? = some e := ⟨_, List.getElem?_eq_getElem (by omega)⟩
    rw [drop_eq_cons he] at h
    cases e with
    | start kind outer =>
      rw [followed] at h
      split at h
      · rename_i hmem
        exact (ih _ _ (by omega) h).skip (.inr hmem)
      · rename_i hmem
        rw [opened?_eq he hmem] at h
        rcases hchain : chain? taken place 0 (es.drop place) with _ | ⟨kinds, places⟩
        · simp [hchain] at h
        · rw [hchain] at h
          exact (ih _ _ (by omega) h).opened (chain_of_chain? hchain)
    | _ => exact (ih _ _ (by omega) h).skip (.inl (target?_eq_none he (by simp)))

/-- The links are in order if and only if the builder can follow all of them. -/
theorem wellLinked_iff : WellLinked es ↔ followed 0 [] es :=
  ⟨fun h => followed_of_wellLinked h es.length 0 [] (by omega) usedUp_zero,
    fun h => wellLinked_iff_linkedFrom.2 (linkedFrom_of_followed es.length 0 [] (by omega) h)⟩

instance : Decidable (WellLinked es) := decidable_of_iff _ wellLinked_iff.symm

/-! ### Resolved lists -/

theorem resolvedAt_start {kind : NodeKind} {outer : Option Nat}
    (h : es[i]? = some (.start kind outer)) :
    resolvedAt es i =
      if ∃ k ∈ List.range es.length, target? es k = some i then []
      else (chainKinds i es).reverse.map (.start · none) := by
  rw [resolvedAt, h]

end Event

namespace Builder

open Event

variable {es : List Event} {taken : List Nat} {place : Nat} {textLength : Nat}

/-- Plain starts open their nodes one after the other. -/
theorem run_starts (kinds : List NodeKind) (rest : List Event) : ∀ (place : Nat) (b : Builder),
    run textLength place [] b (kinds.map (.start · none) ++ rest) =
      run textLength (place + kinds.length) [] (kinds.foldl start b) rest := by
  induction kinds with
  | nil => intro place b; rfl
  | cons kind kinds ih =>
    intro place b
    rw [List.map_cons, List.cons_append, run, if_neg List.not_mem_nil]
    simp only [opened?, List.reverse_singleton, List.foldl_cons, List.foldl_nil, List.nil_append]
    rw [ih, List.length_cons, show place + 1 + kinds.length = place + (kinds.length + 1) by omega]

/-- The run over the events from a place on is the run over what stands for them.  The induction is
on how many there are; `UsedUp` carries it. -/
theorem run_resolved (h : WellLinked es) : ∀ (count place : Nat) (taken : List Nat) (b : Builder)
    (q : Nat), place + count = es.length → UsedUp es place taken →
    run textLength place taken b (es.drop place) =
      run textLength q [] b ((List.range' place count).flatMap (resolvedAt es)) := by
  intro count
  induction count with
  | zero =>
    intro place taken b q hlen _
    rw [List.drop_eq_nil_of_le (by omega)]
    rfl
  | succ count ih =>
    intro place taken b q hlen hused
    rw [List.range'_succ, List.flatMap_cons]
    obtain ⟨e, he⟩ : ∃ e, es[place]? = some e := ⟨_, List.getElem?_eq_getElem (by omega)⟩
    rw [drop_eq_cons he]
    cases e with
    | start kind outer =>
      rw [resolvedAt_start he, run]
      by_cases hmem : place ∈ taken
      · rw [if_pos hmem, if_pos ((h.mem_iff hused).1 hmem)]
        exact ih _ _ _ _ (by omega) (hused.skip (.inr hmem))
      · rw [if_neg hmem, if_neg (fun hk => hmem ((h.mem_iff hused).2 hk))]
        obtain ⟨places, hchain⟩ := h.exists_chain hused (Nat.le_refl _) hmem he
        rw [opened?_eq he hmem, hchain.chain?_eq, run_starts]
        exact ih _ _ _ _ (by omega) (hused.opened hchain)
    | token index =>
      have hskip := hused.skip (.inl (target?_eq_none he (by simp)))
      simp only [resolvedAt, he, List.singleton_append, run]
      cases b.token index with
      | error e => rfl
      | ok b => exact ih _ _ _ _ (by omega) hskip
    | finish =>
      have hskip := hused.skip (.inl (target?_eq_none he (by simp)))
      simp only [resolvedAt, he, List.singleton_append, run]
      cases b.finish textLength with
      | error e => rfl
      | ok b => exact ih _ _ _ _ (by omega) hskip
    | tombstone =>
      simp only [resolvedAt, he, List.nil_append, run]
      exact ih _ _ _ _ (by omega) (hused.skip (.inl (target?_eq_none he (by simp))))

end Builder

/-- Links mean nesting: a list whose links all lead to starts that no chain has opened builds the
tree of the resolved list, or fails with the same error. -/
theorem SyntaxTree.build_resolved (text : String) (tokens : List Token) {es : List Event}
    (h : Event.WellLinked es) :
    SyntaxTree.build text tokens es = SyntaxTree.build text tokens (Event.resolved es) := by
  have hrun : Builder.run (Text.byteLength text) 0 [] ⟨0, tokens, [], []⟩ (es.drop 0) =
      Builder.run (Text.byteLength text) 0 [] ⟨0, tokens, [], []⟩
        ((List.range' 0 es.length).flatMap (Event.resolvedAt es)) :=
    Builder.run_resolved h es.length 0 [] _ 0 (by omega) Event.usedUp_zero
  rw [List.drop_zero, ← List.range_eq_range'] at hrun
  rw [build, build, hrun, Event.resolved]

/-- Two chains that cross, with a token between their starts. -/
def Event.crossing : List Event :=
  [.start .file none, .tombstone, .start .assignOperator (some 3),
    .start .identifierExpression (some 3), .token 0, .start .assignmentStatement none,
    .start .argumentList none, .finish, .finish, .finish, .finish, .finish]

theorem SyntaxTree.build_crossing :
    Event.WellLinked Event.crossing ∧
    SyntaxTree.build "x" [⟨.identifier, ⟨0, 1⟩⟩, ⟨.endOfFile, ⟨1, 1⟩⟩] Event.crossing =
      SyntaxTree.build "x" [⟨.identifier, ⟨0, 1⟩⟩, ⟨.endOfFile, ⟨1, 1⟩⟩]
        [.start .file none, .start .assignmentStatement none, .start .assignOperator none,
          .start .argumentList none, .start .identifierExpression none, .token 0, .finish, .finish,
          .finish, .finish, .finish] :=
  ⟨by decide, build_resolved _ _ (by decide)⟩

end RSource
