import RSource.Proofs.Tree.FromOutline

/-! Trees over moved offsets.  A builder does not look at offsets, it only hands them on, so that
building over tokens that stand elsewhere gives the same tree with its spans moved (`build_moved`).
Tokens that stand in order give nodes whose spans end after they start (`build_straight`). -/

namespace RSource

open Rose (forestPreorder forestMap)

/-- The span with its ends moved. -/
def Span.moved (f : Nat → Nat) (s : Span) : Span := ⟨f s.start, f s.stop⟩

def Token.moved (f : Nat → Nat) (t : Token) : Token := ⟨t.kind, t.span.moved f⟩

def Extent.moved (f : Nat → Nat) (e : Extent) : Extent := ⟨e.kind, e.span.moved f⟩

def Node.moved (f : Nat → Nat) (node : Node) : Node := { node with span := node.span.moved f }

/-- The trees with every span moved. -/
def movedTrees (f : Nat → Nat) (trees : List (Rose Extent)) : List (Rose Extent) :=
  trees.map (Rose.map (Extent.moved f))

theorem Rose.map_node (f : Nat → Nat) (e : Extent) (cs : List (Rose Extent)) :
    (Rose.node e cs).map (Extent.moved f) = .node (e.moved f) (movedTrees f cs) := by
  rw [Rose.map, Rose.forestMap_eq_map]
  rfl

theorem Rose.exists_of_mem_forestPreorder {α : Type} {a : α} {ts : List (Rose α)}
    (h : a ∈ forestPreorder ts) : ∃ t ∈ ts, a ∈ t.preorder := by
  induction ts with
  | nil => cases h
  | cons t ts ih =>
    rcases List.mem_append.mp h with h | h
    · exact ⟨t, List.mem_cons_self, h⟩
    · obtain ⟨u, hu, ha⟩ := ih h
      exact ⟨u, List.mem_cons_of_mem _ hu, ha⟩

theorem Rose.label_map {α β : Type} (g : α → β) (t : Rose α) : (t.map g).label = g t.label := by
  cases t
  rfl

/-- A chain opens nodes of its starts only. -/
theorem Event.mem_of_chain? {taken : List Nat} {es : List Event} :
    ∀ {place skip : Nat} {kinds : List NodeKind} {places : List Nat},
    Event.chain? taken place skip es = some (kinds, places) →
      ∀ kind ∈ kinds, ∃ outer, Event.start kind outer ∈ es := by
  induction es with
  | nil => intro place skip kinds places h; cases h
  | cons e es ih =>
    intro place skip kinds places h kind hkind
    cases skip with
    | succ skip =>
      obtain ⟨outer, hmem⟩ := ih h kind hkind
      exact ⟨outer, List.mem_cons_of_mem _ hmem⟩
    | zero =>
      unfold Event.chain? at h
      simp only at h
      split at h
      · cases h
      · split at h
        · cases h
          obtain rfl := List.mem_singleton.mp hkind
          exact ⟨none, List.mem_cons_self⟩
        · next d =>
          obtain ⟨⟨kinds', places'⟩, hchain, hpair⟩ := Option.map_eq_some_iff.mp h
          cases hpair
          rcases List.mem_cons.mp hkind with rfl | hkind
          · exact ⟨some (d + 1), List.mem_cons_self⟩
          · obtain ⟨outer, hmem⟩ := ih hchain kind hkind
            exact ⟨outer, List.mem_cons_of_mem _ hmem⟩
        · cases h

theorem Event.mem_of_opened? {taken : List Nat} {place : Nat} {kind : NodeKind}
    {outer : Option Nat} {rest : List Event} {kinds : List NodeKind} {places : List Nat}
    (h : Event.opened? taken place kind outer rest = some (kinds, places)) :
    ∀ k ∈ kinds, k = kind ∨ ∃ outer, Event.start k outer ∈ rest := by
  intro k hk
  unfold Event.opened? at h
  split at h
  · cases h
    exact .inl (List.mem_singleton.mp hk)
  · cases h
  · obtain ⟨⟨kinds', places'⟩, hchain, hpair⟩ := Option.map_eq_some_iff.mp h
    cases hpair
    rcases List.mem_cons.mp hk with rfl | hk
    · exact .inl rfl
    · exact .inr (Event.mem_of_chain? hchain k hk)

namespace Builder

/-- What every step keeps is kept by a run; nodes are opened of kinds that the events start. -/
theorem run_keeps {P : Builder → Prop} {K : NodeKind → Prop} {n : Nat}
    (hstart : ∀ b kind, K kind → P b → P (b.start kind))
    (htoken : ∀ b b' index, P b → b.token index = .ok b' → P b')
    (hfinish : ∀ b b', P b → b.finish n = .ok b' → P b') (es : List Event) :
    ∀ {place : Nat} {taken : List Nat} {b b' : Builder},
    (∀ kind outer, .start kind outer ∈ es → K kind) → P b →
    run n place taken b es = .ok b' → P b' := by
  induction es with
  | nil =>
    intro place taken b b' _ h hrun
    obtain rfl := Except.ok.inj hrun
    exact h
  | cons e es ih =>
    intro place taken b b' hkinds h hrun
    have hrest : ∀ kind outer, .start kind outer ∈ es → K kind := fun kind outer hmem =>
      hkinds kind outer (List.mem_cons_of_mem _ hmem)
    cases e with
    | tombstone => exact ih hrest h hrun
    | finish =>
      obtain ⟨d, hd, hrun⟩ := bind_eq_ok_iff.mp hrun
      exact ih hrest (hfinish b d h hd) hrun
    | token index =>
      obtain ⟨d, hd, hrun⟩ := bind_eq_ok_iff.mp hrun
      exact ih hrest (htoken b d index h hd) hrun
    | start kind outer =>
      have hstarts : ∀ (kinds : List NodeKind) (b : Builder), (∀ k ∈ kinds, K k) → P b →
          P (kinds.foldl start b) := by
        intro kinds
        induction kinds with
        | nil => exact fun b _ hb => hb
        | cons k kinds ih =>
          intro b hks hb
          have ⟨hk, hks⟩ := List.forall_mem_cons.mp hks
          exact ih _ hks (hstart b k hk hb)
      rw [run] at hrun
      split at hrun
      · exact ih hrest h hrun
      · cases hopened : Event.opened? taken place kind outer es with
        | none => simp [hopened] at hrun
        | some opened =>
          simp only [hopened] at hrun
          refine ih hrest (hstarts _ b (fun k hk => ?_) h) hrun
          rcases Event.mem_of_opened? hopened k (List.mem_reverse.mp hk) with rfl | ⟨outer', hmem⟩
          · exact hkinds k outer List.mem_cons_self
          · exact hrest k outer' hmem

variable (f : Nat → Nat) {b b' : Builder} {n : Nat}

def movedFrame (frame : Frame) : Frame := ⟨frame.kind, movedTrees f frame.children⟩

/-- The builder with every span moved. -/
def moved (b : Builder) : Builder :=
  ⟨b.place, b.tokens.map (Token.moved f), b.frames.map (movedFrame f), movedTrees f b.finished⟩

theorem add_moved (b : Builder) (tree : Rose Extent) :
    (b.moved f).add (tree.map (Extent.moved f)) = (b.add tree).moved f := by
  cases hframes : b.frames with
  | nil => simp [add, moved, hframes, movedTrees]
  | cons frame rest => simp [add, moved, hframes, movedFrame, movedTrees]

theorem leaf_moved (t : Token) : leaf (t.moved f) = (leaf t).map (Extent.moved f) := rfl

theorem foldl_add_moved (ts : List Token) : ∀ b : Builder,
    (ts.map (Token.moved f)).foldl (fun b token => b.add (leaf token)) (b.moved f) =
      (ts.foldl (fun b token => b.add (leaf token)) b).moved f := by
  induction ts with
  | nil => intro b; rfl
  | cons t ts ih =>
    intro b
    rw [List.map_cons, List.foldl_cons, List.foldl_cons, leaf_moved, add_moved, ih]

theorem attach_moved (b : Builder) (ts rest : List Token) :
    (b.moved f).attach (ts.map (Token.moved f)) (rest.map (Token.moved f)) =
      (b.attach ts rest).moved f := by
  rw [attach, foldl_add_moved, attach, List.length_map]
  rfl

theorem attachWhile_moved (b : Builder) (p : TokenKind → Bool) :
    (b.moved f).attachWhile p = (b.attachWhile p).moved f := by
  have htake : (b.moved f).tokens.takeWhile (p ·.kind) =
      (b.tokens.takeWhile (p ·.kind)).map (Token.moved f) := List.takeWhile_map
  have hdrop : (b.moved f).tokens.dropWhile (p ·.kind) =
      (b.tokens.dropWhile (p ·.kind)).map (Token.moved f) := List.dropWhile_map
  rw [attachWhile, htake, hdrop, attach_moved]
  rfl

theorem start_moved (b : Builder) (kind : NodeKind) :
    (b.moved f).start kind = (b.start kind).moved f := by
  have hopen : (b.moved f).frames.isEmpty = b.frames.isEmpty := List.isEmpty_map
  rw [start, start, hopen, attachWhile_moved]
  split
  · rfl
  · rfl

theorem token_moved (b : Builder) (index : Nat) :
    (b.moved f).token index = (b.token index).map (moved f) := by
  have htake : ∀ m, (b.moved f).tokens.take m = (b.tokens.take m).map (Token.moved f) :=
    fun m => List.map_take.symm
  have hdrop : ∀ m, (b.moved f).tokens.drop m = (b.tokens.drop m).map (Token.moved f) :=
    fun m => List.map_drop.symm
  have hplace : (b.moved f).place = b.place := rfl
  simp only [token, hplace, htake, hdrop, List.length_map, attach_moved]
  split
  · rfl
  · rfl

theorem offset_moved (b : Builder) (n : Nat) : (b.moved f).offset (f n) = f (b.offset n) := by
  cases htokens : b.tokens with
  | nil => simp [offset, moved, htokens]
  | cons t ts => simp [offset, moved, htokens, Token.moved, Span.moved]

theorem cover_moved (n : Nat) (trees : List (Rose Extent)) :
    cover (f n) (movedTrees f trees) = (cover n trees).moved f := by
  simp only [cover, movedTrees, List.head?_map, List.getLast?_map]
  cases trees.head? with
  | none => rfl
  | some first =>
    cases trees.getLast? with
    | none => rfl
    | some last => simp [Rose.label_map, Extent.moved, Span.moved]

theorem finish_moved (b : Builder) (n : Nat) :
    (b.moved f).finish (f n) = (b.finish n).map (moved f) := by
  have hlast : (b.moved f).frames.tail.isEmpty = b.frames.tail.isEmpty := by
    simp [moved, ← List.map_tail]
  have hbuilder : (if (b.moved f).frames.tail.isEmpty then
        (b.moved f).attachWhile (· ≠ .endOfFile) else b.moved f) =
      (if b.frames.tail.isEmpty then b.attachWhile (· ≠ .endOfFile) else b).moved f := by
    rw [hlast, attachWhile_moved]
    split
    · rfl
    · rfl
  rw [finish, finish, hbuilder]
  generalize (if b.frames.tail.isEmpty then b.attachWhile (· ≠ .endOfFile) else b) = d
  cases hframes : d.frames with
  | nil => simp [moved, hframes, Except.map]
  | cons frame rest =>
    have hchildren : (movedFrame f frame).children.reverse =
        movedTrees f frame.children.reverse := by
      simp [movedFrame, movedTrees]
    have hmoved : (d.moved f).frames = movedFrame f frame :: rest.map (movedFrame f) := by
      simp [moved, hframes]
    simp only [hmoved, hchildren, offset_moved, cover_moved, Except.map]
    rw [← add_moved, Rose.map_node]
    rfl

theorem run_moved (n : Nat) (es : List Event) : ∀ (place : Nat) (taken : List Nat) (b : Builder),
    run (f n) place taken (b.moved f) es = (run n place taken b es).map (moved f) := by
  induction es with
  | nil => intro place taken b; rfl
  | cons e es ih =>
    intro place taken b
    cases e with
    | tombstone => exact ih _ _ _
    | finish =>
      rw [run, run, finish_moved]
      cases b.finish n with
      | error e => rfl
      | ok d => exact ih _ _ d
    | token index =>
      rw [run, run, token_moved]
      cases b.token index with
      | error e => rfl
      | ok d => exact ih _ _ d
    | start kind outer =>
      have hstarts : ∀ (kinds : List NodeKind) (b : Builder),
          kinds.foldl start (b.moved f) = (kinds.foldl start b).moved f := by
        intro kinds
        induction kinds with
        | nil => intro b; rfl
        | cons k kinds ih => intro b; rw [List.foldl_cons, List.foldl_cons, start_moved, ih]
      rw [run, run]
      split
      · exact ih _ _ _
      · cases Event.opened? taken place kind outer es with
        | none => rfl
        | some opened =>
          simp only [hstarts]
          exact ih _ _ _

theorem result_moved (b : Builder) :
    (b.moved f).result = b.result.map (Rose.map (Extent.moved f)) := by
  cases hframes : b.frames with
  | cons frame rest => simp [result, moved, hframes, Except.map]
  | nil =>
    cases hfinished : b.finished with
    | nil => simp [result, moved, hframes, hfinished, movedTrees, Except.map]
    | cons tree ts =>
      cases ts with
      | nil => simp [result, moved, hframes, hfinished, movedTrees, Except.map]
      | cons u ts => simp [result, moved, hframes, hfinished, movedTrees, Except.map]

end Builder

/-! ### Nodes -/

namespace SyntaxTree

variable (f : Nat → Nat)

/-- A numbered node with its span moved. -/
def movedLabel (p : NodeId × Extent) : NodeId × Extent := (p.1, p.2.moved f)

mutual
theorem number_moved (first : NodeId) : (t : Rose Extent) →
    number first (t.map (Extent.moved f)) =
      ((number first t).1.map (movedLabel f), (number first t).2)
  | .node e cs => by
    rw [Rose.map, number_node, numberAll_moved first cs]
    rfl

theorem numberAll_moved (first : NodeId) : (ts : List (Rose Extent)) →
    numberAll first (forestMap (Extent.moved f) ts) =
      (forestMap (movedLabel f) (numberAll first ts).1, (numberAll first ts).2)
  | [] => rfl
  | t :: ts => by
    rw [forestMap, numberAll_cons, number_moved first t, numberAll_moved _ ts]
    rfl
end

mutual
theorem nodesThen_moved (rest : List Node) (parent : Option NodeId) :
    (n : Rose (NodeId × Extent)) →
      nodesThen (rest.map (Node.moved f)) parent (n.map (movedLabel f)) =
        (nodesThen rest parent n).map (Node.moved f)
  | .node (id, e) cs => by
    have hchildren : (forestMap (movedLabel f) cs).map (·.label.1) = cs.map (·.label.1) := by
      rw [Rose.forestMap_eq_map, List.map_map]
      refine List.map_congr_left fun c _ => ?_
      simp [Rose.label_map, movedLabel]
    have hbelow := forestNodesThen_moved
      (⟨e.kind, e.span, parent, cs.map (·.label.1)⟩ :: rest) id cs
    simp only [Rose.map, nodesThen, hchildren]
    exact hbelow

theorem forestNodesThen_moved (rest : List Node) (parent : NodeId) :
    (ns : List (Rose (NodeId × Extent))) →
      forestNodesThen (rest.map (Node.moved f)) parent (forestMap (movedLabel f) ns) =
        (forestNodesThen rest parent ns).map (Node.moved f)
  | [] => rfl
  | n :: ns => by
    rw [forestMap, forestNodesThen, forestNodesThen_moved rest parent ns,
      nodesThen_moved _ (some parent) n, forestNodesThen]
end

theorem ofRose_moved (text text' : String) (r : Rose Extent) :
    ofRose text' (r.map (Extent.moved f)) =
      ⟨text', (ofRose text r).nodes.map (Node.moved f), (ofRose text r).root⟩ := by
  have hnodes := nodesThen_moved f [] none (number 0 r).1
  rw [List.map_nil] at hnodes
  simp only [ofRose, number_moved, hnodes, Rose.label_map, movedLabel, List.map_toArray]

/-- Building over tokens that stand elsewhere moves the spans. -/
theorem build_moved {text text' : String} {tokens : List Token} {events : List Event}
    {t : SyntaxTree} (hsize : Text.byteLength text' = f (Text.byteLength text))
    (h : build text tokens events = .ok t) :
    build text' (tokens.map (Token.moved f)) events =
      .ok ⟨text', t.nodes.map (Node.moved f), t.root⟩ := by
  obtain ⟨b, r, hrun, hresult, rfl⟩ := build_eq_ok_iff.mp h
  refine build_eq_ok_iff.mpr ⟨b.moved f, r.map (Extent.moved f), ?_, ?_, ?_⟩
  · show Builder.run _ 0 [] (Builder.moved f ⟨0, tokens, [], []⟩) events = _
    rw [hsize, Builder.run_moved, hrun]
    rfl
  · rw [Builder.result_moved, hresult]
    rfl
  · rw [ofRose_moved f text text']

end SyntaxTree

/-! ### Order -/

/-- The span ends after it starts. -/
def Span.Straight (s : Span) : Prop := s.start ≤ s.stop

/-- The span ends where the other starts, or before. -/
def Span.Before (s t : Span) : Prop := s.stop ≤ t.start

/-- Spans that stand in order. -/
def InOrder (spans : List Span) : Prop := spans.Pairwise Span.Before ∧ ∀ s ∈ spans, s.Straight

theorem inOrder_nil : InOrder [] := ⟨.nil, fun s hs => by cases hs⟩

theorem InOrder.sublist {xs ys : List Span} (h : InOrder ys) (hsub : xs.Sublist ys) :
    InOrder xs :=
  ⟨h.1.sublist hsub, fun s hs => h.2 s (hsub.mem hs)⟩

/-- Neighbours in order may be taken together. -/
theorem InOrder.cover {outer xs after : List Span} {next : Span}
    (h : InOrder (outer ++ xs ++ next :: after)) {s : Span}
    (hs : (xs = [] ∧ s = .point next.start) ∨
      ∃ first ∈ xs.head?, ∃ last ∈ xs.getLast?, s = ⟨first.start, last.stop⟩) :
    InOrder (outer ++ s :: next :: after) := by
  obtain ⟨hpairs, hstraight⟩ := h
  obtain ⟨houter, hafter, hcross⟩ := List.pairwise_append.mp hpairs
  obtain ⟨houter, hxs, hcross'⟩ := List.pairwise_append.mp houter
  have hnext := (List.pairwise_cons.mp hafter).1
  have hnext' : next.Straight := hstraight next (by simp)
  have hwhole : (∀ x ∈ outer, x.Before s) ∧ (∀ y ∈ next :: after, s.Before y) ∧ s.Straight := by
    rcases hs with ⟨rfl, rfl⟩ | ⟨first, hfirst, last, hlast, rfl⟩
    · refine ⟨fun x hx => hcross x (by simp [hx]) next List.mem_cons_self, fun y hy => ?_,
        Nat.le_refl _⟩
      rcases List.mem_cons.mp hy with rfl | hy
      · exact Nat.le_refl _
      · exact Nat.le_trans hnext' (hnext y hy)
    · have hfirst' := List.mem_of_mem_head? hfirst
      have hlast' := List.mem_of_mem_getLast? hlast
      refine ⟨fun x hx => hcross' x hx first hfirst',
        fun y hy => hcross last (List.mem_append_right _ hlast') y hy, ?_⟩
      have hstraight' : first.Straight := hstraight first (by simp [hfirst'])
      cases xs with
      | nil => cases hfirst'
      | cons x xs =>
        obtain rfl : x = first := Option.some.inj hfirst
        rcases List.mem_cons.mp hlast' with rfl | hmem
        · exact hstraight'
        · have hbefore := (List.pairwise_cons.mp hxs).1 last hmem
          have hend : last.Straight := hstraight last (by simp [hmem])
          exact Nat.le_trans hstraight' (Nat.le_trans hbefore hend)
  refine ⟨List.pairwise_append.mpr ⟨houter, ?_, ?_⟩, fun x hx => ?_⟩
  · exact List.pairwise_cons.mpr ⟨hwhole.2.1, hafter⟩
  · intro x hx y hy
    rcases List.mem_cons.mp hy with rfl | hy
    · exact hwhole.1 x hx
    · exact hcross x (List.mem_append_left _ hx) y hy
  · rcases List.mem_append.mp hx with hx | hx
    · exact hstraight x (by simp [hx])
    · rcases List.mem_cons.mp hx with rfl | hx
      · exact hwhole.2.2
      · exact hstraight x (List.mem_append_right _ hx)

/-- Every node of the tree ends after it starts. -/
def Rose.Straight (tree : Rose Extent) : Prop := ∀ e ∈ tree.preorder, e.span.Straight

namespace Builder

/-- The spans of the finished children of open nodes, in order. -/
def openSpans (frames : List Frame) : List Span :=
  frames.reverse.flatMap fun frame => frame.children.reverse.map (·.label.span)

/-- The spans of what is in open nodes and of what is to come, up to the end of the text. -/
def spans (n : Nat) (b : Builder) : List Span :=
  openSpans b.frames ++ (b.tokens.map Token.span ++ [.point n])

/-- The trees built so far. -/
def trees (b : Builder) : List (Rose Extent) := b.frames.flatMap Frame.children ++ b.finished

structure Sorted (n : Nat) (b : Builder) : Prop where
  inOrder : InOrder (b.spans n)
  straight : ∀ tree ∈ b.trees, tree.Straight

variable {b b' : Builder} {n : Nat}

theorem openSpans_cons (frame : Frame) (rest : List Frame) :
    openSpans (frame :: rest) =
      openSpans rest ++ frame.children.reverse.map (·.label.span) := by
  simp [openSpans]

theorem openSpans_add (b : Builder) (tree : Rose Extent) :
    (openSpans (b.add tree).frames).Sublist (openSpans b.frames ++ [tree.label.span]) := by
  cases hframes : b.frames with
  | nil => simp [add, hframes, openSpans]
  | cons frame rest => simp [add, hframes, openSpans_cons]

theorem tokens_add (b : Builder) (tree : Rose Extent) : (b.add tree).tokens = b.tokens := by
  rw [add]
  split
  · rfl
  · rfl

theorem mem_trees_add {tree t : Rose Extent} (h : t ∈ (b.add tree).trees) :
    t = tree ∨ t ∈ b.trees := by
  cases hframes : b.frames with
  | nil =>
    simp only [add, hframes, trees, List.mem_append, List.mem_cons] at h ⊢
    tauto
  | cons frame rest =>
    simp only [add, hframes, trees, List.mem_append, List.flatMap_cons, List.mem_cons] at h ⊢
    tauto

/-- Tokens that are attached stand where they stood. -/
theorem Sorted.attach (h : b.Sorted n) {ts rest : List Token} (htokens : b.tokens = ts ++ rest) :
    (b.attach ts rest).Sorted n := by
  have hfold : ∀ (ts : List Token) (b : Builder),
      (openSpans (ts.foldl (fun b token => b.add (leaf token)) b).frames).Sublist
        (openSpans b.frames ++ ts.map Token.span) ∧
      ∀ t ∈ (ts.foldl (fun b token => b.add (leaf token)) b).trees,
        t ∈ b.trees ∨ ∃ token ∈ ts, t = leaf token := by
    intro ts
    induction ts with
    | nil => intro b; simp
    | cons t ts ih =>
      intro b
      obtain ⟨hspans, htrees⟩ := ih (b.add (leaf t))
      refine ⟨hspans.trans ?_, fun u hu => ?_⟩
      · simpa [leaf, Rose.label] using (openSpans_add b (leaf t)).append_right (ts.map Token.span)
      · rcases htrees u hu with hu | ⟨token, htoken, rfl⟩
        · rcases mem_trees_add hu with rfl | hu
          · exact .inr ⟨t, List.mem_cons_self, rfl⟩
          · exact .inl hu
        · exact .inr ⟨token, List.mem_cons_of_mem _ htoken, rfl⟩
  obtain ⟨hspans, htrees⟩ := hfold ts b
  refine ⟨h.inOrder.sublist ?_, fun t ht => ?_⟩
  · have hsub := hspans.append_right (rest.map Token.span ++ [.point n])
    simpa [spans, htokens, Builder.attach] using hsub
  · rcases htrees t ht with ht | ⟨token, htoken, rfl⟩
    · exact h.straight t ht
    · have hspan : token.span ∈ b.spans n := by
        rw [spans, htokens]
        simp [List.mem_map_of_mem htoken]
      intro e he
      obtain rfl : e = ⟨.token token.kind, token.span⟩ := by
        simpa [leaf, Rose.preorder, Rose.forestPreorder] using he
      exact h.inOrder.2 _ hspan

theorem Sorted.attachWhile (h : b.Sorted n) (p : TokenKind → Bool) :
    (b.attachWhile p).Sorted n :=
  h.attach List.takeWhile_append_dropWhile.symm

theorem Sorted.start (h : b.Sorted n) (kind : NodeKind) : (b.start kind).Sorted n := by
  have hopened : ∀ b : Builder, b.Sorted n →
      Sorted n { b with frames := ⟨kind, []⟩ :: b.frames } := by
    intro b hb
    refine ⟨?_, hb.straight⟩
    show InOrder (openSpans (⟨kind, []⟩ :: b.frames) ++ (b.tokens.map Token.span ++ [.point n]))
    rw [openSpans_cons]
    simpa [spans] using hb.inOrder
  rw [Builder.start]
  split
  · exact hopened b h
  · exact hopened _ (h.attachWhile _)

theorem Sorted.token (h : b.Sorted n) {index : Nat} (hb : b.token index = .ok b') :
    b'.Sorted n := by
  simp only [Builder.token] at hb
  split at hb
  · obtain rfl := Except.ok.inj hb
    exact h.attach (List.take_append_drop _ _).symm
  · cases hb

/-- What comes next begins where an empty node would stand. -/
theorem exists_next (b : Builder) (n : Nat) : ∃ next after,
    b.tokens.map Token.span ++ [.point n] = next :: after ∧ b.offset n = next.start := by
  cases htokens : b.tokens with
  | nil => exact ⟨.point n, [], rfl, by simp [offset, htokens, Span.point]⟩
  | cons t ts => exact ⟨t.span, _, rfl, by simp [offset, htokens]⟩

theorem cover_cases (n : Nat) (trees : List (Rose Extent)) :
    (trees = [] ∧ cover n trees = .point n) ∨
      ∃ first ∈ trees.head?, ∃ last ∈ trees.getLast?,
        cover n trees = ⟨first.label.span.start, last.label.span.stop⟩ := by
  cases trees with
  | nil => exact .inl ⟨rfl, rfl⟩
  | cons first rest =>
    have hlast := List.getLast?_eq_some_getLast (List.cons_ne_nil first rest)
    refine .inr ⟨first, rfl, (first :: rest).getLast (List.cons_ne_nil _ _), hlast, ?_⟩
    simp only [cover, List.head?_cons, hlast]

theorem Sorted.finish (h : b.Sorted n) (hb : b.finish n = .ok b') : b'.Sorted n := by
  rw [Builder.finish] at hb
  have hopen : Sorted n
      (if b.frames.tail.isEmpty then b.attachWhile (· ≠ .endOfFile) else b) := by
    split
    · exact h.attachWhile _
    · exact h
  generalize (if b.frames.tail.isEmpty then b.attachWhile (· ≠ .endOfFile) else b) = d
    at hb hopen
  cases hframes : d.frames with
  | nil => simp [hframes] at hb
  | cons frame rest =>
    simp only [hframes, Except.ok.injEq] at hb
    subst hb
    obtain ⟨next, after, hnext, hoffset⟩ := exists_next d n
    have hspans := hopen.inOrder
    rw [spans, hframes, openSpans_cons, hnext] at hspans
    have hcover : InOrder (openSpans rest ++
        cover (d.offset n) frame.children.reverse :: next :: after) := by
      refine hspans.cover ?_
      rcases cover_cases (d.offset n) frame.children.reverse with ⟨hnil, hpoint⟩ |
        ⟨first, hfirst, last, hlast, hcover⟩
      · exact .inl ⟨by rw [hnil]; rfl, by rw [hpoint, hoffset]⟩
      · refine .inr ⟨first.label.span, ?_, last.label.span, ?_, hcover⟩
        · rw [List.head?_map]
          exact Option.mem_map_of_mem _ hfirst
        · rw [List.getLast?_map]
          exact Option.mem_map_of_mem _ hlast
    have hwhole : ∀ t ∈ frame.children, t ∈ d.trees := fun t ht => by
      simp [trees, hframes, ht]
    refine ⟨hcover.sublist ?_, fun t ht => ?_⟩
    · rw [spans, tokens_add, hnext]
      simpa [Rose.label] using (openSpans_add _ _).append_right (next :: after)
    · rcases mem_trees_add ht with rfl | ht
      · intro e he
        rcases List.mem_cons.mp he with rfl | he
        · exact hcover.2 _ (by simp)
        · obtain ⟨c, hc, he⟩ := Rose.exists_of_mem_forestPreorder he
          exact hopen.straight c (hwhole c (by simpa using hc)) e he
      · refine hopen.straight t ?_
        simp only [trees, hframes, List.flatMap_cons, List.mem_append] at ht ⊢
        tauto

theorem Sorted.run (es : List Event) {place : Nat} {taken : List Nat} (h : b.Sorted n)
    (hrun : run n place taken b es = .ok b') : b'.Sorted n :=
  run_keeps (K := fun _ => True) (fun _ kind _ h => h.start kind) (fun _ _ _ h hb => h.token hb)
    (fun _ _ h hb => h.finish hb) es (fun _ _ _ => trivial) h hrun

end Builder

namespace SyntaxTree

variable {text : String} {tokens : List Token} {events : List Event} {t : SyntaxTree}

mutual
theorem mem_nodesThen {node : Node} (rest : List Node) (parent : Option NodeId) :
    (n : Rose (NodeId × Extent)) → node ∈ nodesThen rest parent n →
      node ∈ rest ∨ ∃ p ∈ n.preorder, p.2 = ⟨node.kind, node.span⟩
  | .node (id, e) cs, h => by
    rcases mem_forestNodesThen _ id cs h with h | ⟨p, hp, hnode⟩
    · rcases List.mem_cons.mp h with rfl | h
      · exact .inr ⟨(id, e), List.mem_cons_self, rfl⟩
      · exact .inl h
    · exact .inr ⟨p, List.mem_cons_of_mem _ hp, hnode⟩

theorem mem_forestNodesThen {node : Node} (rest : List Node) (parent : NodeId) :
    (ns : List (Rose (NodeId × Extent))) → node ∈ forestNodesThen rest parent ns →
      node ∈ rest ∨ ∃ p ∈ forestPreorder ns, p.2 = ⟨node.kind, node.span⟩
  | [], h => .inl h
  | n :: ns, h => by
    rcases mem_nodesThen _ (some parent) n h with h | ⟨p, hp, hnode⟩
    · rcases mem_forestNodesThen rest parent ns h with h | ⟨p, hp, hnode⟩
      · exact .inl h
      · exact .inr ⟨p, List.mem_append_right _ hp, hnode⟩
    · exact .inr ⟨p, List.mem_append_left _ hp, hnode⟩
end

/-- Every node stands for a node of the rose tree. -/
theorem mem_nodes_ofRose {r : Rose Extent} {node : Node} (h : node ∈ (ofRose text r).nodes) :
    ⟨node.kind, node.span⟩ ∈ r.preorder := by
  have hmem : node ∈ nodesThen [] none (number 0 r).1 := by
    simpa [ofRose] using h
  rcases mem_nodesThen [] none _ hmem with h | ⟨p, hp, hnode⟩
  · cases h
  · rw [← map_number 0 r, Rose.preorder_map, ← hnode]
    exact List.mem_map_of_mem hp

/-- A tree over tokens that stand in order has no node that ends before it starts. -/
theorem build_straight
    (hsorted : InOrder (tokens.map Token.span ++ [.point (Text.byteLength text)]))
    (h : build text tokens events = .ok t) : ∀ node ∈ t.nodes, node.span.Straight := by
  obtain ⟨b, r, hrun, hresult, rfl⟩ := build_eq_ok_iff.mp h
  have hstart : Builder.Sorted (Text.byteLength text) ⟨0, tokens, [], []⟩ :=
    ⟨hsorted, fun tree htree => by cases htree⟩
  have hdone := Builder.Sorted.run events hstart hrun
  have htree : r ∈ b.trees := by
    rw [Builder.result] at hresult
    split at hresult
    · next tree hframes hfinished =>
      obtain rfl := Except.ok.inj hresult
      simp [Builder.trees, hfinished]
    · cases hresult
    · cases hresult
  exact fun node hnode => hdone.straight r htree _ (mem_nodes_ofRose hnode)

end SyntaxTree

end RSource
