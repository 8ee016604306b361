import RSource.Proofs.Except
import RSource.Proofs.Parser.Reading
import RSource.Proofs.Tree.Places

/-! Building from outlines.  The events of an outline open and close its nodes in their order and
have no links, so that a builder can follow the outline itself (`take`).  When the tokens of the
outline are the next ones that are not layout, the builder comes through, and the trees it adds are
the outline with the layout between (`Dressed`). -/

namespace RSource

open Rose (forestPreorder forestMap)

namespace Outline

mutual
/-- No node of the outline is of a token's kind. -/
def Plain : Outline → Prop
  | .token _ => True
  | .node kind os => kind.tokenKind? = none ∧ ForestPlain os

def ForestPlain : List Outline → Prop
  | [] => True
  | o :: os => o.Plain ∧ ForestPlain os
end

theorem ofTree_node {kind : NodeKind} (h : kind.tokenKind? = none) (place : Nat)
    (cs : List (Rose NodeKind)) :
    ofTree place (.node kind cs) = ([.node kind (ofForest place cs).1], (ofForest place cs).2) := by
  cases kind <;> first | rfl | cases h

@[simp] theorem ofForest_append (place : Nat) (ts us : List (Rose NodeKind)) :
    ofForest place (ts ++ us) =
      ((ofForest place ts).1 ++ (ofForest (ofForest place ts).2 us).1,
        (ofForest (ofForest place ts).2 us).2) := by
  induction ts generalizing place with
  | nil => simp [ofForest]
  | cons t ts ih => simp [ofForest, ih]

end Outline

namespace Builder

mutual
/-- Opens, takes up and closes what the outline says. -/
def take (textLength : Nat) (b : Builder) : Outline → Except TreeError Builder
  | .token index => b.token index
  | .node kind os => do (← forestTake textLength (b.start kind) os).finish textLength

def forestTake (textLength : Nat) (b : Builder) : List Outline → Except TreeError Builder
  | [] => .ok b
  | o :: os => do forestTake textLength (← take textLength b o) os
end

mutual
/-- Following the events of an outline is taking up the outline. -/
theorem run_eventsThen (n place : Nat) : (o : Outline) → ∃ place', ∀ b rest,
    run n place [] b (o.eventsThen rest) = do run n place' [] (← take n b o) rest
  | .token index => ⟨place + 1, fun _ _ => rfl⟩
  | .node kind os => by
    obtain ⟨place', h⟩ := run_forestEventsThen n (place + 1) os
    refine ⟨place' + 1, fun b rest => ?_⟩
    have hstart :
        run n place [] b (.start kind none :: Outline.forestEventsThen (.finish :: rest) os) =
          run n (place + 1) [] (b.start kind) (Outline.forestEventsThen (.finish :: rest) os) := by
      simp [run, Event.opened?]
    rw [Outline.eventsThen, hstart, h]
    simp only [take, bind_assoc]
    rfl

theorem run_forestEventsThen (n place : Nat) : (os : List Outline) → ∃ place', ∀ b rest,
    run n place [] b (Outline.forestEventsThen rest os) =
      do run n place' [] (← forestTake n b os) rest
  | [] => ⟨place, fun _ _ => rfl⟩
  | o :: os => by
    obtain ⟨place', h⟩ := run_eventsThen n place o
    obtain ⟨place'', h'⟩ := run_forestEventsThen n place' os
    refine ⟨place'', fun b rest => ?_⟩
    simp only [Outline.forestEventsThen, h, h', forestTake, bind_assoc]
end

/-! ### Adding trees -/

/-- The tokens in the leaves of trees. -/
def leavesOf (trees : List (Rose Extent)) : List Token :=
  (forestPreorder trees).filterMap Extent.token?

@[simp] theorem leavesOf_append (ts us : List (Rose Extent)) :
    leavesOf (ts ++ us) = leavesOf ts ++ leavesOf us := by
  simp [leavesOf]

theorem leavesOf_leaves (toks : List Token) : leavesOf (toks.map leaf) = toks := by
  induction toks with
  | nil => rfl
  | cons t toks ih =>
    simp only [List.map_cons, leavesOf, forestPreorder, leaf, Rose.preorder] at ih ⊢
    simp [ih, Extent.token?, NodeKind.tokenKind?]

theorem leavesOf_node {kind : NodeKind} (h : kind.tokenKind? = none) (span : Span)
    (trees : List (Rose Extent)) : leavesOf [.node ⟨kind, span⟩ trees] = leavesOf trees := by
  simp [leavesOf, forestPreorder, Rose.preorder, Extent.token?, h]

/-- `b'` is `b` with trees added to its innermost open node, which hold the tokens taken. -/
structure Added (b : Builder) (trees : List (Rose Extent)) (b' : Builder) : Prop where
  frames : ∃ frame rest, b.frames = frame :: rest ∧
    b'.frames = { frame with children := trees.reverse ++ frame.children } :: rest
  finished : b'.finished = b.finished
  tokens : b.tokens = leavesOf trees ++ b'.tokens
  place : b'.place = b.place + (leavesOf trees).length

variable {b b' b'' : Builder} {ts us : List (Rose Extent)} {more : List Nat}

theorem Added.trans (h : Added b ts b') (h' : Added b' us b'') : Added b (ts ++ us) b'' := by
  obtain ⟨frame, rest, hframe, hframe'⟩ := h.frames
  obtain ⟨_, _, hnext, hnext'⟩ := h'.frames
  obtain ⟨rfl, rfl⟩ := List.cons.inj (hframe'.symm.trans hnext)
  refine ⟨⟨frame, rest, hframe, ?_⟩, h'.finished.trans h.finished, ?_, ?_⟩
  · rw [hnext']
    simp
  · rw [h.tokens, h'.tokens, leavesOf_append, List.append_assoc]
  · rw [h'.place, h.place, leavesOf_append, List.length_append, Nat.add_assoc]

theorem Added.refl (h : b.frames ≠ []) : Added b [] b := by
  obtain ⟨frame, rest, hframe⟩ := List.exists_cons_of_ne_nil h
  exact ⟨⟨frame, rest, hframe, by simpa using hframe⟩, rfl, rfl, rfl⟩

theorem Added.frames_ne_nil (h : Added b ts b') : b'.frames ≠ [] := by
  obtain ⟨_, _, -, hframe⟩ := h.frames
  simp [hframe]

theorem foldl_add (toks : List Token) : ∀ (b : Builder) (frame : Frame) (rest : List Frame),
    b.frames = frame :: rest →
    toks.foldl (fun b token => b.add (leaf token)) b =
      { b with frames :=
          { frame with children := (toks.map leaf).reverse ++ frame.children } :: rest } := by
  induction toks with
  | nil => intro b frame rest h; simp [← h]
  | cons t toks ih =>
    intro b frame rest h
    have hadd : b.add (leaf t) =
        { b with frames := { frame with children := leaf t :: frame.children } :: rest } := by
      simp [add, h]
    rw [List.foldl_cons, hadd, ih _ _ _ rfl]
    simp

theorem added_attach (h : b.frames ≠ []) {toks rest : List Token}
    (htokens : b.tokens = toks ++ rest) : Added b (toks.map leaf) (b.attach toks rest) := by
  obtain ⟨frame, frames, hframe⟩ := List.exists_cons_of_ne_nil h
  rw [attach, foldl_add toks b frame frames hframe]
  exact ⟨⟨frame, frames, hframe, rfl⟩, rfl, by rw [leavesOf_leaves]; exact htokens,
    by rw [leavesOf_leaves]⟩

theorem added_attachWhile (h : b.frames ≠ []) (p : TokenKind → Bool) :
    Added b ((b.tokens.takeWhile (p ·.kind)).map leaf) (b.attachWhile p) :=
  added_attach h List.takeWhile_append_dropWhile.symm

/-- Closing a node that stands in another makes one tree of the trees that were added to it. -/
theorem finish_inner (n : Nat) {kind : NodeKind} {frames : List Frame} (h : frames ≠ [])
    (hframes : b.frames = ⟨kind, ts.reverse⟩ :: frames) :
    b.finish n = .ok (add { b with frames := frames } (.node ⟨kind, cover (b.offset n) ts⟩ ts)) := by
  have hinner : b.frames.tail.isEmpty = false := by simpa [hframes] using h
  rw [finish, hinner]
  simp only [Bool.false_eq_true, if_false, hframes, List.reverse_reverse]

theorem added_finish (n : Nat) {kind : NodeKind} (hkind : kind.tokenKind? = none)
    (h : b.frames ≠ []) (hadded : Added { b with frames := ⟨kind, []⟩ :: b.frames } ts b') :
    ∃ empty b'', b'.finish n = .ok b'' ∧ Added b [.node ⟨kind, cover empty ts⟩ ts] b'' ∧
      b''.place = b'.place ∧ b''.tokens = b'.tokens := by
  obtain ⟨_, _, hopened, hframes⟩ := hadded.frames
  obtain ⟨rfl, rfl⟩ := List.cons.inj hopened
  simp only [List.append_nil] at hframes
  refine ⟨b'.offset n, _, finish_inner n h hframes, ?_⟩
  obtain ⟨frame, rest, hframe⟩ := List.exists_cons_of_ne_nil h
  rw [hframe]
  refine ⟨⟨⟨frame, rest, hframe, rfl⟩, hadded.finished, ?_, ?_⟩, rfl, rfl⟩
  · rw [leavesOf_node hkind]
    exact hadded.tokens
  · rw [leavesOf_node hkind]
    exact hadded.place

/-! ### Outlines with layout -/

mutual
/-- The tree is the outline with the tokens in its leaves and layout before them.  A node covers
its children and does not begin with layout. -/
inductive Dressed (tokens : List Token) : Outline → Rose Extent → Prop
  | token {i : Nat} {t : Token} (h : tokens[i]? = some t) : Dressed tokens (.token i) (leaf t)
  | node {kind : NodeKind} {empty : Nat} {os : List Outline} {trees : List (Rose Extent)}
      (h : ForestDressed tokens os trees)
      (hfirst : ∀ t ∈ (leavesOf trees).head?, t.kind.isLayout = false) :
      Dressed tokens (.node kind os) (.node ⟨kind, cover empty trees⟩ trees)

/-- The trees are the outlines with layout before each, and none after the last. -/
inductive ForestDressed (tokens : List Token) : List Outline → List (Rose Extent) → Prop
  | nil : ForestDressed tokens [] []
  | cons {layout : List Token} {o : Outline} {os : List Outline} {tree : Rose Extent}
      {trees : List (Rose Extent)} (hlayout : ∀ t ∈ layout, t.kind.isLayout = true)
      (h : Dressed tokens o tree) (hs : ForestDressed tokens os trees) :
      ForestDressed tokens (o :: os) (layout.map leaf ++ tree :: trees)
end

variable {tokens : List Token}

theorem ForestDressed.append {os ps : List Outline} (h : ForestDressed tokens os ts)
    (h' : ForestDressed tokens ps us) : ForestDressed tokens (os ++ ps) (ts ++ us) := by
  induction os generalizing ts with
  | nil => cases h; exact h'
  | cons o os ih =>
    cases h with
    | cons hlayout ho hos =>
      rw [List.append_assoc]
      exact .cons hlayout ho (ih hos)

theorem Added.eq_drop (h : Added b ts b') (hplace : b.tokens = tokens.drop b.place) :
    b'.tokens = tokens.drop b'.place := by
  rw [h.place, ← List.drop_drop, ← hplace, h.tokens, List.drop_left]

/-! ### Taking up an outline -/

theorem ofForest_layout {toks : List Token} (h : ∀ t ∈ toks, t.kind.isLayout = true)
    (place : Nat) :
    Outline.ofForest place (forestMap Extent.kind (toks.map leaf)) = ([], place + toks.length) := by
  induction toks generalizing place with
  | nil => rfl
  | cons t toks ih =>
    have ht := h t List.mem_cons_self
    have hrest := ih (fun u hu => h u (List.mem_cons_of_mem _ hu)) (place + 1)
    simp only [List.map_cons, forestMap, leaf, Rose.map, Outline.ofForest, Outline.ofTree, ht,
      if_true, hrest, List.nil_append, List.length_cons]
    rw [Nat.add_right_comm, Nat.add_assoc]

theorem ofForest_leaf {t : Token} (h : t.kind.isLayout = false) (place : Nat) :
    Outline.ofForest place (forestMap Extent.kind [leaf t]) = ([.token place], place + 1) := by
  simp [forestMap, leaf, Rose.map, Outline.ofForest, Outline.ofTree, h]

/-- What a builder adds while it takes up a row of outlines, the tokens of which come next. -/
structure Follows (b : Builder) (os : List Outline) (more : List Nat) (b' : Builder)
    (trees : List (Rose Extent)) : Prop where
  added : Added b trees b'
  outline : Outline.ofForest b.place (forestMap Extent.kind trees) = (os, b'.place)
  significant : significant b'.place b'.tokens = more

theorem Follows.trans {os ps : List Outline} {more' : List Nat} (h : Follows b os more b' ts)
    (h' : Follows b' ps more' b'' us) : Follows b (os ++ ps) more' b'' (ts ++ us) :=
  ⟨h.added.trans h'.added, by simp [h.outline, h'.outline], h'.significant⟩

theorem token_spec {index : Nat} (h : b.frames ≠ []) (hplace : b.tokens = tokens.drop b.place)
    (hsignificant : RSource.significant b.place b.tokens = index :: more) :
    ∃ b' trees, b.token index = .ok b' ∧ Follows b [.token index] more b' trees ∧
      ForestDressed tokens [.token index] trees := by
  obtain ⟨layout, t, rest, htokens, hlayout, ht, rfl, rfl⟩ := significant_eq_cons _ _ hsignificant
  have hget : tokens[b.place + layout.length]? = some t := by
    rw [← List.getElem?_drop, ← hplace, htokens, List.getElem?_append_right (Nat.le_refl _),
      Nat.sub_self, List.getElem?_cons_zero]
  have hn : b.place + layout.length + 1 - b.place = (layout ++ [t]).length := by simp; omega
  have hsplit : b.tokens = (layout ++ [t]) ++ rest := by simp [htokens]
  have htake : b.tokens.take (layout ++ [t]).length = layout ++ [t] := by
    rw [hsplit, List.take_left]
  have hdrop : b.tokens.drop (layout ++ [t]).length = rest := by rw [hsplit, List.drop_left]
  refine ⟨b.attach (layout ++ [t]) rest, (layout ++ [t]).map leaf, ?_, ?_, ?_⟩
  · rw [token, hn, htake, hdrop, if_pos ⟨Nat.le_add_right _ _, rfl⟩]
  · have hadded := added_attach h hsplit
    refine ⟨hadded, ?_, ?_⟩
    · rw [List.map_append, Rose.forestMap_append, Outline.ofForest_append, ofForest_layout hlayout,
        List.map_singleton, ofForest_leaf ht]
      simp [attach, Nat.add_assoc]
    · simp [attach, Nat.add_assoc]
  · rw [List.map_append]
    exact .cons hlayout (.token hget) .nil

/-- Layout before a node goes to the node around it. -/
theorem start_spec (h : b.frames ≠ []) (kind : NodeKind) :
    ∃ (b' : Builder) (layout : List Token),
      b.start kind = { b' with frames := ⟨kind, []⟩ :: b'.frames } ∧
      Follows b [] (RSource.significant b.place b.tokens) b' (layout.map leaf) ∧
      (∀ t ∈ layout, t.kind.isLayout = true) ∧
      ∀ t ∈ b'.tokens.head?, t.kind.isLayout = false := by
  have hopen : b.frames.isEmpty = false := by simpa using h
  have hlayout : ∀ t ∈ b.tokens.takeWhile (TokenKind.isLayout ·.kind), t.kind.isLayout = true :=
    List.all_eq_true.mp List.all_takeWhile
  refine ⟨b.attachWhile TokenKind.isLayout, _, ?_,
    ⟨added_attachWhile h TokenKind.isLayout, ?_, ?_⟩, hlayout, fun t ht => ?_⟩
  · simp [start, hopen]
  · rw [ofForest_layout hlayout]
    rfl
  · have hsplit := significant_append b.place (b.tokens.takeWhile (TokenKind.isLayout ·.kind))
      (b.tokens.dropWhile (TokenKind.isLayout ·.kind))
    rw [List.takeWhile_append_dropWhile, significant_eq_nil hlayout, List.nil_append] at hsplit
    exact hsplit.symm
  · have hnext := List.head?_dropWhile_not (TokenKind.isLayout ·.kind) b.tokens
    rw [show (b.tokens.dropWhile (TokenKind.isLayout ·.kind)).head? = some t from ht] at hnext
    exact hnext

mutual
theorem take_spec (n : Nat) : (o : Outline) → o.Plain → ∀ (b : Builder) (more : List Nat),
    b.frames ≠ [] → b.tokens = tokens.drop b.place →
    RSource.significant b.place b.tokens = o.tokens ++ more →
    ∃ b' trees, take n b o = .ok b' ∧ Follows b [o] more b' trees ∧ ForestDressed tokens [o] trees
  | .token index, _, b, more, h, hplace, hsignificant => token_spec h hplace hsignificant
  | .node kind os, ⟨hkind, hos⟩, b, more, h, hplace, hsignificant => by
    obtain ⟨b₁, layout, hstart, hlayout, hall, hnext⟩ := start_spec h kind
    have hsignificant₁ := hlayout.significant.trans hsignificant
    obtain ⟨b₂, trees, htake, hfollows, hdressed⟩ := forestTake_spec n os hos
      { b₁ with frames := ⟨kind, []⟩ :: b₁.frames } more (List.cons_ne_nil _ _)
      (hlayout.added.eq_drop hplace) hsignificant₁
    obtain ⟨empty, b₃, hfinish, hadded, hplace, htokens⟩ :=
      added_finish n hkind hlayout.added.frames_ne_nil hfollows.added
    have hfirst : ∀ t ∈ (leavesOf trees).head?, t.kind.isLayout = false := by
      intro t ht
      refine hnext t ?_
      rw [show b₁.tokens = _ from hfollows.added.tokens, List.head?_append, ht]
      rfl
    refine ⟨b₃, layout.map leaf ++ [.node ⟨kind, cover empty trees⟩ trees], ?_,
      hlayout.trans ⟨hadded, ?_, ?_⟩, .cons hall (.node hdressed hfirst) .nil⟩
    · rw [take, hstart]
      simp only [htake]
      exact hfinish
    · have houtline := hfollows.outline
      simp only at houtline
      simp [forestMap, Rose.map, Outline.ofForest, Outline.ofTree_node hkind, houtline, hplace]
    · rw [hplace, htokens]
      exact hfollows.significant

theorem forestTake_spec (n : Nat) : (os : List Outline) → Outline.ForestPlain os →
    ∀ (b : Builder) (more : List Nat), b.frames ≠ [] → b.tokens = tokens.drop b.place →
    RSource.significant b.place b.tokens = Outline.forestTokens os ++ more →
    ∃ b' trees, forestTake n b os = .ok b' ∧ Follows b os more b' trees ∧
      ForestDressed tokens os trees
  | [], _, b, more, h, _, hsignificant =>
    ⟨b, [], rfl, ⟨Added.refl h, rfl, hsignificant⟩, .nil⟩
  | o :: os, ⟨ho, hos⟩, b, more, h, hplace, hsignificant => by
    rw [Outline.forestTokens, List.append_assoc] at hsignificant
    obtain ⟨b₁, trees, htake, hfollows, hdressed⟩ := take_spec n o ho b _ h hplace hsignificant
    obtain ⟨b₂, trees', htake', hfollows', hdressed'⟩ :=
      forestTake_spec n os hos b₁ more hfollows.added.frames_ne_nil
        (hfollows.added.eq_drop hplace) hfollows.significant
    refine ⟨b₂, trees ++ trees', ?_, hfollows.trans hfollows', hdressed.append hdressed'⟩
    rw [forestTake, htake]
    exact htake'
end

/-- Closing the outermost node first takes up what comes before the end of the file. -/
theorem finish_last (n : Nat) {kind : NodeKind} (hlast : b.frames.tail = [])
    (hrest : b.attachWhile (· ≠ .endOfFile) = b') (hframes : b'.frames = [⟨kind, us.reverse⟩])
    (hfinished : b'.finished = []) :
    ∃ b'', b.finish n = .ok b'' ∧ b''.result = .ok (.node ⟨kind, cover (b'.offset n) us⟩ us) := by
  refine ⟨add { b' with frames := [] } (.node ⟨kind, cover (b'.offset n) us⟩ us), ?_, ?_⟩
  · rw [finish, hlast, List.isEmpty_nil, if_pos rfl, hrest]
    simp only [hframes, List.reverse_reverse]
  · simp only [add, result, hfinished]

theorem finish_outer (n : Nat) {kind : NodeKind} (hframes : b.frames = [⟨kind, ts.reverse⟩])
    (hfinished : b.finished = []) :
    ∃ span b', b.finish n = .ok b' ∧ b'.result =
      .ok (.node ⟨kind, span⟩ (ts ++ (b.tokens.takeWhile (·.kind ≠ .endOfFile)).map leaf)) := by
  have hopen : b.frames ≠ [] := by simp [hframes]
  have hadded := added_attachWhile hopen (· ≠ .endOfFile)
  obtain ⟨frame, rest, hframe, hframes'⟩ := hadded.frames
  obtain ⟨rfl, rfl⟩ := List.cons.inj (hframes.symm.trans hframe)
  rw [← List.reverse_append] at hframes'
  obtain ⟨b', hclosed, hresult⟩ := finish_last n (by simp [hframes]) rfl hframes'
    (hadded.finished.trans hfinished)
  exact ⟨_, b', hclosed, hresult⟩

end Builder

namespace SyntaxTree

open Builder

variable {kind : NodeKind} {os : List Outline} {more : List Nat} {tokens : List Token}

/-- The tree built from an outline whose tokens come first among those that are not layout. -/
theorem build_events (text : String) (kind : NodeKind)
    (hos : Outline.ForestPlain os)
    (h : significant 0 tokens = Outline.forestTokens os ++ more) :
    ∃ span trees rest,
      build text tokens (Outline.node kind os).events = .ok (ofRose text (.node ⟨kind, span⟩
        (trees ++ (rest.takeWhile (·.kind ≠ .endOfFile)).map leaf))) ∧
      tokens = leavesOf trees ++ rest ∧
      Outline.ofForest 0 (forestMap Extent.kind trees) = (os, (leavesOf trees).length) ∧
      significant (leavesOf trees).length rest = more ∧ ForestDressed tokens os trees := by
  have hopened : (⟨0, tokens, [], []⟩ : Builder).start kind = ⟨0, tokens, [⟨kind, []⟩], []⟩ := rfl
  obtain ⟨b, trees, htake, ⟨hadded, houtline, hmore⟩, hdressed⟩ :=
    forestTake_spec (Text.byteLength text) os hos ⟨0, tokens, [⟨kind, []⟩], []⟩ more
      (List.cons_ne_nil _ _) (List.drop_zero (l := tokens)).symm h
  obtain ⟨_, _, hframe, hframes⟩ := hadded.frames
  obtain ⟨rfl, rfl⟩ := List.cons.inj hframe
  obtain ⟨span, b', hfinish, hresult⟩ := finish_outer (Text.byteLength text)
    (hframes.trans (by rw [List.append_nil])) hadded.finished
  obtain ⟨place, hrun⟩ := run_eventsThen (Text.byteLength text) 0 (.node kind os)
  have hplace : b.place = (leavesOf trees).length := by simpa using hadded.place
  refine ⟨span, trees, b.tokens, ?_, hadded.tokens, hplace ▸ houtline, hplace ▸ hmore, hdressed⟩
  rw [build, Outline.events, hrun, take, hopened, htake]
  simp only [bind, Except.bind, hfinish, run]
  rw [hresult]
  rfl

theorem ne_endOfFile_of_isLayout {k : TokenKind} (h : k.isLayout = true) : k ≠ .endOfFile := by
  rintro rfl
  cases h

variable {trees : List (Rose Extent)} {rest : List Token}

/-- What is taken up besides layout is in the outline. -/
theorem mem_taken (h : significant 0 tokens = Outline.forestTokens os ++ more)
    (htokens : tokens = leavesOf trees ++ rest)
    (hmore : significant (leavesOf trees).length rest = more) :
    ∀ t ∈ leavesOf trees,
      t.kind.isLayout = true ∨ ∃ i ∈ Outline.forestTokens os, tokens[i]? = some t := by
  have htaken : significant 0 (leavesOf trees) = Outline.forestTokens os := by
    rw [htokens, significant_append, Nat.zero_add, hmore] at h
    exact List.append_cancel_right h
  intro t ht
  by_cases hlayout : t.kind.isLayout = true
  · exact .inl hlayout
  · obtain ⟨i, hi⟩ := List.mem_iff_getElem?.mp ht
    refine .inr ⟨i, ?_, ?_⟩
    · rw [← htaken, mem_significant]
      exact ⟨i, t, (Nat.zero_add i).symm, hi, by simpa using hlayout⟩
    · rw [htokens, List.getElem?_append_left (List.getElem?_eq_some_iff.mp hi).1, hi]

/-- Where no token but an end of file comes next, only layout comes before it. -/
theorem isLayout_of_mem_takeWhile {place : Nat} (hmore : significant place rest = more)
    (hend : ∀ i ∈ more.head?, ∀ t, rest[i - place]? = some t → t.kind = .endOfFile) :
    ∀ t ∈ rest.takeWhile (·.kind ≠ .endOfFile), t.kind.isLayout = true := by
  cases more with
  | nil =>
    intro t ht
    by_contra hlayout
    obtain ⟨i, hi⟩ := List.mem_iff_getElem?.mp ((List.takeWhile_sublist _).mem ht)
    have hmem : place + i ∈ significant place rest :=
      mem_significant.mpr ⟨i, t, rfl, hi, by simpa using hlayout⟩
    simp [hmore] at hmem
  | cons index more =>
    obtain ⟨layout, x, after, rfl, hlayout, -, rfl, -⟩ := significant_eq_cons _ _ hmore
    have hx : x.kind = .endOfFile := hend _ rfl x (by simp)
    rw [List.takeWhile_append_of_pos fun t ht => by
      simpa using ne_endOfFile_of_isLayout (hlayout t ht)]
    simpa [hx] using hlayout

theorem filterMap_preorder (hkind : kind.tokenKind? = none) (span : Span)
    (cs : List (Rose Extent)) :
    (Rose.node ⟨kind, span⟩ cs).preorder.filterMap Extent.token? = leavesOf cs := by
  simpa [leavesOf, forestPreorder] using leavesOf_node hkind span cs

/-- A tree built from an outline has every token before the end of the file as a leaf. -/
theorem build_leaves (text : String) (hkind : kind.tokenKind? = none)
    (hos : Outline.ForestPlain os) (h : significant 0 tokens = Outline.forestTokens os ++ more)
    (hin : ∀ i ∈ Outline.forestTokens os, ∀ t, tokens[i]? = some t → t.kind ≠ .endOfFile) :
    ∃ t, build text tokens (Outline.node kind os).events = .ok t ∧ t.text = text ∧
      t.leaves = tokens.takeWhile (·.kind ≠ .endOfFile) := by
  obtain ⟨span, trees, rest, hbuild, htokens, -, hmore, -⟩ := build_events text kind hos h
  refine ⟨_, hbuild, rfl, ?_⟩
  have htaken : ∀ t ∈ leavesOf trees, t.kind ≠ .endOfFile := by
    intro t ht
    rcases mem_taken h htokens hmore t ht with hlayout | ⟨i, hi, hget⟩
    · exact ne_endOfFile_of_isLayout hlayout
    · exact hin i hi t hget
  rw [leaves_ofRose, htokens,
    List.takeWhile_append_of_pos fun t ht => by simpa using htaken t ht]
  rw [filterMap_preorder hkind, leavesOf_append, leavesOf_leaves]

theorem isLayout_of_mem_rest (htokens : tokens = leavesOf trees ++ rest)
    (hmore : significant (leavesOf trees).length rest = more)
    (hend : ∀ i ∈ more.head?, ∀ t, tokens[i]? = some t → t.kind = .endOfFile) :
    ∀ t ∈ rest.takeWhile (·.kind ≠ .endOfFile), t.kind.isLayout = true := by
  apply isLayout_of_mem_takeWhile hmore
  intro i hi t hget
  have hi' : i ∈ significant (leavesOf trees).length rest := hmore ▸ List.mem_of_mem_head? hi
  obtain ⟨j, _, rfl, -, -⟩ := mem_significant.mp hi'
  apply hend _ hi
  rwa [htokens, List.getElem?_append_right (Nat.le_add_right _ _)]

/-- A tree built from an outline that has all tokens before the end of the file but layout is that
outline. -/
theorem build_outline (text : String) (hkind : kind.tokenKind? = none)
    (hos : Outline.ForestPlain os) (h : significant 0 tokens = Outline.forestTokens os ++ more)
    (hend : ∀ i ∈ more.head?, ∀ t, tokens[i]? = some t → t.kind = .endOfFile) {t : SyntaxTree}
    (ht : build text tokens (Outline.node kind os).events = .ok t) :
    t.outline = [.node kind os] := by
  obtain ⟨span, trees, rest, hbuild, htokens, houtline, hmore, -⟩ := build_events text kind hos h
  obtain rfl := Except.ok.inj (ht.symm.trans hbuild)
  have hlayout := isLayout_of_mem_rest htokens hmore hend
  rw [outline_ofRose, Rose.map, Outline.ofTree_node hkind, Rose.forestMap_append,
    Outline.ofForest_append, houtline, ofForest_layout hlayout, List.append_nil]

/-- A leaf of such a tree is layout or has its place in the outline. -/
theorem mem_leaves_of_build (text : String) (hkind : kind.tokenKind? = none)
    (hos : Outline.ForestPlain os) (h : significant 0 tokens = Outline.forestTokens os ++ more)
    (hend : ∀ i ∈ more.head?, ∀ t, tokens[i]? = some t → t.kind = .endOfFile) {t : SyntaxTree}
    (ht : build text tokens (Outline.node kind os).events = .ok t) :
    ∀ x ∈ t.leaves,
      x.kind.isLayout = true ∨ ∃ i ∈ Outline.forestTokens os, tokens[i]? = some x := by
  obtain ⟨span, trees, rest, hbuild, htokens, -, hmore, -⟩ := build_events text kind hos h
  obtain rfl := Except.ok.inj (ht.symm.trans hbuild)
  intro x hx
  rw [leaves_ofRose, filterMap_preorder hkind, leavesOf_append, leavesOf_leaves] at hx
  rcases List.mem_append.mp hx with hx | hx
  · exact mem_taken h htokens hmore x hx
  · exact .inl (isLayout_of_mem_rest htokens hmore hend x hx)

/-- A tree that is built is the one result of the run of its events. -/
theorem build_eq_ok_iff {text : String} {events : List Event} {t : SyntaxTree} :
    build text tokens events = .ok t ↔
      ∃ b r, run (Text.byteLength text) 0 [] ⟨0, tokens, [], []⟩ events = .ok b ∧
        b.result = .ok r ∧ t = ofRose text r := by
  rw [build, bind_eq_ok_iff]
  constructor
  · rintro ⟨b, hrun, h⟩
    obtain ⟨r, hresult, h⟩ := bind_eq_ok_iff.mp h
    exact ⟨b, r, hrun, hresult, (Except.ok.inj h).symm⟩
  · rintro ⟨b, r, hrun, hresult, rfl⟩
    exact ⟨b, hrun, bind_eq_ok_iff.mpr ⟨r, hresult, rfl⟩⟩

theorem exists_ofRose_of_build {text : String} {events : List Event} {t : SyntaxTree}
    (h : build text tokens events = .ok t) : ∃ r, t = ofRose text r := by
  obtain ⟨-, r, -, -, ht⟩ := build_eq_ok_iff.mp h
  exact ⟨r, ht⟩

theorem text_of_build {text : String} {events : List Event} {t : SyntaxTree}
    (h : build text tokens events = .ok t) : t.text = text := by
  obtain ⟨r, rfl⟩ := exists_ofRose_of_build h
  rfl

end SyntaxTree

end RSource
