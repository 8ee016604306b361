import Mathlib.Data.List.ReduceOption
import RSource.Proofs.Token.Consecutive
import RSource.Proofs.Tree.Moved

/-! What a builder lays out over tokens that stand end to end.  It keeps a log: a leaf is entered
with its token when it is attached, and a node as none when it is finished, so that the place of an
entry is the number of the node.  Finished trees stand end to end (`Laid`), and so do the levels of
open nodes with what is finished in them (`Levels`). -/

namespace RSource

/-- Not layout comes first. -/
def BeginsPlain (log : List (Option Token)) : Prop :=
  ∀ t, log.head? = some (some t) → t.kind.isLayout = false

theorem BeginsPlain.of_append {log after : List (Option Token)} (h : BeginsPlain (log ++ after)) :
    BeginsPlain log := by
  cases log with
  | nil => intro t ht; cases ht
  | cons x log => exact h

/-- A node that is finished hides what comes after it. -/
theorem BeginsPlain.insert {log after : List (Option Token)} (h : BeginsPlain (log ++ after)) :
    BeginsPlain (log ++ none :: after) := by
  cases log with
  | nil => intro t ht; cases ht
  | cons x log => exact h

mutual
/-- A tree from one offset to another and the log of its nodes, which are leaves of tokens or of
kinds in `K`.  A node inside another one does not begin with layout. -/
inductive Laid (K : NodeKind → Prop) :
    Bool → Nat → Nat → List (Option Token) → Rose Extent → Prop
  | leaf {inside} (t : Token) (hspan : t.span.Straight) :
      Laid K inside t.span.start t.span.stop [some t] (Builder.leaf t)
  | node {inside a b log kind cs} (hkind : K kind) (hcs : ForestLaid K true a b log cs)
      (hfirst : inside = true → BeginsPlain log) :
      Laid K inside a b (log ++ [none]) (.node ⟨kind, ⟨a, b⟩⟩ cs)

/-- Trees that stand end to end. -/
inductive ForestLaid (K : NodeKind → Prop) :
    Bool → Nat → Nat → List (Option Token) → List (Rose Extent) → Prop
  | nil {inside} (a : Nat) : ForestLaid K inside a a [] []
  | cons {inside a b c log log' tree cs} (htree : Laid K inside a b log tree)
      (hcs : ForestLaid K inside b c log' cs) : ForestLaid K inside a c (log ++ log') (tree :: cs)
end

variable {K : NodeKind → Prop} {inside : Bool} {a b c n stop : Nat} {t : Token}
variable {tree : Rose Extent} {cs ds : List (Rose Extent)} {log log' after : List (Option Token)}

theorem Laid.span (h : Laid K inside a b log tree) : tree.label.span = ⟨a, b⟩ := by
  cases h
  · rfl
  · rfl

mutual
theorem Laid.le {a b : Nat} {inside : Bool} {log : List (Option Token)} :
    {tree : Rose Extent} → Laid K inside a b log tree → a ≤ b
  | .node _ _, .leaf _ hspan => hspan
  | .node _ _, .node _ hcs _ => ForestLaid.le hcs

theorem ForestLaid.le {a b : Nat} {inside : Bool} {log : List (Option Token)} :
    {cs : List (Rose Extent)} → ForestLaid K inside a b log cs → a ≤ b
  | [], .nil _ => Nat.le_refl _
  | _ :: _, .cons htree hcs => Nat.le_trans htree.le hcs.le
end

theorem ForestLaid.append (h : ForestLaid K inside a b log cs)
    (h' : ForestLaid K inside b c log' ds) : ForestLaid K inside a c (log ++ log') (cs ++ ds) := by
  induction cs generalizing a log with
  | nil => cases h; exact h'
  | cons tree cs ih =>
    cases h with
    | cons htree hcs =>
      rw [List.append_assoc]
      exact .cons htree (ih hcs)

theorem ForestLaid.concat (h : ForestLaid K inside a b log cs) (h' : Laid K inside b c log' tree) :
    ForestLaid K inside a c (log ++ log') (cs ++ [tree]) := by
  have hlast := ForestLaid.cons h' (.nil c)
  rw [List.append_nil] at hlast
  exact h.append hlast

theorem ForestLaid.span_start (h : ForestLaid K inside a b log cs) :
    ∀ first ∈ cs.head?, first.label.span.start = a := by
  intro first hfirst
  cases h with
  | nil => cases hfirst
  | cons htree hcs =>
    obtain rfl := Option.some.inj hfirst
    rw [htree.span]

theorem ForestLaid.span_stop (h : ForestLaid K inside a b log cs) :
    ∀ last ∈ cs.getLast?, last.label.span.stop = b := by
  induction cs generalizing a log with
  | nil => intro last hlast; cases hlast
  | cons tree cs ih =>
    intro last hlast
    cases h with
    | cons htree hcs =>
      cases cs with
      | nil =>
        cases hcs
        obtain rfl : tree = last := Option.some.inj hlast
        rw [htree.span]
      | cons d ds => exact ih hcs last hlast

/-- The trees of a node cover what the node covers. -/
theorem ForestLaid.cover (h : ForestLaid K inside a b log cs) : Builder.cover b cs = ⟨a, b⟩ := by
  rcases Builder.cover_cases b cs with ⟨rfl, hpoint⟩ | ⟨first, hfirst, last, hlast, hcover⟩
  · cases h
    exact hpoint
  · rw [hcover, h.span_start first hfirst, h.span_stop last hlast]

theorem ForestLaid.le_start (h : ForestLaid K inside a b log cs) :
    ∀ tree ∈ cs, a ≤ tree.label.span.start := by
  induction cs generalizing a log with
  | nil => intro tree htree; cases htree
  | cons d cs ih =>
    cases h with
    | cons hd hcs =>
      have hle := hd.le
      intro tree htree
      rcases List.mem_cons.mp htree with rfl | htree
      · exact Nat.le_of_eq (congrArg Span.start hd.span).symm
      · have := ih hcs tree htree
        omega

theorem ForestLaid.inOrder (h : ForestLaid K inside a b log cs) :
    InOrder (cs.map (·.label.span)) := by
  induction cs generalizing a log with
  | nil => exact inOrder_nil
  | cons tree cs ih =>
    cases h with
    | cons htree hcs =>
      obtain ⟨hpairs, hstraight⟩ := ih hcs
      have hspan := htree.span
      refine ⟨List.pairwise_cons.mpr ⟨?_, hpairs⟩, List.forall_mem_cons.mpr ⟨?_, hstraight⟩⟩
      · intro s hs
        obtain ⟨d, hd, rfl⟩ := List.mem_map.mp hs
        show tree.label.span.stop ≤ d.label.span.start
        rw [hspan]
        exact hcs.le_start d hd
      · show tree.label.span.start ≤ tree.label.span.stop
        rw [hspan]
        exact htree.le

/-! ### Open nodes -/

/-- The finished trees stand end to end from 0 on, then what is finished in the open nodes, the
outermost first; `after` is what comes after them. -/
def Levels (K : NodeKind → Prop) (finished : List (Rose Extent)) (after : List (Option Token)) :
    List Frame → Nat → List (Option Token) → Prop
  | [], stop, log => ForestLaid K false 0 stop log finished.reverse
  | frame :: outer, stop, log => ∃ start before inner, log = before ++ inner ∧
      Levels K finished (inner ++ after) outer start before ∧
      ForestLaid K true start stop inner frame.children.reverse ∧ K frame.kind ∧
      (outer ≠ [] → BeginsPlain (inner ++ after))

theorem Levels.insert {finished : List (Rose Extent)} {frames : List Frame}
    (h : Levels K finished (log' ++ after) frames stop log) :
    Levels K finished (log' ++ none :: after) frames stop log := by
  induction frames generalizing log' stop log with
  | nil => exact h
  | cons frame outer ih =>
    obtain ⟨start, before, inner, hlog, houter, hcs, hkind, hfirst⟩ := h
    rw [← List.append_assoc] at houter hfirst
    refine ⟨start, before, inner, hlog, ?_, hcs, hkind, fun hne => ?_⟩
    · rw [← List.append_assoc]
      exact ih houter
    · rw [← List.append_assoc]
      exact (hfirst hne).insert

theorem reduceOption_map_some (ts : List Token) : (ts.map some).reduceOption = ts := by
  induction ts with
  | nil => rfl
  | cons t ts ih => rw [List.map_cons, List.reduceOption_cons_of_some, ih]

namespace Builder

variable {builder builder' : Builder} {tokens ts rest : List Token}

theorem levels_add (h : Levels K builder.finished (log' ++ after) builder.frames stop log)
    (htree : Laid K (!builder.frames.isEmpty) stop c log' tree) :
    Levels K (builder.add tree).finished after (builder.add tree).frames c (log ++ log') := by
  cases hframes : builder.frames with
  | nil =>
    rw [hframes] at h htree
    simp only [add, hframes, Levels, List.reverse_cons]
    exact ForestLaid.concat h htree
  | cons frame outer =>
    rw [hframes] at h htree
    obtain ⟨start, before, inner, rfl, houter, hcs, hkind, hfirst⟩ := h
    simp only [add, hframes]
    refine ⟨start, before, inner ++ log', (List.append_assoc ..).symm ▸ rfl, ?_, ?_, hkind, ?_⟩
    · rwa [List.append_assoc]
    · rw [List.reverse_cons]
      exact hcs.concat htree
    · rwa [List.append_assoc]

theorem levels_attach (ts : List Token) : ∀ {builder : Builder} {stop : Nat} {log},
    Levels K builder.finished ((ts ++ rest).map some) builder.frames stop log →
    Consecutive stop n (ts ++ rest) →
    ∃ stop', Consecutive stop' n rest ∧
      Levels K (ts.foldl (fun b token => b.add (leaf token)) builder).finished (rest.map some)
        (ts.foldl (fun b token => b.add (leaf token)) builder).frames stop'
        (log ++ ts.map some) := by
  induction ts with
  | nil =>
    intro builder stop log h htokens
    exact ⟨stop, htokens, by rwa [List.map_nil, List.append_nil]⟩
  | cons t ts ih =>
    intro builder stop log h ⟨hstart, hstop, htokens⟩
    subst hstart
    have hnext : Levels K builder.finished ([some t] ++ (ts ++ rest).map some) builder.frames
      t.span.start log := h
    obtain ⟨stop', htokens', hlevels⟩ := ih (levels_add hnext (.leaf t hstop)) htokens
    exact ⟨stop', htokens', by simpa using hlevels⟩

/-- The builder has laid out the tokens before those to come. -/
structure LaidOut (K : NodeKind → Prop) (n : Nat) (tokens : List Token) (builder : Builder)
    (stop : Nat) (log : List (Option Token)) : Prop where
  levels : Levels K builder.finished (builder.tokens.map some) builder.frames stop log
  consecutive : Consecutive stop n builder.tokens
  tokens : tokens = log.reduceOption ++ builder.tokens

theorem LaidOut.attach (h : builder.LaidOut K n tokens stop log)
    (hsplit : builder.tokens = ts ++ rest) :
    ∃ stop', (builder.attach ts rest).LaidOut K n tokens stop' (log ++ ts.map some) := by
  obtain ⟨hlevels, hconsecutive, htokens⟩ := h
  rw [hsplit] at hlevels hconsecutive htokens
  obtain ⟨stop', hconsecutive', hlevels'⟩ := levels_attach ts hlevels hconsecutive
  refine ⟨stop', hlevels', hconsecutive', ?_⟩
  rw [htokens, List.reduceOption_append, reduceOption_map_some, List.append_assoc]
  rfl

theorem LaidOut.attachWhile (h : builder.LaidOut K n tokens stop log) (p : TokenKind → Bool) :
    ∃ stop' log', (builder.attachWhile p).LaidOut K n tokens stop' log' :=
  have ⟨stop', h'⟩ := h.attach List.takeWhile_append_dropWhile.symm
  ⟨stop', _, h'⟩

theorem LaidOut.start (h : builder.LaidOut K n tokens stop log) {kind : NodeKind} (hkind : K kind) :
    ∃ stop' log', (builder.start kind).LaidOut K n tokens stop' log' := by
  rw [Builder.start]
  cases hframes : builder.frames with
  | nil =>
    simp only [List.isEmpty_nil, if_true, hframes]
    refine ⟨stop, log, ⟨stop, log, [], (List.append_nil _).symm, ?_, .nil stop, hkind, ?_⟩,
      h.consecutive, h.tokens⟩
    · exact hframes ▸ h.levels
    · exact fun hne => absurd rfl hne
  | cons frame outer =>
    simp only [List.isEmpty_cons, Bool.false_eq_true, if_false]
    obtain ⟨stop', log', h'⟩ := h.attachWhile TokenKind.isLayout
    refine ⟨stop', log', ⟨stop', log', [], (List.append_nil _).symm, h'.levels, .nil stop', hkind,
      fun _ => ?_⟩, h'.consecutive, h'.tokens⟩
    -- The layout before the node is attached, so that something else comes next.
    intro t ht
    have hnext := List.head?_dropWhile_not (TokenKind.isLayout ·.kind) builder.tokens
    have hhead : (builder.tokens.dropWhile (TokenKind.isLayout ·.kind)).head? = some t := by
      simpa [Builder.attachWhile, Builder.attach] using ht
    rw [hhead] at hnext
    exact hnext

theorem LaidOut.token (h : builder.LaidOut K n tokens stop log) {index : Nat}
    (hb : builder.token index = .ok builder') :
    ∃ stop' log', builder'.LaidOut K n tokens stop' log' := by
  simp only [Builder.token] at hb
  split at hb
  · obtain rfl := Except.ok.inj hb
    obtain ⟨stop', h'⟩ := h.attach (List.take_append_drop _ _).symm
    exact ⟨stop', _, h'⟩
  · cases hb

theorem LaidOut.offset (h : builder.LaidOut K n tokens stop log) : builder.offset n = stop := by
  have hconsecutive := h.consecutive
  rw [Builder.offset]
  cases htokens : builder.tokens with
  | nil => rw [htokens] at hconsecutive; exact hconsecutive.symm
  | cons t ts => rw [htokens] at hconsecutive; exact hconsecutive.1

theorem LaidOut.finish (h : builder.LaidOut K n tokens stop log)
    (hb : builder.finish n = .ok builder') :
    ∃ stop' log', builder'.LaidOut K n tokens stop' log' := by
  rw [Builder.finish] at hb
  obtain ⟨stop', log', h'⟩ : ∃ stop' log', LaidOut K n tokens (if builder.frames.tail.isEmpty then
      builder.attachWhile (· ≠ .endOfFile) else builder) stop' log' := by
    split
    · exact h.attachWhile _
    · exact ⟨stop, log, h⟩
  generalize (if builder.frames.tail.isEmpty then builder.attachWhile (· ≠ .endOfFile)
    else builder) = d at hb h'
  cases hframes : d.frames with
  | nil => simp [hframes] at hb
  | cons frame outer =>
    simp only [hframes, Except.ok.injEq] at hb
    have hlevels := h'.levels
    rw [hframes] at hlevels
    -- The innermost level becomes a tree; its entry comes after those of what stands in it.
    obtain ⟨start, before, inner, rfl, houter, hcs, hkind, hfirst⟩ := hlevels
    rw [h'.offset, hcs.cover] at hb
    have htree : Laid K (!outer.isEmpty) start stop' (inner ++ [none])
        (.node ⟨frame.kind, ⟨start, stop'⟩⟩ frame.children.reverse) :=
      .node hkind hcs fun hne => (hfirst (by simpa using hne)).of_append
    refine ⟨stop', before ++ (inner ++ [none]), ?_, ?_, ?_⟩
    · have houter' : Levels K ({ d with frames := outer } : Builder).finished
          ((inner ++ [none]) ++ d.tokens.map some) outer start before := by
        rw [List.append_assoc]
        exact houter.insert
      rw [← hb, tokens_add]
      exact levels_add houter' htree
    · rw [← hb, tokens_add]
      exact h'.consecutive
    · rw [← hb, tokens_add, h'.tokens]
      simp [List.reduceOption_append]

end Builder

open Builder

/-- A tree built over tokens that stand end to end has the first of them in its log. -/
theorem SyntaxTree.build_laid {text : String} {tokens : List Token} {events : List Event}
    {tree : SyntaxTree} (htokens : Consecutive 0 (Text.byteLength text) tokens)
    (h : SyntaxTree.build text tokens events = .ok tree) :
    ∃ r stop log, tree = SyntaxTree.ofRose text r ∧
      Laid (fun kind => ∃ outer, .start kind outer ∈ events) false 0 stop log r ∧
      log.reduceOption <+: tokens := by
  obtain ⟨b, r, hrun, hresult, rfl⟩ := SyntaxTree.build_eq_ok_iff.mp h
  let K : NodeKind → Prop := fun kind => ∃ outer, .start kind outer ∈ events
  have hstart : LaidOut K (Text.byteLength text) tokens ⟨0, tokens, [], []⟩ 0 [] :=
    ⟨.nil 0, htokens, rfl⟩
  -- The stop and the log change with every event; that there are such is what events keep.
  obtain ⟨stop, log, hdone⟩ :=
    run_keeps (K := K)
      (P := fun b => ∃ stop log, LaidOut K (Text.byteLength text) tokens b stop log)
      (fun _ _ hkind ⟨_, _, h⟩ => h.start hkind) (fun _ _ _ ⟨_, _, h⟩ hb => h.token hb)
      (fun _ _ ⟨_, _, h⟩ hb => h.finish hb) events (fun _ outer hmem => ⟨outer, hmem⟩)
      ⟨0, [], hstart⟩ hrun
  have hlevels := hdone.levels
  rw [Builder.result] at hresult
  split at hresult
  · next tree hframes hfinished =>
    obtain rfl := Except.ok.inj hresult
    rw [hframes, hfinished] at hlevels
    cases hlevels with
    | cons htree hnil =>
      cases hnil
      exact ⟨_, stop, _, rfl, htree, b.tokens, by rw [hdone.tokens, List.append_nil]⟩
  · cases hresult
  · cases hresult

end RSource
