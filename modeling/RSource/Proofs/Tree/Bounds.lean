import RSource.Proofs.Text.Piece
import RSource.Proofs.Tree.Laid
import RSource.View.Function

/-! What nodes take from the text: their spans lie in it, and their names are made of its
characters. -/

namespace RSource

variable {K : NodeKind → Prop}

mutual
theorem Laid.consecutive {inside : Bool} {a b : Nat} {log : List (Option Token)} :
    {r : Rose Extent} → Laid K inside a b log r → Consecutive a b log.reduceOption
  | .node _ _, .leaf _ hspan => ⟨rfl, hspan, rfl⟩
  | .node _ _, .node _ hcs _ => by
    rw [List.reduceOption_append]
    exact (List.append_nil _).symm ▸ hcs.consecutive

theorem ForestLaid.consecutive {inside : Bool} {a b : Nat} {log : List (Option Token)} :
    {cs : List (Rose Extent)} → ForestLaid K inside a b log cs → Consecutive a b log.reduceOption
  | [], .nil _ => rfl
  | _ :: _, .cons hr hcs => by
    rw [List.reduceOption_append, consecutive_append]
    exact ⟨_, hr.consecutive, hcs.consecutive⟩
end

mutual
/-- No node of a laid out tree reaches over its ends. -/
theorem Laid.bounds {inside : Bool} {a b : Nat} {log : List (Option Token)} :
    {r : Rose Extent} → Laid K inside a b log r → ∀ e ∈ r.preorder,
      a ≤ e.span.start ∧ e.span.start ≤ e.span.stop ∧ e.span.stop ≤ b
  | .node _ _, .leaf _ hspan, e, he => by
    obtain rfl := List.mem_singleton.mp he
    exact ⟨Nat.le_refl _, hspan, Nat.le_refl _⟩
  | .node _ _, .node _ hcs _, e, he => by
    rcases List.mem_cons.mp he with rfl | he
    · exact ⟨Nat.le_refl _, hcs.le, Nat.le_refl _⟩
    · exact hcs.bounds e he

theorem ForestLaid.bounds {inside : Bool} {a b : Nat} {log : List (Option Token)} :
    {cs : List (Rose Extent)} → ForestLaid K inside a b log cs → ∀ e ∈ Rose.forestPreorder cs,
      a ≤ e.span.start ∧ e.span.start ≤ e.span.stop ∧ e.span.stop ≤ b
  | [], .nil _, e, he => by cases he
  | _ :: _, .cons hr hcs, e, he => by
    have hle := hr.le
    have hle' := hcs.le
    rcases List.mem_append.mp he with he | he
    · have := hr.bounds e he
      omega
    · have := hcs.bounds e he
      omega
end

namespace SyntaxTree

variable {text : String} {tokens : List Token} {events : List Event} {t : SyntaxTree}

/-- The spans of a tree over tokens that stand end to end are spans of its text. -/
theorem build_bounds (htokens : Consecutive 0 (Text.byteLength text) tokens)
    (h : build text tokens events = .ok t) (id : NodeId) :
    (t.span id).start ≤ (t.span id).stop ∧ (t.span id).stop ≤ Text.byteLength text := by
  obtain ⟨r, stop, log, rfl, hlaid, rest, hrest⟩ := build_laid htokens h
  -- The builder takes tokens from the front, so the tree ends where one of them does.
  have hstop : stop ≤ Text.byteLength text := by
    rw [← hrest, consecutive_append] at htokens
    obtain ⟨mid, hfront, hback⟩ := htokens
    rw [hlaid.consecutive.last_eq hfront]
    exact hback.le
  rw [span]
  cases hnode : (ofRose text r).nodes[id]? with
  | none => exact ⟨Nat.le_refl _, Nat.zero_le _⟩
  | some node =>
    have hmem := mem_nodes_ofRose (Array.mem_of_getElem? hnode)
    obtain ⟨-, hstraight, hle⟩ := hlaid.bounds _ hmem
    exact ⟨hstraight, Nat.le_trans hle hstop⟩

end SyntaxTree

/-! ### Names -/

theorem trim_sublist (drop : Char → Bool) (s : String) :
    (Text.trim drop s).toList.Sublist s.toList := by
  rw [Text.trim, String.toList_ofList, Text.trimEndChars, Text.trimStartChars]
  have hend := (List.dropWhile_sublist drop (l := (s.toList.dropWhile drop).reverse)).reverse
  rw [List.reverse_reverse] at hend
  exact hend.trans (List.dropWhile_sublist drop)

theorem afterDoubleColon_go_sublist {cs rest : List Char} (h : afterDoubleColon.go cs = some rest) :
    rest.Sublist cs := by
  induction cs using afterDoubleColon.go.induct with
  | case1 cs =>
    obtain rfl := Option.some.inj h
    exact (List.sublist_cons_self _ _).cons _
  | case2 c cs hnot ih =>
    rw [afterDoubleColon.go] at h
    · exact (ih h).cons c
    · exact hnot
  | case3 => cases h

theorem afterDoubleColon_sublist (cs : List Char) : (afterDoubleColon cs).Sublist cs := by
  rw [afterDoubleColon]
  split
  · next rest h => exact afterDoubleColon_go_sublist h
  · exact .refl cs

theorem contents?_sublist {text name : String} (h : StringLiteral.contents? text = some name) :
    name.toList.Sublist text.toList := by
  obtain ⟨⟨opening, closing⟩, -, hslice⟩ := Option.bind_eq_some_iff.mp h
  exact Text.slice?_sublist hslice

theorem Identifier.name_sublist (t : SyntaxTree) (id : NodeId) :
    (Identifier.name t id).toList.Sublist (t.textOf id).toList := by
  have hafter := afterDoubleColon_sublist (t.textOf id).toList
  rw [← String.toList_ofList (l := afterDoubleColon _)] at hafter
  rw [Identifier.name]
  split
  · exact (trim_sublist _ _).trans hafter
  · exact (trim_sublist _ _).trans hafter

theorem nameOf?_sublist_textOf {t : SyntaxTree} {id : NodeId} {name : String}
    (h : nameOf? t id = some name) : name.toList.Sublist (t.textOf id).toList := by
  rw [nameOf?] at h
  split at h
  · obtain rfl := Option.some.inj h
    exact Identifier.name_sublist t id
  · exact contents?_sublist h
  · cases h

theorem nameOf?_sublist {t : SyntaxTree} {id : NodeId} {name : String}
    (h : nameOf? t id = some name) : name.toList.Sublist t.text.toList :=
  (nameOf?_sublist_textOf h).trans (Text.slice_sublist _ _)

/-- A name is no longer than the text it stands in, unless it is missing. -/
theorem byteLength_nameOrUnnamed_le (t : SyntaxTree) (id : Option NodeId) :
    Text.byteLength (nameOrUnnamed t id) ≤
      max (Text.byteLength unnamed) (Text.byteLength t.text) := by
  rw [nameOrUnnamed]
  cases h : id.bind (nameOf? t) with
  | none => exact Nat.le_max_left _ _
  | some name =>
    obtain ⟨id, -, hname⟩ := Option.bind_eq_some_iff.mp h
    refine Nat.le_trans ?_ (Nat.le_max_right _ _)
    rw [← Text.size_toList, ← Text.size_toList]
    exact Text.size_le_of_sublist (nameOf?_sublist hname)

end RSource
