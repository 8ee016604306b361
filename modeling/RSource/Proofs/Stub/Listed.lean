import Mathlib.Algebra.GroupWithZero.Nat
import RSource.Proofs.Except
import RSource.Proofs.Stub.Walk
import RSource.Proofs.Tree.Ancestors

/-! Which stubs a tree has.  The assignments that are listed are told by what is around them, and so
is the stub that each belongs to.  The recursion that finds the stubs hands both down from node to
node, and finds the stubs of the listed assignments in document order (`toList_collect`). -/

namespace RSource.StubTree

section

variable (t : SyntaxTree)

/-- The node is an assignment to a name with no function around it. -/
def isListed (id : NodeId) : Bool :=
  t.isKind .assignmentStatement id && (Assignment.assignee? t id).any (isName t) &&
    !(t.ancestors id).any (t.isKind .functionExpression)

/-- The listed assignments in document order. -/
def listed : List NodeId := (t.preorder t.root).filter (isListed t)

/-- The parameters of the function that is assigned, if there is one. -/
def parametersOf (id : NodeId) : List NodeId :=
  ((Assignment.function? t id).map (Function.parameters t)).getD []

/-- The listed assignment that is nearest around a node. -/
def owner? (id : NodeId) : Option NodeId := (t.ancestors id).find? (isListed t)

/-- The number of stubs of a listed assignment: its own, and one for every parameter. -/
def width (id : NodeId) : Nat := (parametersOf t id).length + 1

/-- The place of the stub of a listed assignment: the stubs of all that are listed before come
first. -/
def placeOf (id : NodeId) : StubId := (((listed t).takeWhile (· ≠ id)).map (width t)).sum

/-- The stub of an assignment: its parent is the stub of the listed assignment around it, and it is
at top level if it stands in the file itself. -/
def ownStub (id : NodeId) : Stub :=
  ⟨.assignment (Assignment.name t id) (Assignment.function? t id).isSome
      ((t.parent? id).any (t.isKind .file)) (Assignment.isRight t id),
    (owner? t id).map (placeOf t), t.span ((Assignment.name? t id).getD id)⟩

/-- The stubs of an assignment and, in their order, of the parameters of its function. -/
def stubsOf (id : NodeId) : List Stub :=
  ownStub t id :: (parametersOf t id).map fun parameter =>
    ⟨.parameter (Parameter.name t parameter), some (placeOf t id),
      t.span ((Parameter.name? t parameter).getD parameter)⟩

end

variable {t : SyntaxTree} {scope : Option StubId} {stubs : Array Stub} {before after : List NodeId}

@[simp] theorem length_stubsOf (id : NodeId) : (stubsOf t id).length = width t id := by
  simp [stubsOf, width]

theorem length_flatMap_stubsOf (ids : List NodeId) :
    (ids.flatMap (stubsOf t)).length = (ids.map (width t)).sum := by
  simp [List.length_flatMap]

theorem placeOf_eq {id : NodeId} (hnodup : (listed t).Nodup)
    (h : listed t = before ++ id :: after) : placeOf t id = (before.map (width t)).sum := by
  rw [h, List.nodup_append] at hnodup
  have hbefore : ∀ a ∈ before, decide (a ≠ id) = true := fun a ha =>
    decide_eq_true (hnodup.2.2 a ha id List.mem_cons_self)
  rw [placeOf, h, List.takeWhile_append_of_pos hbefore, List.takeWhile_cons_of_neg (by simp),
    List.append_nil]

/-- What the walk adds for an assignment is what is listed for it. -/
theorem declared_eq_stubsOf {id name : NodeId} {place : StubId}
    (hname : Assignment.name? t id = some name) (hplace : placeOf t id = place) :
    declared t ((owner? t id).map (placeOf t)) place id name = stubsOf t id := by
  rw [stubsOf, ownStub, hname, hplace]
  rfl

theorem name?_of_assigned? {id name : NodeId} (h : assigned? t id = some name) :
    Assignment.name? t id = some name := by
  rw [assigned?] at h
  split at h
  · exact h
  · cases h

/-- Where no function is around, an assignment to a name is listed. -/
theorem isListed_eq {id : NodeId}
    (hfree : ∀ a ∈ t.ancestors id, t.isKind .functionExpression a = false) :
    isListed t id = (assigned? t id).isSome := by
  have hnone : (t.ancestors id).any (t.isKind .functionExpression) = false := by
    simpa using hfree
  rw [isListed, assigned?, hnone, Bool.not_false, Bool.and_true]
  cases t.isKind .assignmentStatement id with
  | false => rfl
  | true => simp [Assignment.name?, Option.isSome_filter]

/-- The listed ones among some nodes. -/
def listedIn (t : SyntaxTree) (ps : List (NodeId × Extent)) : List NodeId :=
  (ps.map (·.1)).filter (isListed t)

/-- The walk comes to the listed assignments `here` next: it has added the stubs of all that are
listed before them. -/
def Stands (t : SyntaxTree) (stubs : Array Stub) (here : List NodeId) : Prop :=
  ∃ before after, listed t = before ++ here ++ after ∧
    stubs.toList.length = (before.map (width t)).sum

theorem Stands.left {here more : List NodeId} (h : Stands t stubs (here ++ more)) :
    Stands t stubs here := by
  obtain ⟨before, after, hlisted, hsize⟩ := h
  exact ⟨before, more ++ after, by rw [hlisted]; simp, hsize⟩

theorem Stands.right {here more : List NodeId} {stubs' : Array Stub}
    (h : Stands t stubs (here ++ more))
    (hstubs : stubs'.toList = stubs.toList ++ here.flatMap (stubsOf t)) :
    Stands t stubs' more := by
  obtain ⟨before, after, hlisted, hsize⟩ := h
  refine ⟨before ++ here, after, by rw [hlisted]; simp, ?_⟩
  rw [hstubs, List.length_append, length_flatMap_stubsOf, hsize, List.map_append, List.sum_append]

theorem Stands.placeOf_eq {id : NodeId} {more : List NodeId} (hnodup : (listed t).Nodup)
    (h : Stands t stubs (id :: more)) : placeOf t id = stubs.size := by
  obtain ⟨before, after, hlisted, hsize⟩ := h
  rw [List.append_assoc, List.cons_append] at hlisted
  rw [StubTree.placeOf_eq hnodup hlisted, ← hsize, Array.length_toList]

/-- Nothing is listed below a function. -/
theorem listedIn_below_function (ht : t.Climbs) {parent : NodeId}
    {ms : List (Rose (NodeId × Extent))} (hms : t.ForestHolds parent ms)
    (hfunction : t.isKind .functionExpression parent = true) :
    listedIn t (Rose.forestPreorder ms) = [] := by
  refine List.filter_eq_nil_iff.mpr fun id hid => ?_
  obtain ⟨q, hq, rfl⟩ := List.mem_map.mp hid
  have hmem := (ht.suffix_forest ms hms q hq).subset List.mem_cons_self
  have hany : (t.ancestors q.1).any (t.isKind .functionExpression) = true :=
    List.any_eq_true.mpr ⟨parent, hmem, hfunction⟩
  rw [isListed, hany, Bool.not_true, Bool.and_false]
  exact Bool.false_ne_true

mutual
/-- The walk adds the stubs of the listed assignments, in document order. -/
theorem toList_collect (ht : t.Climbs) (hnodup : (listed t).Nodup) {parent : Option NodeId} :
    (m : Rose (NodeId × Extent)) → t.Holds parent m →
      (∀ a ∈ t.ancestors m.label.1, t.isKind .functionExpression a = false) →
      ∀ stubs, Stands t stubs (listedIn t m.preorder) →
        (collect t ((owner? t m.label.1).map (placeOf t)) stubs (m.map (·.1))).toList =
          stubs.toList ++ (listedIn t m.preorder).flatMap (stubsOf t)
  | .node (id, e) cs, h, hfree, stubs, hstands => by
    have hlisted : listedIn t (Rose.node (id, e) cs).preorder =
        (if isListed t id then [id] else []) ++ listedIn t (Rose.forestPreorder cs) := by
      rw [listedIn, Rose.preorder, List.map_cons, List.filter_cons]
      split
      · rfl
      · rfl
    have hhere : isListed t id = (assigned? t id).isSome := isListed_eq hfree
    rw [Rose.map, collect]
    by_cases hfunction : t.isKind .functionExpression id = true
    · -- A function is no assignment, and nothing below it is listed.
      have hnone : assigned? t id = none := by
        rw [assigned?, if_neg]
        intro hassignment
        simp only [SyntaxTree.isKind, decide_eq_true_eq] at hfunction hassignment
        rw [hfunction] at hassignment
        cases hassignment
      rw [if_pos hfunction, hlisted, hhere, hnone, listedIn_below_function ht h.2.2 hfunction]
      simp
    · have hbelow : ∀ a ∈ id :: t.ancestors id, t.isKind .functionExpression a = false :=
        List.forall_mem_cons.mpr ⟨Bool.eq_false_iff.mpr hfunction, hfree⟩
      rw [if_neg hfunction]
      rw [hlisted] at hstands ⊢
      cases hassigned : assigned? t id with
      | none =>
        have hnot : isListed t id = false := by rw [hhere, hassigned]; rfl
        rw [hnot] at hstands ⊢
        have hscope : owner? t id = (id :: t.ancestors id).find? (isListed t) := by
          rw [List.find?_cons_of_neg (by rw [hnot]; exact Bool.false_ne_true)]
          rfl
        have hrest := toList_collectAll ht hnodup cs h.2.2 hbelow stubs hstands
        rw [← hscope] at hrest
        exact hrest
      | some name =>
        have hyes : isListed t id = true := by rw [hhere, hassigned]; rfl
        rw [hyes, if_pos rfl] at hstands ⊢
        have hplace := Stands.placeOf_eq hnodup hstands
        have hscope : (id :: t.ancestors id).find? (isListed t) = some id :=
          List.find?_cons_of_pos hyes
        have hadded : (stubs ++ stubsOf t id).toList =
            stubs.toList ++ [id].flatMap (stubsOf t) := by
          rw [Array.toList_appendList, List.flatMap_singleton]
        have hrest := toList_collectAll ht hnodup cs h.2.2 hbelow _ (hstands.right hadded)
        rw [hscope, Option.map_some, hplace, hadded, List.append_assoc, ← List.flatMap_append,
          ← declared_eq_stubsOf (name?_of_assigned? hassigned) hplace] at hrest
        exact hrest

theorem toList_collectAll (ht : t.Climbs) (hnodup : (listed t).Nodup) {parent : NodeId} :
    (ms : List (Rose (NodeId × Extent))) → t.ForestHolds parent ms →
      (∀ a ∈ parent :: t.ancestors parent, t.isKind .functionExpression a = false) →
      ∀ stubs, Stands t stubs (listedIn t (Rose.forestPreorder ms)) →
        (collectAll t (((parent :: t.ancestors parent).find? (isListed t)).map (placeOf t)) stubs
            (Rose.forestMap (·.1) ms)).toList =
          stubs.toList ++ (listedIn t (Rose.forestPreorder ms)).flatMap (stubsOf t)
  | [], _, _, stubs, _ => by
    rw [Rose.forestMap, collectAll]
    exact (List.append_nil _).symm
  | m :: ms, h, hfree, stubs, hstands => by
    have hlisted : listedIn t (Rose.forestPreorder (m :: ms)) =
        listedIn t m.preorder ++ listedIn t (Rose.forestPreorder ms) := by
      rw [Rose.forestPreorder, listedIn, List.map_append, List.filter_append]
      rfl
    rw [hlisted] at hstands ⊢
    have haround := ht m.label.1 parent h.1.parent?_eq
    rw [← haround] at hfree ⊢
    have hfirst := toList_collect ht hnodup m h.1 hfree stubs hstands.left
    have hrest := toList_collectAll ht hnodup ms h.2 (haround ▸ hfree) _ (hstands.right hfirst)
    rw [hfirst, List.append_assoc, ← List.flatMap_append, ← haround] at hrest
    exact hrest
end

/-- The stubs of a built tree, in document order. -/
theorem toList_ofTree {text : String} {r : Rose Extent}
    (hleafy : (SyntaxTree.ofRose text r).Leafy) : (ofTree (.ofRose text r)).stubs.toList =
      (listed (.ofRose text r)).flatMap (stubsOf (.ofRose text r)) := by
  have hlisted : listed (.ofRose text r) =
      listedIn (.ofRose text r) (SyntaxTree.number 0 r).1.preorder := by
    rw [listed, SyntaxTree.preorder_ofRose]
    rfl
  have hnodup : (listed (.ofRose text r)).Nodup :=
    (SyntaxTree.nodup_preorder text r).filter _
  have hholds := SyntaxTree.holds_ofRose text r
  have haround := SyntaxTree.ancestors_eq_nil hholds.parent?_eq
  have hwalk := toList_collect (SyntaxTree.climbs_ofRose text r) hnodup _ hholds
    (by rw [haround]; exact fun a ha => nomatch ha) #[]
    ⟨[], [], by rw [hlisted, List.nil_append, List.append_nil], rfl⟩
  rw [owner?, haround, ← hlisted] at hwalk
  rw [ofTree_ofRose hleafy, SyntaxTree.shape_ofRose]
  exact hwalk

/-- A listed assignment has its own stub at its place. -/
theorem getElem?_placeOf {stubs : List Stub} (hnodup : (listed t).Nodup)
    (hstubs : stubs = (listed t).flatMap (stubsOf t)) {id : NodeId} (hid : id ∈ listed t) :
    stubs[placeOf t id]? = some (ownStub t id) := by
  obtain ⟨before, after, hsplit⟩ := List.append_of_mem hid
  rw [placeOf_eq hnodup hsplit, hstubs, hsplit, List.flatMap_append, List.flatMap_cons,
    ← length_flatMap_stubsOf, List.getElem?_append_right (Nat.le_refl _), Nat.sub_self]
  rfl

/-- The stubs of a parsed tree are those of the listed assignments in document order, each followed
by the stubs of its parameters.  The place that stands for a listed assignment is that of its own
stub, and what is listed around a node is one of the listed assignments. -/
theorem ofTree_of_parse {text : String} {limit : Nat} {p : Parse}
    (hp : parse text limit = .ok p) :
    (ofTree p.tree).stubs.toList = (listed p.tree).flatMap (stubsOf p.tree) ∧
      (∀ id ∈ listed p.tree,
        (ofTree p.tree).stubs[placeOf p.tree id]? = some (ownStub p.tree id)) ∧
      ∀ id, ∀ owner ∈ owner? p.tree id, owner ∈ listed p.tree := by
  obtain ⟨os, more, hfound⟩ := Grammar.found (lex text)
  have hbuild := (parseTokens_eq_ok hfound hp).1
  have hleafy := SyntaxTree.leafy_of_build (by rfl) hfound.plain hfound.significant hbuild
  obtain ⟨r, hr⟩ := SyntaxTree.exists_ofRose_of_build hbuild
  rw [hr] at hleafy ⊢
  have hstubs := toList_ofTree hleafy
  have hnodup : (listed (.ofRose text r)).Nodup := (SyntaxTree.nodup_preorder text r).filter _
  refine ⟨hstubs, fun id hid => ?_, fun id owner howner => ?_⟩
  · rw [← Array.getElem?_toList]
    exact getElem?_placeOf hnodup hstubs hid
  · have hmem := SyntaxTree.mem_preorder_of_mem_ancestors (List.mem_of_find?_eq_some howner)
    exact List.mem_filter.mpr ⟨hmem, List.find?_some howner⟩

/-- In `f <- g <- function(a) h <- 1` the assignment to `h` is not listed, and `g` belongs to `f`;
in `x[i] <- (2 -> k)` only `k` is listed, and belongs to nothing. -/
theorem ofTree_of_parse_nested :
    ∃ p, parse "f <- g <- function(a) h <- 1\nx[i] <- (2 -> k)" 1 = .ok p ∧
      (ofTree p.tree).stubs.toList = (listed p.tree).flatMap (stubsOf p.tree) ∧
      ((listed p.tree).flatMap (stubsOf p.tree)).map (fun s => (s.name, s.parent)) =
        [("f", none), ("g", some 0), ("a", some 1), ("k", none)] := by
  have hparse : (parse "f <- g <- function(a) h <- 1\nx[i] <- (2 -> k)" 1).toOption.any (fun p =>
      ((listed p.tree).flatMap (stubsOf p.tree)).map (fun s => (s.name, s.parent)) ==
        [("f", none), ("g", some 0), ("a", some 1), ("k", none)]) = true := by
    decide +kernel
  obtain ⟨p, hp, hstubs⟩ := exists_of_any_toOption hparse
  exact ⟨p, hp, (ofTree_of_parse hp).1, by simpa using hstubs⟩

end RSource.StubTree
