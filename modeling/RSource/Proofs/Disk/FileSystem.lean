import RSource.Disk.FileSystem
import RSource.Proofs.Except

/-! File systems as values: what an operation finds at a place and what it leaves alone.  Paths lead
through directories only, so they lead to the same places as long as the directories stay. -/

namespace RSource

namespace Path

/-- The name of something that is in a directory. -/
structure IsName (name : String) : Prop where
  slash : '/' ∉ name.toList
  nonempty : name ≠ ""
  here : name ≠ "."
  parent : name ≠ ".."

variable {name : String}

theorem pieces_of_not_mem (h : '/' ∉ name.toList) : pieces ⟨name⟩ = [name] := by
  have hsplit : name.toList.splitOnP (· == '/') = [name.toList] :=
    List.splitOnP_eq_singleton fun c hc => beq_false_of_ne fun heq => h (heq ▸ hc)
  rw [pieces, List.splitOn, hsplit, List.map_singleton, String.ofList_toList]

theorem pieces_append_slash (text : String) (h : '/' ∉ name.toList) :
    pieces ⟨text ++ "/" ++ name⟩ = pieces ⟨text⟩ ++ [name] := by
  have hname := pieces_of_not_mem h
  have hslash : (text ++ "/" ++ name).toList = text.toList ++ '/' :: name.toList := by simp
  rw [pieces, List.splitOn] at hname ⊢
  rw [hslash, List.splitOnP_append_cons _ _ (by rfl), List.map_append, hname]
  rfl

/-- The pieces before the name of an entry are those of the directory, up to empty ones. -/
theorem exists_pieces_join (p : Path) (h : '/' ∉ name.toList) :
    ∃ front, (p.join name).pieces = front ++ [name] ∧
      front.filter (fun part => part ≠ "" && part ≠ ".") = p.parts := by
  obtain ⟨text⟩ := p
  cases hlast : text.toList.getLast? with
  | none =>
    obtain rfl := String.toList_eq_nil_iff.mp (List.getLast?_eq_none_iff.mp hlast)
    exact ⟨[], by rw [join, if_pos (by rfl), String.empty_append, pieces_of_not_mem h]; rfl, rfl⟩
  | some c =>
    by_cases hc : c = '/'
    · subst hc
      obtain ⟨front, hfront⟩ := List.getLast?_eq_some_iff.mp hlast
      obtain rfl : text = String.ofList front ++ "/" ++ "" := by
        rw [← String.toList_inj, hfront]
        simp
      refine ⟨pieces ⟨String.ofList front⟩, ?_, ?_⟩
      · rw [join, if_pos (by simp), String.append_empty, pieces_append_slash _ h]
      · rw [parts, pieces_append_slash _ (by decide), List.filter_append]
        simp
    · refine ⟨pieces ⟨text⟩, ?_, rfl⟩
      have hnonempty : text.isEmpty = false := by
        refine eq_false_of_ne_true fun hempty => ?_
        rw [String.isEmpty_iff.mp hempty] at hlast
        cases hlast
      rw [join, if_neg (by simp [hlast, hc, hnonempty]), pieces_append_slash _ h]

theorem parts_join (p : Path) (h : IsName name) : (p.join name).parts = p.parts ++ [name] := by
  obtain ⟨front, hpieces, hfront⟩ := exists_pieces_join p h.slash
  rw [parts, hpieces, List.filter_append, hfront]
  simp [h.nonempty, h.here]

theorem isEmpty_join (p : Path) (h : name ≠ "") : (p.join name).text.isEmpty = false := by
  refine eq_false_of_ne_true fun hempty => h ?_
  rw [join] at hempty
  split at hempty
  · exact (String.append_eq_empty_iff.mp (String.isEmpty_iff.mp hempty)).2
  · simp at hempty

end Path

namespace FileSystem

variable {fs fs' : FileSystem} {place other here : Location} {node : FileNode}
variable {names : List String} {name : String} {p q : Path} {bytes : Bytes}

/-! ### What stands at a place -/

theorem lookup_erase (nodes : List (Location × FileNode)) (place other : Location) :
    (nodes.filter (·.1 != place)).lookup other =
      if other = place then none else nodes.lookup other := by
  induction nodes with
  | nil => simp
  | cons n nodes ih =>
    obtain ⟨l, n⟩ := n
    by_cases hl : l = place
    · rw [List.filter_cons_of_neg (by simp [hl]), ih, List.lookup_cons]
      split
      · rfl
      · next hother => rw [beq_false_of_ne (hl ▸ hother)]
    · rw [List.filter_cons_of_pos (by simp [hl]), List.lookup_cons, List.lookup_cons, ih]
      by_cases hother : other = l
      · simp only [hother, beq_self_eq_true, if_neg hl]
      · rw [beq_false_of_ne hother]

theorem node?_erase_self (h : place ≠ []) : (fs.erase place).node? place = none := by
  rw [node?, if_neg h, erase, lookup_erase, if_pos rfl]

theorem node?_erase_of_ne (h : other ≠ place) : (fs.erase place).node? other = fs.node? other := by
  rw [node?, node?, erase, lookup_erase, if_neg h]

theorem node?_put_self (h : place ≠ []) : (fs.put place node).node? place = some node := by
  rw [node?, if_neg h, put, List.lookup_cons_self]

theorem node?_put_of_ne (h : other ≠ place) :
    (fs.put place node).node? other = fs.node? other := by
  have herase : (fs.erase place).node? other = fs.node? other := node?_erase_of_ne h
  rw [node?] at herase
  rw [node?, put, List.lookup_cons, beq_false_of_ne h, herase]

/-! ### Ways -/

/-- The same directories stand in both. -/
def SameDirectories (fs fs' : FileSystem) : Prop :=
  ∀ place, fs.node? place = some .directory ↔ fs'.node? place = some .directory

theorem sameDirectories_put (h : fs.node? place ≠ some .directory) (bytes : Bytes) :
    SameDirectories fs (fs.put place (.file bytes)) := by
  intro other
  by_cases hother : other = place
  · subst hother
    have hroot : other ≠ [] := fun hnil => h (by rw [hnil]; rfl)
    rw [node?_put_self hroot]
    exact ⟨fun hnode => absurd hnode h, fun hnode => by cases hnode⟩
  · rw [node?_put_of_ne hother]

theorem sameDirectories_erase (h : fs.node? place ≠ some .directory) :
    SameDirectories fs (fs.erase place) := by
  intro other
  by_cases hother : other = place
  · subst hother
    have hroot : other ≠ [] := fun hnil => h (by rw [hnil]; rfl)
    rw [node?_erase_self hroot]
    exact ⟨fun hnode => absurd hnode h, fun hnode => by cases hnode⟩
  · rw [node?_erase_of_ne hother]

theorem walk_cons_eq_ok_iff {rest : List String} (hname : name ≠ "..") :
    fs.walk here (name :: rest) = .ok place ↔
      (rest = [] ∧ here ++ [name] = place) ∨
        fs.node? (here ++ [name]) = some .directory ∧ rest ≠ [] ∧
          fs.walk (here ++ [name]) rest = .ok place := by
  rw [walk, if_neg hname]
  cases rest with
  | nil => simp
  | cons r rs =>
    cases hnode : fs.node? (here ++ [name]) with
    | none => simp only [hnode]; simp
    | some node => cases node <;> simp only [hnode] <;> simp

theorem walk_eq_ok_iff (h : SameDirectories fs fs') :
    fs.walk here names = .ok place ↔ fs'.walk here names = .ok place := by
  induction names generalizing here with
  | nil => rfl
  | cons name rest ih =>
    by_cases hname : name = ".."
    · subst hname
      exact ih
    · rw [walk_cons_eq_ok_iff hname, walk_cons_eq_ok_iff hname, h, ih]

/-- From a directory there is a way to each of its entries. -/
theorem walk_concat (hwalk : fs.walk here names = .ok place)
    (hplace : fs.node? place = some .directory) (hname : name ≠ "..") :
    fs.walk here (names ++ [name]) = .ok (place ++ [name]) := by
  induction names generalizing here with
  | nil =>
    obtain rfl := Except.ok.inj hwalk
    exact (walk_cons_eq_ok_iff hname).mpr (.inl ⟨rfl, rfl⟩)
  | cons first rest ih =>
    by_cases hfirst : first = ".."
    · subst hfirst
      exact ih hwalk
    · refine (walk_cons_eq_ok_iff hfirst).mpr (.inr ?_)
      rcases (walk_cons_eq_ok_iff hfirst).mp hwalk with ⟨rfl, rfl⟩ | ⟨hnode, -, hrest⟩
      · exact ⟨hplace, by simp, ih rfl⟩
      · exact ⟨hnode, by simp, ih hrest⟩

theorem locate_eq_ok_iff : fs.locate p = .ok place ↔
    p.text.isEmpty = false ∧ fs.walk [] p.parts = .ok place ∧
      ((∃ bytes, fs.node? place = some (.file bytes)) → endsInDirectory p = false) := by
  simp only [locate, throw_or_eq_ok_iff, Bool.not_eq_true, bind_eq_ok_iff]
  refine and_congr_right fun _ => ⟨?_, ?_⟩
  · rintro ⟨l, hwalk, h⟩
    split at h
    · next bytes hnode =>
      split at h
      · cases h
      · next hends =>
        obtain rfl := Except.ok.inj h
        exact ⟨hwalk, fun _ => eq_false_of_ne_true hends⟩
    · next hnode =>
      obtain rfl := Except.ok.inj h
      exact ⟨hwalk, fun ⟨bytes, hfile⟩ => absurd hfile (hnode bytes)⟩
  · rintro ⟨hwalk, hends⟩
    refine ⟨place, hwalk, ?_⟩
    split
    · next bytes hnode => rw [hends ⟨bytes, hnode⟩]; rfl
    · rfl

theorem at?_eq_ok_iff : fs.at? p = .ok node ↔
    ∃ place, fs.locate p = .ok place ∧ fs.node? place = some node := by
  rw [at?, bind_eq_ok_iff]
  refine exists_congr fun l => and_congr_right fun _ => ?_
  cases fs.node? l with
  | none => exact ⟨fun h => (nomatch h), fun h => (nomatch h)⟩
  | some node =>
    exact ⟨fun h => congrArg some (Except.ok.inj h),
      fun h => congrArg Except.ok (Option.some.inj h)⟩

theorem read_eq_ok_iff : fs.read p = .ok bytes ↔
    ∃ place, fs.locate p = .ok place ∧ fs.node? place = some (.file bytes) := by
  rw [read, bind_eq_ok_iff, ← at?_eq_ok_iff]
  constructor
  · rintro ⟨node, hnode, h⟩
    cases node with
    | file b => rw [hnode, Except.ok.inj h]
    | directory => cases h
  · exact fun h => ⟨_, h, rfl⟩

theorem write_eq_ok_iff : fs.write p bytes = .ok fs' ↔
    ∃ place, fs.locate p = .ok place ∧ fs.node? place ≠ some .directory ∧
      fs.put place (.file bytes) = fs' := by
  simp only [write, throw_or_eq_ok_iff, bind_eq_ok_iff]
  exact exists_congr fun l => and_congr_right fun _ => and_congr_right fun _ =>
    ⟨Except.ok.inj, congrArg _⟩

/-- Files that come and go do not change where paths lead, up to the file that a path asks to be a
directory. -/
theorem locate_of_sameDirectories (h : SameDirectories fs fs') (hp : fs'.locate p = .ok place)
    (hfile : (∃ bytes, fs.node? place = some (.file bytes)) →
      ∃ bytes, fs'.node? place = some (.file bytes)) : fs.locate p = .ok place := by
  obtain ⟨htext, hwalk, hends⟩ := locate_eq_ok_iff.mp hp
  exact locate_eq_ok_iff.mpr ⟨htext, (walk_eq_ok_iff h).mpr hwalk, hends ∘ hfile⟩

/-- What is read after a write was written, or could be read before. -/
theorem read_of_write {content : Bytes} (hwrite : fs.write p content = .ok fs')
    (hread : fs'.read q = .ok bytes) : bytes = content ∨ fs.read q = .ok bytes := by
  obtain ⟨place, -, hnode, rfl⟩ := write_eq_ok_iff.mp hwrite
  obtain ⟨other, hlocate, hother⟩ := read_eq_ok_iff.mp hread
  by_cases heq : other = place
  · subst heq
    have hroot : other ≠ [] := fun hnil => hnode (by rw [hnil]; rfl)
    rw [node?_put_self hroot] at hother
    cases hother
    exact .inl rfl
  · have hbefore := hother
    rw [node?_put_of_ne heq] at hbefore
    exact .inr (read_eq_ok_iff.mpr ⟨other, locate_of_sameDirectories (sameDirectories_put hnode _)
      hlocate fun _ => ⟨bytes, hother⟩, hbefore⟩)

theorem read_of_erase (hplace : fs.node? place ≠ some .directory)
    (hread : (fs.erase place).read q = .ok bytes) : fs.read q = .ok bytes := by
  obtain ⟨other, hlocate, hother⟩ := read_eq_ok_iff.mp hread
  have hne : other ≠ place := by
    rintro rfl
    have hroot : other ≠ [] := fun hnil => hplace (by rw [hnil]; rfl)
    rw [node?_erase_self hroot] at hother
    cases hother
  have hbefore := hother
  rw [node?_erase_of_ne hne] at hbefore
  exact read_eq_ok_iff.mpr ⟨other, locate_of_sameDirectories (sameDirectories_erase hplace) hlocate
    fun _ => ⟨bytes, hother⟩, hbefore⟩

/-- What is read after a file was moved could be read before, there or where the file was. -/
theorem read_of_move {source target : Path} (hmove : fs.move source target = .ok fs')
    (hread : fs'.read q = .ok bytes) : fs.read source = .ok bytes ∨ fs.read q = .ok bytes := by
  simp only [move, bind_eq_ok_iff] at hmove
  obtain ⟨content, hcontent, place, hplace, written, hwrite, l, -, hmove⟩ := hmove
  have hwritten : written.read q = .ok bytes := by
    split at hmove
    · rwa [Except.ok.inj hmove]
    · obtain rfl := Except.ok.inj hmove
      refine read_of_erase ?_ hread
      obtain ⟨other, hlocate, hfile⟩ := read_eq_ok_iff.mp hcontent
      obtain ⟨_, -, hnode, rfl⟩ := write_eq_ok_iff.mp hwrite
      obtain rfl := Except.ok.inj (hplace.symm.trans hlocate)
      rw [ne_eq, ← sameDirectories_put hnode content place, hfile]
      exact fun h => (nomatch h)
  rcases read_of_write hwrite hwritten with rfl | hbefore
  · exact .inl hcontent
  · exact .inr hbefore

theorem read_of_remove (hremove : fs.remove p = .ok fs') (hread : fs'.read q = .ok bytes) :
    fs.read q = .ok bytes := by
  simp only [remove, bind_eq_ok_iff] at hremove
  obtain ⟨content, hcontent, place, hplace, h⟩ := hremove
  obtain ⟨other, hlocate, hfile⟩ := read_eq_ok_iff.mp hcontent
  obtain rfl := Except.ok.inj (hplace.symm.trans hlocate)
  obtain rfl := Except.ok.inj h
  exact read_of_erase (by rw [hfile]; exact fun h => (nomatch h)) hread

/-! ### Entries of a directory -/

/-- The path leads to the directory at a place. -/
structure DirectoryAt (fs : FileSystem) (p : Path) (place : Location) : Prop where
  walk : fs.walk [] p.parts = .ok place
  node : fs.node? place = some .directory

namespace DirectoryAt

theorem of_sameDirectories (h : fs.DirectoryAt p place) (hsame : SameDirectories fs fs') :
    fs'.DirectoryAt p place :=
  ⟨(walk_eq_ok_iff hsame).mp h.walk, (hsame place).mp h.node⟩

theorem locate (h : fs.DirectoryAt p place) (hname : Path.IsName name) :
    fs.locate (p.join name) = .ok (place ++ [name]) := by
  refine locate_eq_ok_iff.mpr ⟨?_, ?_, fun _ => ?_⟩
  · exact Path.isEmpty_join p hname.nonempty
  · rw [Path.parts_join p hname]
    exact walk_concat h.walk h.node hname.parent
  · obtain ⟨front, hpieces, -⟩ := Path.exists_pieces_join p hname.slash
    rw [endsInDirectory, hpieces, List.getLast?_concat]
    simp [hname.nonempty, hname.here]

theorem read (h : fs.DirectoryAt p place) (hname : Path.IsName name) :
    fs.read (p.join name) =
      match fs.node? (place ++ [name]) with
      | some (.file bytes) => .ok bytes
      | some .directory => .error .isDirectory
      | none => .error .notFound := by
  simp only [FileSystem.read, at?, h.locate hname, bind, Except.bind]
  cases fs.node? (place ++ [name]) with
  | none => rfl
  | some node => cases node <;> rfl

theorem write (h : fs.DirectoryAt p place) (hname : Path.IsName name)
    (hnode : fs.node? (place ++ [name]) ≠ some .directory) (bytes : Bytes) :
    fs.write (p.join name) bytes = .ok (fs.put (place ++ [name]) (.file bytes)) :=
  write_eq_ok_iff.mpr ⟨_, h.locate hname, hnode, rfl⟩

/-- A file of the directory is moved within it. -/
theorem move {target : String} (h : fs.DirectoryAt p place) (hname : Path.IsName name)
    (htarget : Path.IsName target) (hne : target ≠ name)
    (hfile : fs.node? (place ++ [name]) = some (.file bytes))
    (hnode : fs.node? (place ++ [target]) ≠ some .directory) :
    fs.move (p.join name) (p.join target) =
      .ok ((fs.put (place ++ [target]) (.file bytes)).erase (place ++ [name])) := by
  have hread : fs.read (p.join name) = .ok bytes := by rw [h.read hname, hfile]
  have hapart : place ++ [target] ≠ place ++ [name] := fun heq => hne (by simpa using heq)
  simp only [FileSystem.move, bind_eq_ok_iff]
  refine ⟨_, hread, _, h.locate hname, _, h.write htarget hnode bytes, _, h.locate htarget, ?_⟩
  rw [if_neg hapart]
  rfl

end DirectoryAt

/-! ### Programs -/

/-- What a program answers, and what it leaves. -/
def run {α : Type} (fs : FileSystem) (program : StateM FileSystem α) : α × FileSystem :=
  StateT.run program fs

section

variable {α β : Type}

theorem run_pure (fs : FileSystem) (a : α) : fs.run (pure a) = (a, fs) := rfl

theorem run_bind (fs : FileSystem) (program : StateM FileSystem α)
    (next : α → StateM FileSystem β) :
    fs.run (program >>= next) = (fs.run program).2.run (next (fs.run program).1) := rfl

theorem run_readFile (fs : FileSystem) (p : Path) :
    fs.run (MonadDisk.readFile p) = (fs.read p, fs) := rfl

theorem run_writeFile (h : fs.write p bytes = .ok fs') :
    fs.run (MonadDisk.writeFile p bytes) = (.ok (), fs') := by
  show update (·.write p bytes) fs = _
  rw [update, h]

theorem run_rename (h : fs.move p q = .ok fs') :
    fs.run (MonadDisk.rename p q) = (.ok (), fs') := by
  show update (·.move p q) fs = _
  rw [update, h]

end

end FileSystem

end RSource
