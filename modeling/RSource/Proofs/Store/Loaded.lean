import RSource.Proofs.Disk.FileSystem
import RSource.Proofs.Store.Entry
import RSource.Proofs.Stub.Size
import RSource.Store.Basic

/-! Stores on a file system.  Whatever stands in the directory of a store, the stubs of a source come
from its entry when everything in the entry is in order, and are built and written down when not;
the entry is then in order, and no other entry has changed.  So a store that was empty gives the
stubs of every text, whatever was asked for before. -/

namespace RSource

open FileSystem StoreEntry

namespace Text

theorem slash_not_mem_hexDigits (n : Nat) : '/' ∉ hexDigits n := by
  have hdigit : ∀ k < 16, Nat.digitChar k ≠ '/' := by decide
  rw [hexDigits]
  induction n using Nat.strongRecOn with
  | _ n ih =>
    rw [Nat.toDigits_eq_if (by decide)]
    split
    · next hlt => exact fun h => hdigit n hlt (List.mem_singleton.mp h).symm
    · next hge =>
      rw [List.mem_append, List.mem_singleton]
      rintro (h | h)
      · exact ih (n / 16) (by omega) h
      · exact hdigit (n % 16) (Nat.mod_lt _ (by decide)) h.symm

theorem slash_not_mem_hexPadded (width n : Nat) : '/' ∉ (hexPadded width n).toList := by
  rw [hexPadded, String.toList_ofList, List.mem_append]
  rintro (h | h)
  · exact absurd (List.eq_of_mem_replicate h) (by decide)
  · exact slash_not_mem_hexDigits n h

end Text

namespace Store

variable {s : Store} {d : Location} {source other : Path} {text : String} {fs : FileSystem}
variable {hash : ContentHash} {stubs : StubTree} {bytes : Bytes}

/-! ### The files of a store -/

/-- The name of the file with the entry of a source. -/
def entryName (source : Path) : String := key source ++ ".stubs"

/-- The name of the file that an entry is written to first. -/
def temporaryName (source : Path) : String := key source ++ ".tmp"

theorem isName_key_append (source : Path) {suffix : String} (hslash : '/' ∉ suffix.toList)
    (hlong : 2 < suffix.length) : Path.IsName (key source ++ suffix) := by
  have hlength : 2 < (key source ++ suffix).length := by
    rw [String.length_append]
    omega
  refine ⟨?_, ?_, ?_, ?_⟩
  · rw [String.toList_append, List.mem_append]
    exact not_or.mpr ⟨Text.slash_not_mem_hexPadded _ _, hslash⟩
  all_goals
    intro heq
    rw [heq] at hlength
    exact absurd hlength (by decide)

theorem isName_entryName (source : Path) : Path.IsName (entryName source) :=
  isName_key_append source (by decide) (by decide)

theorem isName_temporaryName (source : Path) : Path.IsName (temporaryName source) :=
  isName_key_append source (by decide) (by decide)

theorem entryName_ne_temporaryName (source other : Path) :
    entryName source ≠ temporaryName other := by
  intro heq
  have hlast := congrArg (·.toList.getLast?) heq
  simp only [entryName, temporaryName, String.toList_append] at hlast
  rw [List.getLast?_append_of_ne_nil _ (by decide), List.getLast?_append_of_ne_nil _ (by decide)]
    at hlast
  exact absurd hlast (by decide)

/-- The place of the entry of a source, in a store whose directory stands at `d`. -/
def entryPlace (d : Location) (source : Path) : Location := d ++ [entryName source]

/-- The place that the entry of a source is written to first. -/
def temporaryPlace (d : Location) (source : Path) : Location := d ++ [temporaryName source]

theorem entryPlace_ne_temporaryPlace (source other : Path) :
    entryPlace d source ≠ temporaryPlace d other := fun heq =>
  entryName_ne_temporaryName source other (by simpa [entryPlace, temporaryPlace] using heq)

/-- The directory of the store is there, and no directory is in the way of the entry of the
source. -/
structure Usable (s : Store) (d : Location) (source : Path) (fs : FileSystem) : Prop where
  directory : fs.DirectoryAt s.dir d
  entry : fs.node? (entryPlace d source) ≠ some .directory
  temporary : fs.node? (temporaryPlace d source) ≠ some .directory

/-! ### Loading and saving -/

theorem run_load (h : fs.DirectoryAt s.dir d) (source : Path) (hash : ContentHash) :
    fs.run (s.load source hash) =
      (match fs.node? (entryPlace d source) with
        | some (.file bytes) => (stubsFor bytes source.text hash).mapError .corrupt
        | some .directory => .error (.io (s.entryPath source) .isDirectory)
        | none => .ok none, fs) := by
  have hread := h.read (isName_entryName source)
  rw [load, run_bind, run_readFile, entryPath, ← entryName, hread, entryPlace]
  cases fs.node? (d ++ [entryName source]) with
  | none => rfl
  | some node =>
    cases node with
    | directory => rfl
    | file bytes =>
      simp only
      cases stubsFor bytes source.text hash <;> rfl

/-- The file system after an entry is written and has taken its place. -/
def saved (d : Location) (source : Path) (bytes : Bytes) (fs : FileSystem) : FileSystem :=
  ((fs.put (temporaryPlace d source) (.file bytes)).put (entryPlace d source)
    (.file bytes)).erase (temporaryPlace d source)

theorem node?_saved_entry : (saved d source bytes fs).node? (entryPlace d source) =
    some (.file bytes) := by
  rw [saved, node?_erase_of_ne (entryPlace_ne_temporaryPlace source source), node?_put_self]
  simp [entryPlace]

theorem node?_saved_of_ne {place : Location} (hentry : place ≠ entryPlace d source)
    (htemporary : place ≠ temporaryPlace d source) :
    (saved d source bytes fs).node? place = fs.node? place := by
  rw [saved, node?_erase_of_ne htemporary, node?_put_of_ne hentry, node?_put_of_ne htemporary]

theorem node?_saved_temporary :
    (saved d source bytes fs).node? (temporaryPlace d source) = none := by
  rw [saved, node?_erase_self]
  simp [temporaryPlace]

theorem Usable.sameDirectories_saved (h : s.Usable d source fs) (bytes : Bytes) :
    SameDirectories fs (saved d source bytes fs) := by
  intro place
  by_cases hentry : place = entryPlace d source
  · rw [hentry, node?_saved_entry]
    exact ⟨fun hnode => absurd hnode h.entry, fun hnode => by cases hnode⟩
  · by_cases htemporary : place = temporaryPlace d source
    · rw [htemporary, node?_saved_temporary]
      exact ⟨fun hnode => absurd hnode h.temporary, fun hnode => by cases hnode⟩
    · rw [node?_saved_of_ne hentry htemporary]

theorem run_save (h : s.Usable d source fs) (hash : ContentHash) (stubs : StubTree) :
    fs.run (s.save source hash stubs) =
      (.ok (), saved d source (StoreEntry.ofStubs source.text hash stubs).write fs) := by
  rw [save]
  generalize (StoreEntry.ofStubs source.text hash stubs).write = bytes
  have hwrite : fs.write (s.temporaryPath source) bytes =
      .ok (fs.put (temporaryPlace d source) (.file bytes)) :=
    h.directory.write (isName_temporaryName source) h.temporary bytes
  have hput := sameDirectories_put h.temporary bytes
  have hentry : (fs.put (temporaryPlace d source) (.file bytes)).node? (entryPlace d source) ≠
      some .directory := by
    rw [node?_put_of_ne (entryPlace_ne_temporaryPlace source source)]
    exact h.entry
  have hmove : (fs.put (temporaryPlace d source) (.file bytes)).move (s.temporaryPath source)
      (s.entryPath source) = .ok (saved d source bytes fs) := by
    refine (h.directory.of_sameDirectories hput).move (isName_temporaryName source)
      (isName_entryName source) (entryName_ne_temporaryName source source) ?_ hentry
    exact node?_put_self (by simp [temporaryPlace])
  simp only [run_bind, run_writeFile hwrite, run_rename hmove]
  rfl

/-- The stubs of a text as an answer of the store. -/
def built (s : Store) (text : String) (loaded : Loaded) : Except StoreError (StubTree × Loaded) :=
  ((StubTree.ofSource text s.limit).mapError .tree).map (·, loaded)

/-- The entry of a text that has stubs is saved, and nothing else happens. -/
theorem run_build (h : s.Usable d source fs) (text : String) (loaded : Loaded) :
    (fs.run (s.build source text loaded)).1 = s.built text loaded ∧
      (fs.run (s.build source text loaded)).2 =
        match StubTree.ofSource text s.limit with
        | .ok stubs => saved d source (StoreEntry.ofStubs source.text (.ofText text) stubs).write fs
        | .error _ => fs := by
  rw [build, built]
  cases StubTree.ofSource text s.limit with
  | error cause => exact ⟨rfl, rfl⟩
  | ok stubs =>
    simp only [run_bind, run_save h]
    exact ⟨rfl, rfl⟩

/-- The file of the entry holds these stubs of the text. -/
def Holds (d : Location) (source : Path) (text : String) (fs : FileSystem) (stubs : StubTree) :
    Prop :=
  ∃ bytes, fs.node? (entryPlace d source) = some (.file bytes) ∧
    Valid bytes source.text (.ofText text) stubs

/-- There is a file of the entry, but it cannot be read, or is for the text and its stubs cannot. -/
def Broken (d : Location) (source : Path) (text : String) (fs : FileSystem) : Prop :=
  ∃ bytes, fs.node? (entryPlace d source) = some (.file bytes) ∧
    Corrupt bytes source.text (.ofText text)

/-- A store has answered for a text: from the entry if it holds stubs, and else with those that are
built.  Then the entry holds them, and all other entries are what they were. -/
structure Answered (s : Store) (d : Location) (source : Path) (text : String) (fs : FileSystem)
    (result : Except StoreError (StubTree × Loaded) × FileSystem) : Prop where
  hit : ∀ stubs, Holds d source text fs stubs → result = (.ok (stubs, .hit), fs)
  repaired : Broken d source text fs → result.1 = s.built text .repaired
  miss : (∀ stubs, ¬Holds d source text fs stubs) → ¬Broken d source text fs →
    result.1 = s.built text .miss
  stored : ∀ stubs loaded, result.1 = .ok (stubs, loaded) →
    result.2.run (s.load source (.ofText text)) = (.ok (some stubs), result.2)
  others : ∀ place, place ≠ entryPlace d source → place ≠ temporaryPlace d source →
    result.2.node? place = fs.node? place

theorem not_broken_of_holds (h : Holds d source text fs stubs) : ¬Broken d source text fs := by
  rintro ⟨bytes, hfile, hcorrupt⟩
  obtain ⟨content, hfile', hvalid⟩ := h
  obtain rfl := FileNode.file.inj (Option.some.inj (hfile.symm.trans hfile'))
  exact not_corrupt_of_valid hvalid hcorrupt

theorem run_load_of_holds (h : fs.DirectoryAt s.dir d) (hholds : Holds d source text fs stubs) :
    fs.run (s.load source (.ofText text)) = (.ok (some stubs), fs) := by
  obtain ⟨bytes, hfile, hvalid⟩ := hholds
  rw [run_load h, hfile]
  simp only [stubsFor_of_valid hvalid]
  rfl

/-- What is saved of a text can be loaded. -/
theorem holds_saved (hpath : Text.byteLength source.text < Bytes.capacity 8)
    (h : StubTree.ofSource text s.limit = .ok stubs) :
    Holds d source text
      (saved d source (StoreEntry.ofStubs source.text (.ofText text) stubs).write fs) stubs := by
  have hsize := StubTree.byteLength_le_of_ofSource h
  obtain ⟨hwell, hstorable⟩ := StubTree.storable_ofSource hsize h
  exact ⟨_, node?_saved_entry, valid_ofStubs hpath (StubTree.length_encode_lt h)
    (StubTree.decode_encode hwell hstorable)⟩

theorem run_loadOrBuild_of_not_holds (h : s.Usable d source fs)
    (hholds : ∀ stubs, ¬Holds d source text fs stubs) :
    ∃ loaded, fs.run (s.loadOrBuild source text) = fs.run (s.build source text loaded) ∧
      (Broken d source text fs ∧ loaded = .repaired ∨
        ¬Broken d source text fs ∧ loaded = .miss) := by
  rw [loadOrBuild, run_bind, run_load h.directory]
  cases hnode : fs.node? (entryPlace d source) with
  | none =>
    refine ⟨.miss, rfl, .inr ⟨?_, rfl⟩⟩
    rintro ⟨bytes, hfile, -⟩
    rw [hnode] at hfile
    cases hfile
  | some node =>
    cases node with
    | directory => exact absurd hnode h.entry
    | file bytes =>
      by_cases hcorrupt : Corrupt bytes source.text (.ofText text)
      · obtain ⟨cause, hcause⟩ := stubsFor_of_corrupt hcorrupt
        refine ⟨.repaired, ?_, .inl ⟨⟨bytes, hnode, hcorrupt⟩, rfl⟩⟩
        simp only [hcause]
        rfl
      · have hnone := stubsFor_of_not (fun stubs hvalid => hholds stubs ⟨bytes, hnode, hvalid⟩)
          hcorrupt
        refine ⟨.miss, ?_, .inr ⟨?_, rfl⟩⟩
        · simp only [hnone]
          rfl
        · rintro ⟨content, hfile, hcontent⟩
          obtain rfl := FileNode.file.inj (Option.some.inj (hnode.symm.trans hfile))
          exact hcorrupt hcontent

theorem answered (hdirectory : fs.DirectoryAt s.dir d)
    (husable : (∀ stubs, ¬Holds d source text fs stubs) → s.Usable d source fs)
    (hpath : Text.byteLength source.text < Bytes.capacity 8) :
    Answered s d source text fs (fs.run (s.loadOrBuild source text)) := by
  by_cases hholds : ∃ stubs, Holds d source text fs stubs
  · obtain ⟨stubs, hholds⟩ := hholds
    have hrun : fs.run (s.loadOrBuild source text) = (.ok (stubs, .hit), fs) := by
      rw [loadOrBuild, run_bind, run_load_of_holds hdirectory hholds]
      rfl
    rw [hrun]
    refine ⟨fun u hu => ?_, fun hbroken => absurd hbroken (not_broken_of_holds hholds),
      fun hnone => absurd hholds (hnone stubs), ?_, fun _ _ _ => rfl⟩
    · have hagain := run_load_of_holds hdirectory hu
      rw [run_load_of_holds hdirectory hholds] at hagain
      obtain rfl := Option.some.inj (Except.ok.inj (Prod.mk.inj hagain).1)
      rfl
    · rintro u loaded ⟨⟩
      exact run_load_of_holds hdirectory hholds
  · rw [not_exists] at hholds
    have h := husable hholds
    obtain ⟨loaded, hrun, hloaded⟩ := run_loadOrBuild_of_not_holds h hholds
    obtain ⟨hanswer, hafter⟩ := run_build h text loaded
    rw [hrun]
    refine ⟨fun u hu => absurd hu (hholds u), fun hbroken => ?_, fun _ hsound => ?_, ?_, ?_⟩
    · obtain ⟨-, rfl⟩ | ⟨hsound, -⟩ := hloaded
      · exact hanswer
      · exact absurd hbroken hsound
    · obtain ⟨hbroken, -⟩ | ⟨-, rfl⟩ := hloaded
      · exact absurd hbroken hsound
      · exact hanswer
    · intro stubs loaded' hok
      rw [hanswer, built] at hok
      cases hsource : StubTree.ofSource text s.limit with
      | error cause => rw [hsource] at hok; cases hok
      | ok u =>
        rw [hsource] at hok hafter
        cases hok
        rw [hafter]
        exact run_load_of_holds (hdirectory.of_sameDirectories (h.sameDirectories_saved _))
          (holds_saved hpath hsource)
    · intro place hentry htemporary
      rw [hafter]
      cases StubTree.ofSource text s.limit with
      | error cause => rfl
      | ok u => exact node?_saved_of_ne hentry htemporary

/-! ### Runs of calls -/

/-- All that can be taken from the entries of a store was built from texts that were asked for, and
no directory is in the way of an entry. -/
structure Kept (s : Store) (d : Location) (calls : List (Path × String)) (fs : FileSystem) :
    Prop where
  directory : fs.DirectoryAt s.dir d
  free : ∀ source, fs.node? (entryPlace d source) ≠ some .directory ∧
    fs.node? (temporaryPlace d source) ≠ some .directory
  built : ∀ source bytes name hash stubs, fs.node? (entryPlace d source) = some (.file bytes) →
    Valid bytes name hash stubs → ∃ text, (⟨name⟩, text) ∈ calls ∧ hash = .ofText text ∧
      StubTree.ofSource text s.limit = .ok stubs

variable {calls : List (Path × String)}

theorem Kept.saved (h : Kept s d calls fs) (hcall : (source, text) ∈ calls)
    (hpath : Text.byteLength source.text < Bytes.capacity 8)
    (hsource : StubTree.ofSource text s.limit = .ok stubs) :
    Kept s d calls
      (saved d source (StoreEntry.ofStubs source.text (.ofText text) stubs).write fs) := by
  have husable : s.Usable d source fs := ⟨h.directory, (h.free source).1, (h.free source).2⟩
  have hsame := husable.sameDirectories_saved
    (StoreEntry.ofStubs source.text (.ofText text) stubs).write
  refine ⟨h.directory.of_sameDirectories hsame, fun other => ?_, ?_⟩
  · rw [ne_eq, ne_eq, ← hsame, ← hsame]
    exact h.free other
  · intro other bytes name hash u hfile hvalid
    by_cases hother : entryPlace d other = entryPlace d source
    · rw [hother, node?_saved_entry] at hfile
      obtain rfl := FileNode.file.inj (Option.some.inj hfile)
      obtain ⟨hwell, hstorable⟩ :=
        StubTree.storable_ofSource (StubTree.byteLength_le_of_ofSource hsource) hsource
      obtain ⟨rfl, rfl, rfl⟩ := eq_of_valid_ofStubs hpath (StubTree.length_encode_lt hsource)
        (StubTree.decode_encode hwell hstorable) hvalid
      exact ⟨text, hcall, rfl, hsource⟩
    · rw [node?_saved_of_ne hother (entryPlace_ne_temporaryPlace other source)] at hfile
      exact h.built other bytes name hash u hfile hvalid

/-- Different texts of a source have different hashes. -/
def Apart (calls : List (Path × String)) : Prop :=
  ∀ c ∈ calls, ∀ c' ∈ calls, c.1 = c'.1 →
    ContentHash.ofText c.2 = ContentHash.ofText c'.2 → c.2 = c'.2

/-- A call answers with the stubs of its text. -/
theorem Kept.step (h : Kept s d calls fs) (hcall : (source, text) ∈ calls) (hapart : Apart calls)
    (hpath : Text.byteLength source.text < Bytes.capacity 8) :
    (∃ loaded, (fs.run (s.loadOrBuild source text)).1 = s.built text loaded) ∧
      Kept s d calls (fs.run (s.loadOrBuild source text)).2 := by
  by_cases hholds : ∃ stubs, Holds d source text fs stubs
  · obtain ⟨stubs, bytes, hfile, hvalid⟩ := hholds
    obtain ⟨text', hcall', hhash, hsource⟩ := h.built source bytes _ _ _ hfile hvalid
    obtain rfl : text = text' := hapart _ hcall _ hcall' rfl hhash
    have hrun : fs.run (s.loadOrBuild source text) = (.ok (stubs, .hit), fs) := by
      rw [loadOrBuild, run_bind, run_load_of_holds h.directory ⟨bytes, hfile, hvalid⟩]
      rfl
    rw [hrun]
    exact ⟨⟨.hit, by rw [Store.built, hsource]; rfl⟩, h⟩
  · rw [not_exists] at hholds
    have husable : s.Usable d source fs := ⟨h.directory, (h.free source).1, (h.free source).2⟩
    obtain ⟨loaded, hrun, -⟩ := run_loadOrBuild_of_not_holds husable hholds
    obtain ⟨hanswer, hafter⟩ := run_build husable text loaded
    rw [hrun]
    refine ⟨⟨loaded, hanswer⟩, ?_⟩
    rw [hafter]
    cases hsource : StubTree.ofSource text s.limit with
    | error cause => exact h
    | ok stubs => exact h.saved hcall hpath hsource

theorem map_fst_built (text : String) (loaded : Loaded) :
    (s.built text loaded).map Prod.fst = (StubTree.ofSource text s.limit).mapError .tree := by
  rw [built]
  cases StubTree.ofSource text s.limit <;> rfl

theorem Kept.run (hapart : Apart calls)
    (hpath : ∀ c ∈ calls, Text.byteLength c.1.text < Bytes.capacity 8)
    {rest : List (Path × String)} (hrest : ∀ c ∈ rest, c ∈ calls) (h : Kept s d calls fs) :
    (fs.run (rest.mapM fun c => s.loadOrBuild c.1 c.2)).1.map (·.map Prod.fst) =
      rest.map fun c => (StubTree.ofSource c.2 s.limit).mapError .tree := by
  induction rest generalizing fs with
  | nil => rfl
  | cons c rest ih =>
    obtain ⟨hcall, hrest⟩ := List.forall_mem_cons.mp hrest
    obtain ⟨⟨loaded, hanswer⟩, hkept⟩ := h.step hcall hapart (hpath c hcall)
    have htail := ih hrest hkept
    rw [List.mapM_cons, run_bind, run_bind, run_pure, List.map_cons, List.map_cons, hanswer,
      map_fst_built, ← htail]

/-- Whatever files stand in the directory of a store, it answers for a text from an entry that is
in order, or builds what it answers and puts the entry in order, with all other entries left alone.
A store whose directory is empty at first answers every call with the stubs of its text. -/
theorem loadOrBuild_answers (s : Store) (d : Location) :
    (∀ fs source text, fs.DirectoryAt s.dir d →
      ((∀ stubs, ¬Holds d source text fs stubs) → s.Usable d source fs) →
      Text.byteLength source.text < Bytes.capacity 8 →
      Answered s d source text fs (fs.run (s.loadOrBuild source text))) ∧
    ∀ (fs : FileSystem) (calls : List (Path × String)), fs.DirectoryAt s.dir d →
      (∀ name, fs.node? (d ++ [name]) = none) →
      (∀ c ∈ calls, Text.byteLength c.1.text < Bytes.capacity 8) → Apart calls →
      (fs.run (calls.mapM fun c => s.loadOrBuild c.1 c.2)).1.map (·.map Prod.fst) =
        calls.map fun c => (StubTree.ofSource c.2 s.limit).mapError .tree := by
  refine ⟨fun fs source text => answered, fun fs calls hdirectory hempty hpath hapart => ?_⟩
  have hkept : Kept s d calls fs := by
    refine ⟨hdirectory, fun source => ⟨?_, ?_⟩, fun source bytes _ _ _ hfile => ?_⟩
    · rw [entryPlace, hempty]
      exact fun h => (nomatch h)
    · rw [temporaryPlace, hempty]
      exact fun h => (nomatch h)
    · rw [entryPlace, hempty] at hfile
      cases hfile
  exact hkept.run hapart hpath fun _ hc => hc

/-- A store in an empty directory is asked for two texts of a source, and for the first again. -/
theorem loadOrBuild_answers_twice :
    let fs : FileSystem := ⟨[(["cache"], .directory)]⟩
    let s : Store := ⟨⟨"cache"⟩, 5⟩
    let calls : List (Path × String) := [(⟨"a.R"⟩, "x = 1"), (⟨"a.R"⟩, ""), (⟨"a.R"⟩, "x = 1")]
    Answered s ["cache"] ⟨"a.R"⟩ "x = 1" fs (fs.run (s.loadOrBuild ⟨"a.R"⟩ "x = 1")) ∧
      (fs.run (calls.mapM fun c => s.loadOrBuild c.1 c.2)).1.map (·.map Prod.fst) =
        calls.map fun c => (StubTree.ofSource c.2 s.limit).mapError .tree := by
  intro fs s calls
  have hdirectory : fs.DirectoryAt s.dir ["cache"] := ⟨by decide, by decide⟩
  have hempty : ∀ name, fs.node? (["cache"] ++ [name]) = none := by
    intro name
    simp [node?, fs, List.lookup_cons]
  have hapart : Apart calls := by
    unfold Apart
    decide +kernel
  obtain ⟨hanswered, hrun⟩ := loadOrBuild_answers s ["cache"]
  refine ⟨hanswered fs _ _ hdirectory (fun _ => ⟨hdirectory, ?_, ?_⟩) (by decide),
    hrun fs calls hdirectory hempty (by decide) hapart⟩
  · rw [entryPlace, hempty]
    simp
  · rw [temporaryPlace, hempty]
    simp

end Store

end RSource
