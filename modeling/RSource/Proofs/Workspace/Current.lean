import RSource.Proofs.Store.Loaded
import RSource.Proofs.Workspace.Loading

/-! Workspaces whose index matches their texts.  A workspace is loaded so, in whatever order the
workers come to their ends, and stays so when files are loaded again, as long as a store takes only
from entries that were written for texts of the sources. -/

namespace RSource.Workspace

open Relation (ReflTransGen)
open StoreEntry Store

variable {texts : Path → String → Prop} {w w' : Workspace} {fs fs' : FileSystem} {id : FileId}

/-- The index has the stubs of the text that is held, whatever number of errors is kept. -/
def Shows (w : Workspace) (file : SourceFile) : Prop :=
  ∃ stubs, (∀ limit, StubTree.ofSource file.text limit = .ok stubs) ∧
    w.index.stubs? file.id = some stubs

/-- The index is one of the files of the workspace, and has the stubs of their texts but perhaps for
one file. -/
structure CurrentBut (stale : Option FileId) (w : Workspace) : Prop where
  ids : ∀ (i : FileId) (file : SourceFile), w.files[i]? = some file → file.id = i
  shows : ∀ (i : FileId) (file : SourceFile), w.files[i]? = some file → stale ≠ some i →
    w.Shows file
  registered : ∀ i, (w.index.stubs? i).isSome → ∃ file, w.files[i]? = some file

/-- The index is one of the files of the workspace and has the stubs of their texts. -/
abbrev Current (w : Workspace) : Prop := w.CurrentBut none

theorem CurrentBut.weaken (h : w.Current) (stale : Option FileId) : w.CurrentBut stale :=
  ⟨h.ids, fun i file hfile _ => h.shows i file hfile nofun, h.registered⟩

/-- The index of a workspace matches the texts of its files, and what the store has of texts that
files have had was built from them. -/
structure Settled (texts : Path → String → Prop) (paths : Array Path) (stale : Option FileId)
    (w : Workspace) (fs : FileSystem) : Prop where
  paths : w.files.map SourceFile.path = paths
  current : w.CurrentBut stale
  held : ∀ file ∈ w.files, texts file.path file.text
  entries : fs.Holds (Genuine texts) (InStore w.store)

/-! ### Loading -/

theorem getElem?_readable {reads : List (Path × Except IoError String)} {file : SourceFile}
    {i : FileId} (h : (readable reads)[i]? = some file) : file.id = i := by
  rw [readable, List.getElem?_mapIdx] at h
  obtain ⟨read, -, rfl⟩ := Option.map_eq_some_iff.mp h
  rfl

theorem nodup_ids_readable (reads : List (Path × Except IoError String)) :
    ((readable reads).map SourceFile.id).Nodup := by
  rw [List.nodup_iff_getElem?_ne_getElem?]
  intro i j hij hj heq
  rw [List.length_map] at hj
  rw [List.getElem?_map, List.getElem?_map, List.getElem?_eq_getElem hj,
    List.getElem?_eq_getElem (hij.trans hj), Option.map_some, Option.map_some,
    getElem?_readable (List.getElem?_eq_getElem hj),
    getElem?_readable (List.getElem?_eq_getElem (hij.trans hj))] at heq
  exact hij.ne (Option.some.inj heq)

/-- When nothing failed there are stubs for every file. -/
theorem exists_stubs_of_unindexed {ends : List (SourceFile × Result)} {file : SourceFile}
    (h : unindexed (ends.map Prod.fst) (ends.map Prod.snd) = [])
    (hfile : file ∈ ends.map Prod.fst) :
    ∃ stubs loaded, (file, Except.ok (stubs, loaded)) ∈ ends := by
  obtain ⟨⟨file, result⟩, hend, rfl⟩ := List.mem_map.mp hfile
  rw [unindexed, ← @List.zip_of_prod _ _ _ _ ends rfl rfl, List.filterMap_eq_nil_iff] at h
  rcases result with e | ⟨stubs, loaded⟩
  · cases h _ hend
  · exact ⟨stubs, loaded, hend⟩

theorem Loads.settled {root : Path} {config : IndexConfig} (htexts : Texts texts)
    (hload : Loads root config fs w fs') (hheld : ∀ file ∈ w.files, texts file.path file.text)
    (hentries : ∀ store reads disk, fs.run (prepare root config) = (.ok (store, reads), disk) →
      disk.Holds (Genuine texts) (InStore store))
    (hfailures : w.failures = []) : Settled texts (w.files.map SourceFile.path) none w fs' := by
  cases hload with
  | @intro store reads index disk _ ends hprepare hsteps =>
    have hsound := (Loading.sound_start htexts (fun file hfile => hheld file (by simpa [loaded]))
      (hentries _ _ _ hprepare)).steps (nodup_ids_readable reads) hsteps
    have hfiles : ends.map Prod.fst = readable reads := by
      simpa [Loading.finish, Function.comp_def] using hsound.works
    obtain ⟨-, hindexed⟩ := List.append_eq_nil_iff.mp hfailures
    rw [← hfiles] at hindexed
    refine ⟨rfl, ⟨fun i file hfile => ?_, fun i file hfile _ => ?_, fun i hi => ?_⟩, hheld,
      hsound.disk⟩
    · exact getElem?_readable (by simpa [loaded] using hfile)
    · have hmem : file ∈ ends.map Prod.fst := by
        rw [hfiles]
        exact List.mem_of_getElem? (by simpa [loaded] using hfile)
      obtain ⟨stubs, found, hend⟩ := exists_stubs_of_unindexed hindexed hmem
      exact ⟨stubs, hsound.settled file stubs found (List.mem_map.mpr ⟨_, hend, rfl⟩)⟩
    · obtain ⟨file, hfile, rfl⟩ := hsound.registered i hi
      obtain ⟨j, hj⟩ := List.getElem?_of_mem hfile
      rw [getElem?_readable hj]
      exact ⟨file, by simpa [loaded] using hj⟩

/-! ### Loading again -/

/-- The text that a file has on the disk. -/
def textOn (fs : FileSystem) (p : Path) : Except IoError String := (fs.run (readText p)).1

theorem run_readText (fs : FileSystem) (p : Path) : fs.run (readText p) = (textOn fs p, fs) := by
  rw [textOn, readText, FileSystem.run_bind, FileSystem.run_readFile]
  cases fs.read p <;> rfl

variable {paths : Array Path} {stale : Option FileId}

theorem Settled.reindex (htexts : Texts texts) (h : Settled texts paths (some id) w fs)
    (hrun : fs.run (reindex w id) = ((.ok (), w'), fs')) : Settled texts paths none w' fs' := by
  rw [Workspace.reindex] at hrun
  cases hfile : w.files[id]? with
  | none =>
    simp only [hfile, FileSystem.run_pure] at hrun
    cases hrun
    refine ⟨h.paths, ⟨h.current.ids, fun i file hi _ => h.current.shows i file hi ?_,
      h.current.registered⟩, h.held, h.entries⟩
    rintro ⟨⟩
    rw [hfile] at hi
    cases hi
  | some file =>
    obtain ⟨hright, hentries⟩ := @right_stubsOf _ _ w.config.limit _ _ htexts
      (h.held file (Array.mem_of_getElem? hfile)) h.entries
    simp only [hfile, FileSystem.run_bind] at hrun
    cases hstubs : fs.run (stubsOf w.store w.config.limit file) with
    | mk result disk =>
      rw [hstubs] at hrun hright hentries
      rcases result with e | ⟨stubs, found⟩
      · cases hrun
      · cases hrun
        refine ⟨h.paths, ⟨h.current.ids, fun i file' hi _ => ?_, fun i hi => ?_⟩, h.held, hentries⟩
        · rw [Shows]
          simp only [StubIndex.stubs?_commit, h.current.ids i file' hi]
          split
          · next heq =>
            obtain rfl : file = file' := Option.some.inj (hfile.symm.trans (heq ▸ hi))
            exact ⟨stubs, hright stubs found rfl, rfl⟩
          · next hne =>
            have hshows := h.current.shows i file' hi fun heq => hne (Option.some.inj heq)
            rwa [Shows, h.current.ids i file' hi] at hshows
        · simp only [StubIndex.stubs?_commit] at hi
          split at hi
          · next heq => exact ⟨file, heq ▸ hfile⟩
          · exact h.current.registered i hi

theorem Settled.of_index (h : Settled texts paths stale w fs) {index : StubIndex}
    (hstubs : ∀ i, index.stubs? i = w.index.stubs? i) :
    Settled texts paths stale { w with index } fs where
  paths := h.paths
  current :=
    { ids := h.current.ids
      shows := fun i file hfile hi => by
        rw [Shows, hstubs]
        exact h.current.shows i file hfile hi
      registered := fun i hi => h.current.registered i (by rwa [← hstubs]) }
  held := h.held
  entries := h.entries

theorem Settled.reindexWaiting (htexts : Texts texts) {bound : Nat}
    (h : Settled texts paths none w fs)
    (hrun : fs.run (reindexWaiting bound w) = ((.ok (), w'), fs')) :
    Settled texts paths none w' fs' := by
  induction bound generalizing w fs with
  | zero =>
    cases hrun
    exact h
  | succ bound ih =>
    rw [Workspace.reindexWaiting] at hrun
    have hnext : Settled texts paths none { w with index := w.index.next.2 } fs :=
      h.of_index fun _ => rfl
    cases hi : w.index.next with
    | mk next index =>
      rw [hi] at hrun hnext
      cases next with
      | none =>
        cases hrun
        exact hnext
      | some i =>
        simp only [FileSystem.run_bind] at hrun
        cases hreindex : fs.run (Workspace.reindex { w with index } i) with
        | mk answer disk =>
          rw [hreindex] at hrun
          obtain ⟨_ | _, w₁⟩ := answer
          · cases hrun
          · exact ih (Settled.reindex htexts
              ⟨hnext.paths, hnext.current.weaken _, hnext.held, hnext.entries⟩
              hreindex) hrun

/-- A file that could be read is loaded again without an error of the store, and its text is one
that is reckoned with. -/
def Reloadable (texts : Path → String → Prop) (w : Workspace) (fs : FileSystem) (id : FileId) :
    Prop :=
  ∀ file text, w.files[id]? = some file → textOn fs file.path = .ok text →
    texts file.path text ∧ (fs.run (w.reload id)).1.1 = .ok ()

/-- The text of a file that is read again is held, and its stubs are still to be put right. -/
theorem Settled.hold (h : Settled texts paths none w fs) {file : SourceFile} {text : String}
    (hfile : w.files[id]? = some file) (htext : texts file.path text) :
    Settled texts paths (some id)
      { w with files := w.files.setIfInBounds id { file with text } } fs := by
  have hid := h.current.ids id file hfile
  have hfiles : ∀ (i : FileId), (w.files.setIfInBounds id { file with text })[i]? =
      if id = i then some { file with text } else w.files[i]? := by
    intro i
    rw [Array.getElem?_setIfInBounds, if_pos (Array.getElem?_eq_some_iff.mp hfile).1]
  refine ⟨?_, ⟨fun i file' hi => ?_, fun i file' hi hstale => ?_, fun i hi => ?_⟩,
    fun file' hmem => ?_, h.entries⟩
  · rw [← h.paths]
    refine Array.ext_getElem? fun i => ?_
    rw [Array.getElem?_map, Array.getElem?_map, hfiles]
    split
    · next heq =>
      rw [← heq, hfile]
      rfl
    · rfl
  · rw [hfiles] at hi
    split at hi
    · next heq =>
      cases hi
      exact hid.trans heq
    · exact h.current.ids i file' hi
  · rw [hfiles, if_neg fun heq => hstale (congrArg some heq)] at hi
    exact h.current.shows i file' hi nofun
  · rw [hfiles]
    split
    · exact ⟨_, rfl⟩
    · exact h.current.registered i hi
  · rcases Array.mem_or_eq_of_mem_setIfInBounds hmem with hold | rfl
    · exact h.held file' hold
    · exact htext

theorem Settled.reload (htexts : Texts texts) (h : Settled texts paths none w fs)
    (hreload : Reloadable texts w fs id) :
    Settled texts paths none (fs.run (w.reload id)).1.2 (fs.run (w.reload id)).2 := by
  cases hfile : w.files[id]? with
  | none =>
    simp only [Workspace.reload, hfile]
    exact h
  | some file =>
    cases htext : textOn fs file.path with
    | error cause =>
      simp only [Workspace.reload, hfile, FileSystem.run_bind, run_readText, htext]
      exact h
    | ok text =>
      obtain ⟨hnew, hok⟩ := hreload file text hfile htext
      have hheld := h.hold hfile hnew
      simp only [Workspace.reload, hfile, FileSystem.run_bind, run_readText, htext] at hok ⊢
      cases hinvalidate : w.index.invalidate id with
      | error e =>
        rw [hinvalidate] at hok
        cases hok
      | ok index =>
        have hstale := hheld.of_index (StubIndex.stubs?_invalidate hinvalidate)
        simp only [hinvalidate, FileSystem.run_bind] at hok ⊢
        cases hreindex : fs.run (Workspace.reindex
            { w with files := w.files.setIfInBounds id { file with text }, index := index } id) with
        | mk answer disk =>
          rw [hreindex] at hok
          obtain ⟨_ | _, w₁⟩ := answer
          · cases hok
          · have hright := Settled.reindex htexts hstale hreindex
            simp only at hok ⊢
            cases hwaiting : disk.run (Workspace.reindexWaiting w₁.index.queue.length w₁) with
            | mk last disk' =>
              rw [hwaiting] at hok
              obtain ⟨_ | _, w₂⟩ := last
              · cases hok
              · exact Settled.reindexWaiting htexts hright hwaiting

/-- What can happen to a loaded workspace and the disk: files change that are not in the store, and
what is in the store goes at most; or a file is loaded again. -/
inductive Change (texts : Path → String → Prop) :
    Workspace × FileSystem → Workspace × FileSystem → Prop
  | disk {w : Workspace} {fs fs' : FileSystem}
      (kept : ∀ p, InStore w.store p → ∀ bytes, fs'.read p = .ok bytes → fs.read p = .ok bytes) :
      Change texts (w, fs) (w, fs')
  | reload {w : Workspace} {fs : FileSystem} {id : FileId} (reloadable : Reloadable texts w fs id) :
      Change texts (w, fs) ((fs.run (w.reload id)).1.2, (fs.run (w.reload id)).2)

theorem Settled.changes (htexts : Texts texts) (h : Settled texts paths none w fs)
    (hchanges : ReflTransGen (Change texts) (w, fs) (w', fs')) :
    Settled texts paths none w' fs' := by
  generalize hlast : (w', fs') = last at hchanges
  induction hchanges generalizing w' fs' with
  | refl =>
    cases hlast
    exact h
  | tail _ hstep ih =>
    cases hstep with
    | disk hkept =>
      cases hlast
      have hbefore := ih rfl
      exact ⟨hbefore.paths, hbefore.current, hbefore.held, fun p hp bytes hread =>
        hbefore.entries p hp bytes (hkept p hp bytes hread)⟩
    | reload hreload =>
      cases hlast
      exact (ih rfl).reload htexts hreload

/-! ### Hits -/

/-- The hit is a stub of the text that is held of its file, and points into that text. -/
def Locates (w : Workspace) (hit : Hit) : Prop :=
  ∃ file stubs, w.sourceOf? hit = some file ∧ file.id = hit.file ∧
    (∀ limit, StubTree.ofSource file.text limit = .ok stubs) ∧
    stubs.stubs[hit.id]? = some hit.stub ∧
    hit.stub.span.start ≤ hit.stub.span.stop ∧ hit.stub.span.stop ≤ Text.byteLength file.text

theorem CurrentBut.locates (h : w.Current) {name : String} {p : Stub → Bool} {hit : Hit}
    (hhit : hit ∈ w.index.find name p) : w.Locates hit := by
  have hstub := StubIndex.getElem?_of_mem_find hhit
  cases hstubs : w.index.stubs? hit.file with
  | none =>
    rw [StubIndex.committed, hstubs] at hstub
    cases hstub
  | some u =>
    obtain ⟨file, hfile⟩ := h.registered hit.file (by rw [hstubs]; rfl)
    obtain ⟨stubs, hsource, hindex⟩ := h.shows hit.file file hfile (by simp)
    rw [h.ids hit.file file hfile] at hindex
    rw [StubIndex.committed, hindex, Option.getD_some] at hstub
    obtain ⟨hstart, hstop⟩ :=
      StubTree.span_of_ofSource (hsource Parse.defaultLimit) (Array.mem_of_getElem? hstub)
    exact ⟨file, stubs, hfile, h.ids hit.file file hfile, hsource, hstub, hstart, hstop⟩

/-! ### From a load on -/

/-- A workspace that was loaded without failures, by workers in whatever order, and whose files were
loaded again any number of times, while they changed on the disk, has its files still and the stubs
of the texts that it holds; what it finds is in those texts. -/
theorem index_current {root : Path} {config : IndexConfig} {disk : FileSystem}
    (htexts : Texts texts) (hload : Loads root config disk w fs)
    (hheld : ∀ file ∈ w.files, texts file.path file.text)
    (hentries : ∀ store reads disk', disk.run (prepare root config) = (.ok (store, reads), disk') →
      disk'.Holds (Genuine texts) (InStore store))
    (hfailures : w.failures = [])
    (hchanges : ReflTransGen (Change texts) (w, fs) (w', fs')) :
    w'.files.map SourceFile.path = w.files.map SourceFile.path ∧ w'.Current ∧
      ∀ name, ∀ hit ∈ w'.index.findAssignments name ++ w'.index.findParameters name,
        w'.Locates hit := by
  have hsettled := (hload.settled htexts hheld hentries hfailures).changes htexts hchanges
  refine ⟨hsettled.paths, hsettled.current, fun name hit hhit => ?_⟩
  exact (List.mem_append.mp hhit).elim hsettled.current.locates hsettled.current.locates

theorem exists_of_inStore {s : Store} {p : Path} (h : InStore (some s) p) :
    ∃ name, Path.IsName name ∧ p = s.dir.join name := by
  rw [inStore_some] at h
  obtain ⟨source, rfl | rfl⟩ := h
  · exact ⟨_, isName_entryName source, rfl⟩
  · exact ⟨_, isName_temporaryName source, rfl⟩

/-- What a store reads is told by the entries of its directory. -/
theorem read_eq_of_inStore {s : Store} {d : Location} {p : Path} (h : fs.DirectoryAt s.dir d)
    (h' : fs'.DirectoryAt s.dir d)
    (hsame : ∀ name, fs'.node? (d ++ [name]) = fs.node? (d ++ [name]))
    (hp : InStore (some s) p) : fs'.read p = fs.read p := by
  obtain ⟨name, hname, rfl⟩ := exists_of_inStore hp
  rw [h.read hname, h'.read hname, hsame]

theorem holds_of_empty {K : Bytes → Prop} {s : Store} {d : Location} (h : fs.DirectoryAt s.dir d)
    (hempty : ∀ name, fs.node? (d ++ [name]) = none) : fs.Holds K (InStore (some s)) := by
  intro p hp bytes hread
  obtain ⟨name, hname, rfl⟩ := exists_of_inStore hp
  rw [h.read hname, hempty] at hread
  cases hread

/-- One source. -/
def sourceAlone : FileSystem := ⟨[(["a.R"], .file (Utf8.encode "x = 1"))]⟩

/-- A source is loaded with a store that is made for it, changes on the disk, and is loaded
again. -/
theorem index_current_changed :
    let config : IndexConfig := ⟨some ⟨"cache"⟩, ["R"], 5⟩
    let fs := (sourceAlone.run (load ⟨"a.R"⟩ config)).2
    let fs' := fs.put ["a.R"] (.file (Utf8.encode "y = 2"))
    ∃ w, Loads ⟨"a.R"⟩ config sourceAlone w fs ∧ w.failures = [] ∧
      let w' := (fs'.run (w.reload 0)).1.2
      w'.Current ∧ (w'.index.findAssignments "y").length = 1 ∧
        ∀ hit ∈ w'.index.findAssignments "y", w'.Locates hit := by
  intro config fs fs'
  let s : Store := ⟨⟨"cache"⟩, 5⟩
  let texts : Path → String → Prop := fun p text => p = ⟨"a.R"⟩ ∧ text ∈ ["x = 1", "y = 2"]
  have hrun : (sourceAlone.run (load ⟨"a.R"⟩ config)).1.toOption.any (fun w =>
      w.failures = [] ∧ w.store = some s ∧ w.files = #[⟨0, ⟨"a.R"⟩, "x = 1"⟩] ∧
        (fs'.run (w.reload 0)).1.1 = .ok () ∧
        ((fs'.run (w.reload 0)).1.2.index.findAssignments "y").length = 1) = true := by
    decide +kernel
  obtain ⟨w, hw, hchecked⟩ := exists_of_any_toOption hrun
  obtain ⟨hfailures, hstore, hfiles, hok, hfound⟩ := of_decide_eq_true hchecked
  have htexts : Texts texts := by
    have hapart : ∀ text ∈ ["x = 1", "y = 2"], ∀ text' ∈ ["x = 1", "y = 2"],
        ContentHash.ofText text = ContentHash.ofText text' → text = text' := by decide +kernel
    refine ⟨?_, ?_⟩
    · rintro _ text ⟨rfl, -⟩
      decide
    · rintro _ text text' ⟨rfl, htext⟩ ⟨-, htext'⟩
      exact hapart text htext text' htext'
  have hload : Loads ⟨"a.R"⟩ config sourceAlone w fs := loads_of_load hw
  have hheld : ∀ file ∈ w.files, texts file.path file.text := by simp [hfiles, texts]
  -- The directory of the store is empty at first.
  have hentries : ∀ store reads disk, sourceAlone.run (prepare ⟨"a.R"⟩ config) =
      (.ok (store, reads), disk) → disk.Holds (Genuine texts) (InStore store) := by
    intro store reads disk h
    have hprepare : (sourceAlone.run (prepare ⟨"a.R"⟩ config)).1.toOption.map Prod.fst =
          some (some s) ∧
        (sourceAlone.run (prepare ⟨"a.R"⟩ config)).2.nodes =
          [(["cache"], .directory), (["a.R"], .file (Utf8.encode "x = 1"))] := by
      decide +kernel
    rw [h] at hprepare
    obtain ⟨hs, hnodes⟩ := hprepare
    obtain rfl := Option.some.inj hs
    obtain ⟨nodes⟩ := disk
    obtain rfl := hnodes
    refine @holds_of_empty _ _ s ["cache"] ⟨by decide, by decide⟩ fun name => ?_
    simp [FileSystem.node?, List.lookup_cons]
  have hcache : fs.DirectoryAt s.dir ["cache"] := ⟨by decide +kernel, by decide +kernel⟩
  have hdisk : Change texts (w, fs) (w, fs') := by
    refine .disk fun p hp bytes hread => ?_
    rw [hstore] at hp
    have hnode : fs.node? ["a.R"] ≠ some .directory := by decide +kernel
    rwa [← read_eq_of_inStore hcache
      (hcache.of_sameDirectories (FileSystem.sameDirectories_put hnode _)) (fun name => ?_) hp]
    exact FileSystem.node?_put_of_ne (by simp)
  have hreloadable : Reloadable texts w fs' 0 := by
    intro file text hfile htext
    have hon : (textOn fs' ⟨"a.R"⟩).toOption = some "y = 2" := by decide +kernel
    rw [hfiles] at hfile
    obtain rfl : ⟨0, ⟨"a.R"⟩, "x = 1"⟩ = file := Option.some.inj hfile
    rw [htext] at hon
    obtain rfl := Option.some.inj hon
    exact ⟨⟨rfl, by simp⟩, hok⟩
  obtain ⟨-, hcurrent, hlocates⟩ := index_current htexts hload hheld hentries hfailures
    (.tail (.single hdisk) (.reload hreloadable))
  exact ⟨w, hload, hfailures, hcurrent, hfound, fun hit hhit =>
    hlocates "y" hit (List.mem_append_left _ hhit)⟩

end RSource.Workspace
