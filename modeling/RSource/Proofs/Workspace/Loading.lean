import Mathlib.Logic.Relation
import RSource.Proofs.Store.Shared
import RSource.Proofs.Stub.Sound
import RSource.Workspace.Basic

/-! Loading with a worker for every file.  The workers take turns in any order, with one call of the
disk at a time, and their results go into the index as they come.  Every worker relies on the store
and leaves it so that others can. -/

namespace RSource

namespace Workspace

open StoreEntry Store

/-! ### The stubs of one file -/

/-- The files of the store, if there is one. -/
def InStore (store : Option Store) (p : Path) : Prop := ∃ s, store = some s ∧ s.IsFile p

/-- The stubs are those of the text, for every number of errors that can be kept. -/
def Right (file : SourceFile) (result : Result) : Prop :=
  ∀ stubs loaded, result = .ok (stubs, loaded) →
    ∀ limit, StubTree.ofSource file.text limit = .ok stubs

variable {texts : Path → String → Prop} {store : Option Store} {limit : Nat} {file : SourceFile}

theorem inStore_some (s : Store) : InStore (some s) = s.IsFile := by
  funext p
  simp [InStore]

theorem keeps_stubsOf (htexts : Texts texts) (htext : texts file.path file.text) :
    (stubsOf store limit file : DiskProgram _).Keeps (Genuine texts) (InStore store)
      (Right file) := by
  cases store with
  | none =>
    rw [stubsOf]
    cases hsource : StubTree.ofSource file.text limit with
    | error cause => exact fun stubs loaded h => nomatch h
    | ok u =>
      rintro stubs loaded ⟨⟩
      exact StubTree.ofSource_of_limit hsource
  | some s =>
    rw [inStore_some]
    refine (keeps_loadOrBuild htexts htext).bind fun answer hanswer => ?_
    rcases answer with e | ⟨u, found⟩
    · exact fun stubs loaded h => nomatch h
    · rintro stubs loaded ⟨⟩
      exact StubTree.ofSource_of_limit (hanswer u found rfl)

theorem runs_stubsOf (store : Option Store) (limit : Nat) (file : SourceFile) :
    DiskProgram.Runs (stubsOf store limit file) (stubsOf store limit file) := by
  cases store with
  | none =>
    rw [stubsOf, stubsOf]
    cases StubTree.ofSource file.text limit <;> exact .pure _
  | some s =>
    refine (runs_loadOrBuild _ _).bind fun answer => ?_
    cases answer <;> exact .pure _

theorem right_stubsOf {fs : FileSystem} (htexts : Texts texts) (htext : texts file.path file.text)
    (hfs : fs.Holds (Genuine texts) (InStore store)) :
    Right file (fs.run (stubsOf store limit file)).1 ∧
      (fs.run (stubsOf store limit file)).2.Holds (Genuine texts) (InStore store) := by
  rw [← runs_stubsOf]
  exact (keeps_stubsOf htexts htext).run hfs

/-! ### Workers -/

/-- How far the work on a file is. -/
inductive Progress where
  | working (program : DiskProgram Result)
  | settled (result : Result)

/-- Files that are loaded at the same time, with the disk and the index that they share. -/
structure Loading where
  disk : FileSystem
  index : StubIndex
  works : List (SourceFile × Progress)

namespace Loading

/-- All files wait, and the work on each begins. -/
def start (disk : FileSystem) (store : Option Store) (limit : Nat) (files : List SourceFile) :
    Loading :=
  ⟨disk, registered files, files.map fun file => (file, .working (stubsOf store limit file))⟩

/-- A worker makes its next call of the disk, or one that is done puts its result into the index. -/
inductive Step : Loading → Loading → Prop
  | call {disk : FileSystem} {index : StubIndex} {before after : List (SourceFile × Progress)}
      {file : SourceFile} {c : DiskCall} {next : c.Answer → DiskProgram Result} :
      Step ⟨disk, index, before ++ (file, .working (.call c next)) :: after⟩
        ⟨(c.run disk).2, index, before ++ (file, .working (next (c.run disk).1)) :: after⟩
  | settle {disk : FileSystem} {index : StubIndex} {before after : List (SourceFile × Progress)}
      {file : SourceFile} {result : Result} :
      Step ⟨disk, index, before ++ (file, .working (.done result)) :: after⟩
        ⟨disk, Workspace.settle index file.id result, before ++ (file, .settled result) :: after⟩

/-- The work on all files is done. -/
def finish (disk : FileSystem) (index : StubIndex) (ends : List (SourceFile × Result)) : Loading :=
  ⟨disk, index, ends.map fun (file, result) => (file, .settled result)⟩

end Loading

open Relation (ReflTransGen)

/-- The workspace can come of loading the sources at a path, and the disk then be as it is, with the
calls of the workers in some order. -/
inductive Loads (root : Path) (config : IndexConfig) (fs : FileSystem) :
    Workspace → FileSystem → Prop
  | intro {store : Option Store} {reads : List (Path × Except IoError String)} {index : StubIndex}
      {disk disk' : FileSystem} {ends : List (SourceFile × Result)}
      (prepared : fs.run (prepare root config) = (.ok (store, reads), disk))
      (worked : ReflTransGen Loading.Step
        (.start disk store config.limit (readable reads)) (.finish disk' index ends)) :
      Loads root config fs (loaded root config store reads (ends.map Prod.snd) index) disk'

/-! ### What the workers keep -/

namespace Loading

variable {files : List SourceFile} {l l' : Loading} {fs : FileSystem} {id : FileId}

/-- What the workers rely on of each other, and what they have done. -/
structure Sound (texts : Path → String → Prop) (store : Option Store) (files : List SourceFile)
    (l : Loading) : Prop where
  works : l.works.map Prod.fst = files
  disk : l.disk.Holds (Genuine texts) (InStore store)
  working : ∀ file program, (file, .working program) ∈ l.works →
    program.Keeps (Genuine texts) (InStore store) (Right file)
  settled : ∀ file stubs loaded, (file, .settled (.ok (stubs, loaded))) ∈ l.works →
    (∀ limit, StubTree.ofSource file.text limit = .ok stubs) ∧
      l.index.stubs? file.id = some stubs
  registered : ∀ id, (l.index.stubs? id).isSome → ∃ file ∈ files, file.id = id

theorem exists_of_stubs?_registered (h : ((registered files).stubs? id).isSome) :
    ∃ file ∈ files, file.id = id := by
  induction files using List.reverseRecOn with
  | nil => cases h
  | append_singleton files file ih =>
    rw [registered, List.foldl_concat, StubIndex.stubs?, StubIndex.file?_register] at h
    split at h
    · next hid => exact ⟨file, by simp, hid⟩
    · obtain ⟨file, hfile, hid⟩ := ih h
      exact ⟨file, by simp [hfile], hid⟩

theorem sound_start (htexts : Texts texts) (hheld : ∀ file ∈ files, texts file.path file.text)
    (hfs : fs.Holds (Genuine texts) (InStore store)) :
    (start fs store limit files).Sound texts store files where
  works := by simp [start, Function.comp_def]
  disk := hfs
  working := by
    intro file program hwork
    obtain ⟨file, hfile, ⟨⟩⟩ := List.mem_map.mp hwork
    exact keeps_stubsOf htexts (hheld file hfile)
  settled := by
    intro file stubs loaded hwork
    obtain ⟨file, hfile, hsettled⟩ := List.mem_map.mp hwork
    cases hsettled
  registered := fun id => exists_of_stubs?_registered

theorem stubs?_settle (index : StubIndex) (id j : FileId) (result : Result) :
    (settle index id result).stubs? j =
      if id = j then (result.toOption.map Prod.fst).or (index.stubs? j) else index.stubs? j := by
  rcases result with e | ⟨stubs, loaded⟩
  · simp [settle, Except.toOption]
  · rw [settle, StubIndex.stubs?_commit]
    simp [Except.toOption]

theorem mem_works {works before after : List (SourceFile × Progress)}
    {work work' : SourceFile × Progress} (h : works = before ++ work :: after) :
    work' ∈ works ↔ work' = work ∨ work' ∈ before ++ after := by
  rw [h, List.perm_middle.mem_iff, List.mem_cons]

theorem Sound.step (h : l.Sound texts store files) (hids : (files.map SourceFile.id).Nodup)
    (hstep : Step l l') : l'.Sound texts store files := by
  cases hstep with
  | @call disk index before after file c next =>
    have hkeeps := h.working file (.call c next) ((mem_works rfl).mpr (.inl rfl))
    obtain ⟨hanswer, hdisk⟩ := hkeeps.1.run h.disk
    refine ⟨by simpa using h.works, hdisk, fun file' program hwork => ?_,
      fun file' stubs loaded hwork => ?_, h.registered⟩
    · rcases (mem_works rfl).mp hwork with heq | hother
      · cases heq
        exact hkeeps.2 _ hanswer
      · exact h.working file' program ((mem_works rfl).mpr (.inr hother))
    · rcases (mem_works rfl).mp hwork with heq | hother
      · cases heq
      · exact h.settled file' stubs loaded ((mem_works rfl).mpr (.inr hother))
  | @settle disk index before after file result =>
    have hright : Right file result :=
      h.working file (.done result) ((mem_works rfl).mpr (.inl rfl))
    -- The result goes to its own place in the index.
    have hothers : ∀ work ∈ before ++ after, file.id ≠ work.1.id := by
      rw [← h.works, List.map_map, List.map_append, List.map_cons, List.nodup_middle,
        ← List.map_append, List.nodup_cons] at hids
      exact fun work hwork hid => hids.1 (List.mem_map.mpr ⟨work, hwork, hid.symm⟩)
    refine ⟨by simpa using h.works, h.disk, fun file' program hwork => ?_,
      fun file' stubs loaded hwork => ?_, fun id hid => ?_⟩
    · rcases (mem_works rfl).mp hwork with heq | hother
      · cases heq
      · exact h.working file' program ((mem_works rfl).mpr (.inr hother))
    · rw [stubs?_settle]
      rcases (mem_works rfl).mp hwork with heq | hother
      · cases heq
        exact ⟨hright stubs loaded rfl, by rw [if_pos rfl]; rfl⟩
      · rw [if_neg (hothers _ hother)]
        exact h.settled file' stubs loaded ((mem_works rfl).mpr (.inr hother))
    · rw [stubs?_settle] at hid
      split at hid
      · next heq => exact ⟨file, by rw [← h.works]; simp, heq⟩
      · exact h.registered id hid

theorem Sound.steps (h : l.Sound texts store files) (hids : (files.map SourceFile.id).Nodup)
    (hsteps : ReflTransGen Step l l') : l'.Sound texts store files := by
  induction hsteps with
  | refl => exact h
  | tail _ hstep ih => exact ih.step hids hstep

end Loading

/-! ### One worker after the other -/

namespace Loading

theorem steps_program (file : SourceFile) (program : DiskProgram Result) (disk : FileSystem)
    (index : StubIndex) (before after : List (SourceFile × Progress)) :
    ReflTransGen Step ⟨disk, index, before ++ (file, .working program) :: after⟩
      ⟨(program.run disk).2, index,
        before ++ (file, .working (.done (program.run disk).1)) :: after⟩ := by
  induction program generalizing disk with
  | done result => exact .refl
  | call c next ih => exact .head .call (ih _ _)

theorem steps_files (rest : List SourceFile) (disk : FileSystem) (index : StubIndex)
    (done : List (SourceFile × Result)) :
    ∃ ends : List (SourceFile × Result),
      ends.map Prod.snd = (disk.run (rest.mapM (stubsOf store limit))).1 ∧
        ReflTransGen Step
          ⟨disk, index, (done.map fun (file, result) => (file, .settled result)) ++
            rest.map fun file => (file, .working (stubsOf store limit file))⟩
          (.finish (disk.run (rest.mapM (stubsOf store limit))).2
            (settleAll index rest (disk.run (rest.mapM (stubsOf store limit))).1)
            (done ++ ends)) := by
  induction rest generalizing disk index done with
  | nil =>
    refine ⟨[], rfl, ?_⟩
    rw [List.map_nil, List.append_nil, List.append_nil]
    exact .refl
  | cons file rest ih =>
    -- The worker of the first file goes all its way, and then the others follow.
    cases hrun : disk.run (stubsOf store limit file) with
    | mk result disk' =>
      obtain ⟨ends, hends, hsteps⟩ :=
        ih disk' (settle index file.id result) (done ++ [(file, result)])
      have hfirst := steps_program file (stubsOf store limit file) disk index
        (done.map fun (file, result) => (file, .settled result))
        (rest.map fun file => (file, .working (stubsOf store limit file)))
      rw [runs_stubsOf, hrun] at hfirst
      simp only [List.mapM_cons, FileSystem.run_bind, FileSystem.run_pure, hrun]
      refine ⟨(file, result) :: ends, by rw [List.map_cons, hends], ?_⟩
      refine hfirst.trans (.head .settle ?_)
      have hsettled := hsteps
      simp only [List.map_append, List.append_assoc] at hsettled
      exact hsettled

end Loading

/-- What loads without other workers is loaded by workers that wait for each other. -/
theorem loads_of_load {root : Path} {config : IndexConfig} {fs : FileSystem} {w : Workspace}
    (h : (fs.run (load root config)).1 = .ok w) :
    Loads root config fs w (fs.run (load root config)).2 := by
  rw [load, FileSystem.run_bind] at h ⊢
  cases hprepare : fs.run (prepare root config) with
  | mk answer disk =>
    rw [hprepare] at h
    cases answer with
    | error e => cases h
    | ok found =>
      obtain ⟨store, reads⟩ := found
      obtain ⟨ends, hends, hsteps⟩ := @Loading.steps_files store config.limit (readable reads)
        disk (registered (readable reads)) []
      simp only [FileSystem.run_bind] at h ⊢
      obtain rfl := Except.ok.inj h
      rw [← hends] at hsteps ⊢
      exact .intro hprepare hsteps

end Workspace

end RSource
