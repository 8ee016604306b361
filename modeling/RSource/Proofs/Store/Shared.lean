import RSource.Proofs.Disk.Program
import RSource.Proofs.Store.Entry
import RSource.Proofs.Stub.Size
import RSource.Store.Basic

/-! Stores that several programs work with at the same time.  A program takes stubs from an entry
only when it is for the text at hand, and writes only entries of the text that it has.  So as long
as all of them do so, the stubs that a store gives for a text are those of the text. -/

namespace RSource

open StoreEntry

/-- The number of errors that are kept has no part in the stubs. -/
theorem StubTree.ofSource_of_limit {text : String} {limit : Nat} {u : StubTree}
    (h : ofSource text limit = .ok u) (limit' : Nat) : ofSource text limit' = .ok u := by
  obtain ⟨u', hu'⟩ := ofSource_ok (byteLength_le_of_ofSource h) limit'
  obtain ⟨p, hp, rfl⟩ := ofSource_eq_ok_iff.mp h
  obtain ⟨p', hp', rfl⟩ := ofSource_eq_ok_iff.mp hu'
  obtain ⟨os, more, hfound⟩ := Grammar.found (lex text)
  have hbuild := (parseTokens_eq_ok hfound hp).1
  have hbuild' := (parseTokens_eq_ok hfound hp').1
  rw [hbuild] at hbuild'
  rw [hu', Except.ok.inj hbuild']

namespace Store

/-- The texts that sources have: those of one source are told apart by their hashes, and the path of
a source is not so long that its length cannot be written. -/
structure Texts (texts : Path → String → Prop) : Prop where
  short : ∀ source text, texts source text → Text.byteLength source.text < Bytes.capacity 8
  apart : ∀ source text text', texts source text → texts source text' →
    ContentHash.ofText text = ContentHash.ofText text' → text = text'

/-- What can be taken from the bytes was built from a text of the source that they are for. -/
def Genuine (texts : Path → String → Prop) (bytes : Bytes) : Prop :=
  ∀ name hash stubs, Valid bytes name hash stubs → ∃ text limit,
    texts ⟨name⟩ text ∧ hash = .ofText text ∧ StubTree.ofSource text limit = .ok stubs

/-- The files that a store reads and writes. -/
def IsFile (s : Store) (p : Path) : Prop :=
  ∃ source, p = s.entryPath source ∨ p = s.temporaryPath source

variable {texts : Path → String → Prop} {s : Store} {source : Path} {text : String}
variable {stubs : StubTree}

theorem genuine_ofStubs (htexts : Texts texts) (htext : texts source text) {limit : Nat}
    (hsource : StubTree.ofSource text limit = .ok stubs) :
    Genuine texts (StoreEntry.ofStubs source.text (.ofText text) stubs).write := by
  intro name hash u hvalid
  obtain ⟨hwell, hstorable⟩ :=
    StubTree.storable_ofSource (StubTree.byteLength_le_of_ofSource hsource) hsource
  obtain ⟨rfl, rfl, rfl⟩ := eq_of_valid_ofStubs (htexts.short _ _ htext)
    (StubTree.length_encode_lt hsource) (StubTree.decode_encode hwell hstorable) hvalid
  exact ⟨text, limit, htext, rfl, hsource⟩

/-! ### What a program relies on and keeps -/

theorem keeps_load (htexts : Texts texts) (htext : texts source text) (limit : Nat) :
    (s.load source (.ofText text) : DiskProgram _).Keeps (Genuine texts) s.IsFile fun answer =>
      ∀ stubs, answer = .ok (some stubs) → StubTree.ofSource text limit = .ok stubs := by
  refine ⟨trivial, fun answer hanswer => ?_⟩
  cases answer with
  | error cause => cases cause <;> exact fun stubs h => nomatch h
  | ok bytes =>
    have hgenuine := hanswer ⟨source, .inl rfl⟩ bytes rfl
    simp only [DiskProgram.bind]
    cases hfor : stubsFor bytes source.text (.ofText text) with
    | error cause => exact fun stubs h => nomatch h
    | ok found =>
      rintro stubs ⟨⟩
      obtain ⟨text', limit', htext', hhash, hsource⟩ :=
        hgenuine _ _ stubs (stubsFor_eq_some_iff.mp hfor)
      obtain rfl := htexts.apart _ _ _ htext htext' hhash
      exact StubTree.ofSource_of_limit hsource limit

theorem keeps_save (htexts : Texts texts) (htext : texts source text) {limit : Nat}
    (hsource : StubTree.ofSource text limit = .ok stubs) :
    (s.save source (.ofText text) stubs : DiskProgram _).Keeps (Genuine texts) s.IsFile
      fun _ => True := by
  refine ⟨genuine_ofStubs htexts htext hsource, fun answer _ => ?_⟩
  cases answer with
  | error cause => trivial
  | ok u =>
    refine ⟨⟨source, .inr rfl⟩, fun answer' _ => ?_⟩
    cases answer' <;> trivial

theorem keeps_build (htexts : Texts texts) (htext : texts source text) (loaded : Loaded) :
    (s.build source text loaded : DiskProgram _).Keeps (Genuine texts) s.IsFile fun answer =>
      ∀ stubs loaded', answer = .ok (stubs, loaded') →
        StubTree.ofSource text s.limit = .ok stubs := by
  rw [build]
  cases hsource : StubTree.ofSource text s.limit with
  | error cause => exact fun stubs loaded' h => nomatch h
  | ok u =>
    refine (keeps_save htexts htext hsource).bind fun answer _ => ?_
    cases answer with
    | error e => exact fun stubs loaded' h => nomatch h
    | ok _ =>
      rintro stubs loaded' ⟨⟩
      rfl

/-- What a store answers for a text are the stubs of the text. -/
theorem keeps_loadOrBuild (htexts : Texts texts) (htext : texts source text) :
    (s.loadOrBuild source text : DiskProgram _).Keeps (Genuine texts) s.IsFile fun answer =>
      ∀ stubs loaded, answer = .ok (stubs, loaded) →
        StubTree.ofSource text s.limit = .ok stubs := by
  refine (keeps_load htexts htext s.limit).bind fun answer hanswer => ?_
  rcases answer with e | found
  · cases e with
    | corrupt cause => exact keeps_build htexts htext .repaired
    | io path cause => exact fun stubs loaded h => nomatch h
    | tree cause => exact fun stubs loaded h => nomatch h
  · cases found with
    | none => exact keeps_build htexts htext .miss
    | some u =>
      rintro stubs loaded ⟨⟩
      exact hanswer u rfl

/-! ### The same in one go -/

theorem runs_load (source : Path) (hash : ContentHash) :
    DiskProgram.Runs (s.load source hash) (s.load source hash) := by
  refine (DiskProgram.Runs.readFile _).bind fun answer => ?_
  rcases answer with cause | bytes
  · cases cause <;> exact .pure _
  · dsimp only
    cases stubsFor bytes source.text hash <;> exact .pure _

theorem runs_save (source : Path) (hash : ContentHash) (stubs : StubTree) :
    DiskProgram.Runs (s.save source hash stubs) (s.save source hash stubs) := by
  refine (DiskProgram.Runs.writeFile _ _).bind fun answer => ?_
  cases answer with
  | error cause => exact .pure _
  | ok _ =>
    refine (DiskProgram.Runs.rename _ _).bind fun answer' => ?_
    cases answer' <;> exact .pure _

theorem runs_build (source : Path) (text : String) (loaded : Loaded) :
    DiskProgram.Runs (s.build source text loaded) (s.build source text loaded) := by
  rw [build, build]
  cases StubTree.ofSource text s.limit with
  | error cause => exact .pure _
  | ok stubs =>
    refine (runs_save _ _ _).bind fun answer => ?_
    cases answer <;> exact .pure _

theorem runs_loadOrBuild (source : Path) (text : String) :
    DiskProgram.Runs (s.loadOrBuild source text) (s.loadOrBuild source text) := by
  refine (runs_load _ _).bind fun answer => ?_
  rcases answer with e | found
  · cases e with
    | corrupt cause => exact runs_build _ _ _
    | io path cause => exact .pure _
    | tree cause => exact .pure _
  · cases found with
    | none => exact runs_build _ _ _
    | some stubs => exact .pure _

end Store

end RSource
