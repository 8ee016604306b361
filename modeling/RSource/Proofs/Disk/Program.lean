import RSource.Proofs.Disk.FileSystem

/-! Programs as the calls that they make of a disk, one after the other.  Such a program can be
stopped between two calls and others be let to work in the meantime.  What it reads from some files
is relied on to be of some kind, as long as all programs write nothing else to them. -/

namespace RSource

/-- A call of a disk. -/
inductive DiskCall where
  | kind? (p : Path)
  | readFile (p : Path)
  | writeFile (p : Path) (bytes : Bytes)
  | rename (p q : Path)
  | removeFile (p : Path)
  | makeDirectory (p : Path)
  | list (p : Path)

namespace DiskCall

/-- What a call is answered with. -/
abbrev Answer : DiskCall → Type
  | .kind? _ => Option FileKind
  | .readFile _ => Except IoError Bytes
  | .writeFile .. | .rename .. | .removeFile _ | .makeDirectory _ => Except IoError Unit
  | .list _ => Except IoError (List String)

def run (fs : FileSystem) : (c : DiskCall) → c.Answer × FileSystem
  | .kind? p => fs.run (MonadDisk.kind? p)
  | .readFile p => fs.run (MonadDisk.readFile p)
  | .writeFile p bytes => fs.run (MonadDisk.writeFile p bytes)
  | .rename p q => fs.run (MonadDisk.rename p q)
  | .removeFile p => fs.run (MonadDisk.removeFile p)
  | .makeDirectory p => fs.run (MonadDisk.makeDirectory p)
  | .list p => fs.run (MonadDisk.list p)

end DiskCall

/-- What a program has still to do: nothing but to answer, or a call and what follows from its
answer. -/
inductive DiskProgram (α : Type) where
  | done (answer : α)
  | call (c : DiskCall) (next : c.Answer → DiskProgram α)

namespace DiskProgram

variable {α β : Type}

def bind (program : DiskProgram α) (next : α → DiskProgram β) : DiskProgram β :=
  match program with
  | .done a => next a
  | .call c rest => .call c fun answer => (rest answer).bind next

instance : Monad DiskProgram where
  pure := .done
  bind := bind

instance : MonadDisk DiskProgram where
  kind? p := .call (.kind? p) .done
  readFile p := .call (.readFile p) .done
  writeFile p bytes := .call (.writeFile p bytes) .done
  rename p q := .call (.rename p q) .done
  removeFile p := .call (.removeFile p) .done
  makeDirectory p := .call (.makeDirectory p) .done
  list p := .call (.list p) .done

/-- What a program answers that is not stopped, and what it leaves. -/
def run (fs : FileSystem) : DiskProgram α → α × FileSystem
  | .done a => (a, fs)
  | .call c next => (next (c.run fs).1).run (c.run fs).2

theorem run_bind (program : DiskProgram α) (next : α → DiskProgram β) (fs : FileSystem) :
    (program >>= next).run fs = (next (program.run fs).1).run (program.run fs).2 := by
  induction program generalizing fs with
  | done a => rfl
  | call c rest ih => exact ih _ _

/-! ### The same program, stopped or not -/

/-- The calls do what the program does in one go. -/
def Runs (program : DiskProgram α) (whole : StateM FileSystem α) : Prop :=
  ∀ fs, program.run fs = fs.run whole

theorem Runs.pure (a : α) : Runs (Pure.pure a) (Pure.pure a) := fun _ => rfl

theorem Runs.bind {program : DiskProgram α} {whole : StateM FileSystem α}
    {next : α → DiskProgram β} {whole' : α → StateM FileSystem β} (h : Runs program whole)
    (h' : ∀ a, Runs (next a) (whole' a)) : Runs (program >>= next) (whole >>= whole') := by
  intro fs
  rw [run_bind, FileSystem.run_bind, h, h']

theorem Runs.readFile (p : Path) : Runs (MonadDisk.readFile p) (MonadDisk.readFile p) :=
  fun _ => rfl

theorem Runs.writeFile (p : Path) (bytes : Bytes) :
    Runs (MonadDisk.writeFile p bytes) (MonadDisk.writeFile p bytes) := fun _ => rfl

theorem Runs.rename (p q : Path) : Runs (MonadDisk.rename p q) (MonadDisk.rename p q) :=
  fun _ => rfl

end DiskProgram

/-! ### Files of a kind -/

section

variable {α β : Type} (K : Bytes → Prop) (P : Path → Prop)

/-- What can be read from the files is of the kind. -/
def FileSystem.Holds (fs : FileSystem) : Prop :=
  ∀ p, P p → ∀ bytes, fs.read p = .ok bytes → K bytes

/-- The call writes nothing that is not of the kind. -/
def DiskCall.Keeps : DiskCall → Prop
  | .kind? _ | .readFile _ | .removeFile _ | .list _ => True
  | .writeFile _ bytes => K bytes
  | .rename p _ => P p
  | .makeDirectory _ => False

/-- What can be answered where the files are of the kind. -/
def DiskCall.Expects : (c : DiskCall) → c.Answer → Prop
  | .readFile p, answer => P p → ∀ bytes, answer = .ok bytes → K bytes
  | _, _ => True

/-- The program writes nothing that is not of the kind, and what it answers is as it should be, as
long as what it reads is of the kind. -/
def DiskProgram.Keeps (good : α → Prop) : DiskProgram α → Prop
  | .done a => good a
  | .call c next => c.Keeps K P ∧ ∀ answer, c.Expects K P answer → (next answer).Keeps good

variable {K P} {fs : FileSystem}

theorem FileSystem.Holds.update (hfs : fs.Holds K P)
    {change : FileSystem → Except IoError FileSystem}
    (h : ∀ fs' q bytes, change fs = .ok fs' → fs'.read q = .ok bytes →
      K bytes ∨ fs.read q = .ok bytes) : (fs.run (FileSystem.update change)).2.Holds K P := by
  rw [FileSystem.run, StateT.run, FileSystem.update]
  cases hchange : change fs with
  | error e => exact hfs
  | ok fs' => exact fun q hq bytes hread => (h fs' q bytes hchange hread).elim id (hfs q hq bytes)

theorem DiskCall.Keeps.run {c : DiskCall} (h : c.Keeps K P) (hfs : fs.Holds K P) :
    c.Expects K P (c.run fs).1 ∧ (c.run fs).2.Holds K P := by
  cases c with
  | kind? p => exact ⟨trivial, hfs⟩
  | readFile p => exact ⟨fun hp bytes hread => hfs p hp bytes hread, hfs⟩
  | list p => exact ⟨trivial, hfs⟩
  | makeDirectory p => exact h.elim
  | writeFile p bytes =>
    refine ⟨trivial, hfs.update fun fs' q content hwrite hread => ?_⟩
    rcases FileSystem.read_of_write hwrite hread with rfl | hbefore
    · exact .inl h
    · exact .inr hbefore
  | rename p q =>
    refine ⟨trivial, hfs.update fun fs' r content hmove hread => ?_⟩
    exact (FileSystem.read_of_move hmove hread).imp_left (hfs p h content)
  | removeFile p =>
    exact ⟨trivial, hfs.update fun fs' q content hremove hread =>
      .inr (FileSystem.read_of_remove hremove hread)⟩

namespace DiskProgram

theorem Keeps.bind {good : α → Prop} {good' : β → Prop} {program : DiskProgram α}
    {next : α → DiskProgram β} (h : program.Keeps K P good)
    (h' : ∀ a, good a → (next a).Keeps K P good') : (program >>= next).Keeps K P good' := by
  induction program with
  | done a => exact h' a h
  | call c rest ih => exact ⟨h.1, fun answer hanswer => ih answer (h.2 answer hanswer)⟩

theorem Keeps.run {good : α → Prop} {program : DiskProgram α} (h : program.Keeps K P good)
    (hfs : fs.Holds K P) : good (program.run fs).1 ∧ (program.run fs).2.Holds K P := by
  induction program generalizing fs with
  | done a => exact ⟨h, hfs⟩
  | call c rest ih =>
    obtain ⟨hanswer, hfs'⟩ := h.1.run hfs
    exact ih _ (h.2 _ hanswer) hfs'

end DiskProgram

end

end RSource
