import Std.Data.TreeMap
import RSource.Stub.Basic

/-! Where names stand: for every name the files that have a stub of that name.  With such a table
the stubs of a name are found without a search through all files. -/

namespace RSource

/-- The number of a file. -/
abbrev FileId := Nat

/-- For every name the numbers of the files with it, in increasing order. -/
structure NameTable where
  files : Std.TreeMap String (List FileId)
  deriving Repr, Inhabited

namespace NameTable

def empty : NameTable := ⟨∅⟩

/-- The files with a name. -/
def filesOf (t : NameTable) (name : String) : List FileId := t.files.getD name []

/-- Puts a number among increasing numbers, once. -/
def insertId (id : FileId) : List FileId → List FileId
  | [] => [id]
  | i :: is => if id < i then id :: i :: is else if id = i then i :: is else i :: insertId id is

/-- The table when a file has a name. -/
def link (t : NameTable) (id : FileId) (name : String) : NameTable :=
  ⟨t.files.insert name (insertId id (t.filesOf name))⟩

/-- The table when a file has a name no longer.  A name without files is not kept. -/
def unlink (t : NameTable) (id : FileId) (name : String) : NameTable :=
  match (t.filesOf name).filter (· != id) with
  | [] => ⟨t.files.erase name⟩
  | ids => ⟨t.files.insert name ids⟩

/-- The table after a file is given stubs in the place of old ones. -/
def replace (t : NameTable) (id : FileId) (old new : StubTree) : NameTable :=
  let linked := new.stubs.foldl (fun t stub => t.link id stub.name) t
  old.stubs.foldl (fun t stub => if new.mentions stub.name then t else t.unlink id stub.name) linked

/-! ### What the operations do to `filesOf` -/

@[simp] theorem filesOf_empty (name : String) : empty.filesOf name = [] := by
  simp [empty, filesOf]

theorem mem_insertId {id i : FileId} {is : List FileId} : i ∈ insertId id is ↔ i = id ∨ i ∈ is := by
  induction is with
  | nil => simp [insertId]
  | cons j js ih =>
    simp only [insertId]
    split
    · simp
    · split
      · subst id; simp
      · simp [ih, or_left_comm]

theorem filesOf_link (t : NameTable) (id : FileId) (n name : String) :
    (t.link id n).filesOf name =
      if n = name then insertId id (t.filesOf name) else t.filesOf name := by
  by_cases h : n = name <;> simp [link, filesOf, Std.TreeMap.getD_insert, h]

theorem filesOf_unlink (t : NameTable) (id : FileId) (n name : String) :
    (t.unlink id n).filesOf name =
      if n = name then (t.filesOf name).filter (· != id) else t.filesOf name := by
  unfold unlink
  by_cases h : n = name
  · subst h
    rw [if_pos rfl]
    split
    · next e => rw [e]; simp [filesOf]
    · next e => simp [filesOf]
  · rw [if_neg h]
    split <;> simp [filesOf, Std.TreeMap.getD_erase, Std.TreeMap.getD_insert, h]

end NameTable

end RSource
