import RSource.Span

/-! Stubs: what a source declares, without the rest of it.  There is a stub for every named
assignment outside functions, and one for every parameter of a function that is assigned.  A
parameter's parent is the stub of the assignment; the parent of an assignment is the assignment
around it. -/

namespace RSource

/-- What a stub declares. -/
inductive Declaration where
  | assignment (name : String) (isFunction isTopLevel isRight : Bool)
  | parameter (name : String)
  deriving DecidableEq, Repr, Inhabited

namespace Declaration

def name : Declaration → String
  | .assignment name _ _ _ => name
  | .parameter name => name

def isAssignment : Declaration → Bool
  | .assignment _ _ _ _ => true
  | .parameter _ => false

/-- A function is assigned. -/
def isFunction : Declaration → Bool
  | .assignment _ isFunction _ _ => isFunction
  | .parameter _ => false

/-- The assignment is a statement of the source itself. -/
def isTopLevel : Declaration → Bool
  | .assignment _ _ isTopLevel _ => isTopLevel
  | .parameter _ => false

end Declaration

/-- The place of a stub among the stubs of its source. -/
abbrev StubId := Nat

/-- A declaration, the stub it belongs to, and the span of its name. -/
structure Stub where
  declaration : Declaration
  parent : Option StubId
  span : Span
  deriving DecidableEq, Repr, Inhabited

def Stub.name (s : Stub) : String := s.declaration.name

/-- The stubs of one source, in the order of the source. -/
structure StubTree where
  stubs : Array Stub
  deriving DecidableEq, Repr, Inhabited

namespace StubTree

def empty : StubTree := ⟨#[]⟩

def size (t : StubTree) : Nat := t.stubs.size

def isEmpty (t : StubTree) : Bool := t.stubs.isEmpty

/-- The stubs with their places. -/
def entries (t : StubTree) : List (StubId × Stub) :=
  t.stubs.toList.zipIdx.map fun (stub, id) => (id, stub)

/-- The stubs that satisfy `p`, with their places. -/
def select (t : StubTree) (p : Stub → Bool) : List (StubId × Stub) :=
  t.entries.filter fun (_, stub) => p stub

def assignments (t : StubTree) : List (StubId × Stub) := t.select (·.declaration.isAssignment)

def parameters (t : StubTree) : List (StubId × Stub) := t.select (!·.declaration.isAssignment)

/-- The stubs directly below a stub. -/
def children (t : StubTree) (id : StubId) : List (StubId × Stub) := t.select (·.parent == some id)

/-- The names of the parameters directly below a stub. -/
def parameterNames (t : StubTree) (id : StubId) : List String :=
  (t.select fun stub => stub.parent == some id && !stub.declaration.isAssignment).map (·.2.name)

/-- Some stub has this name. -/
def mentions (t : StubTree) (name : String) : Bool := t.stubs.any (·.name == name)

end StubTree

end RSource
