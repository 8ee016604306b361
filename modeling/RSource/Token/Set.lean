import RSource.Token.Kind

/-! Sets of token kinds: what may begin an expression, what ends an argument, which runs of tokens a
stream fuses. -/

namespace RSource

/-- A finite set of token kinds, given by its members in any order. -/
structure TokenSet where
  kinds : List TokenKind
  deriving Repr, Inhabited

namespace TokenSet

def empty : TokenSet := ⟨[]⟩

/-- The set of the kinds in a list. -/
def ofList (kinds : List TokenKind) : TokenSet := ⟨kinds⟩

def single (k : TokenKind) : TokenSet := ⟨[k]⟩

def contains (s : TokenSet) (k : TokenKind) : Bool := s.kinds.contains k

def insert (s : TokenSet) (k : TokenKind) : TokenSet := ⟨k :: s.kinds⟩

def union (s other : TokenSet) : TokenSet := ⟨s.kinds ++ other.kinds⟩

def isEmpty (s : TokenSet) : Bool := s.kinds.isEmpty

/-- The members in the order of the kinds, each once. -/
def toList (s : TokenSet) : List TokenKind := TokenKind.all.filter s.contains

@[simp] theorem contains_empty (k : TokenKind) : empty.contains k = false := rfl

@[simp] theorem contains_single {j k : TokenKind} : (single j).contains k ↔ k = j := by
  simp [single, contains]

@[simp] theorem contains_insert {s : TokenSet} {j k : TokenKind} :
    (s.insert j).contains k ↔ k = j ∨ s.contains k := by
  simp [insert, contains]

@[simp] theorem contains_union (s t : TokenSet) (k : TokenKind) :
    (s.union t).contains k = (s.contains k || t.contains k) := by
  simp [union, contains]

/-- The members as alternatives of a message: "a", "a or b", "a, b, or c", or "nothing". -/
def alternatives (s : TokenSet) : String :=
  match s.toList.map TokenKind.describe with
  | [] => "nothing"
  | [a] => a
  | [a, b] => s!"{a} or {b}"
  | names => ", ".intercalate names.dropLast ++ ", or " ++ names.getLastD ""

/-- The members' names between braces. -/
def braced (s : TokenSet) : String :=
  "\x7b" ++ ", ".intercalate (s.toList.map TokenKind.name) ++ "\x7d"

end TokenSet

end RSource
