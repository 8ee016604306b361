import RSource.Event
import RSource.Token.Basic
import RSource.Tree.Basic

/-! Building a tree from events.  Layout is attached here: before a new node it goes to the node
around it, so that nodes begin with their first significant token; between two tokens of a node it
goes to that node; and at the end of the input it goes to the root.  Leaves are numbered when they
are attached and other nodes when they are finished, which is the order of a postorder walk. -/

namespace RSource

/-- What a node is and what it covers. -/
structure Extent where
  kind : NodeKind
  span : Span
  deriving DecidableEq, Repr, Inhabited

/-- An open node: its kind and the children finished so far, last first. -/
structure Frame where
  kind : NodeKind
  children : List (Rose Extent)

/-- A tree under construction: the number of tokens attached and those still to come, the open
nodes, innermost first, and the finished trees with no node around them, last first. -/
structure Builder where
  place : Nat
  tokens : List Token
  frames : List Frame
  finished : List (Rose Extent)

namespace Builder

/-- A finished tree becomes a child of the innermost open node, if there is one. -/
def add (b : Builder) (tree : Rose Extent) : Builder :=
  match b.frames with
  | [] => { b with finished := tree :: b.finished }
  | frame :: rest => { b with frames := { frame with children := tree :: frame.children } :: rest }

/-- The leaf that holds a token. -/
def leaf (token : Token) : Rose Extent := .node ⟨.token token.kind, token.span⟩ []

/-- Attaches tokens as leaves; they are the first of those to come, and `rest` are the others. -/
def attach (b : Builder) (tokens rest : List Token) : Builder :=
  { tokens.foldl (fun b token => b.add (leaf token)) b with
    place := b.place + tokens.length
    tokens := rest }

/-- Attaches tokens for as long as `p` holds. -/
def attachWhile (b : Builder) (p : TokenKind → Bool) : Builder :=
  b.attach (b.tokens.takeWhile (p ·.kind)) (b.tokens.dropWhile (p ·.kind))

/-- Opens a node.  Layout before it belongs to the node around it. -/
def start (b : Builder) (kind : NodeKind) : Builder :=
  let b := if b.frames.isEmpty then b else b.attachWhile TokenKind.isLayout
  { b with frames := ⟨kind, []⟩ :: b.frames }

/-- Attaches the tokens up to the one with an index. -/
def token (b : Builder) (index : Nat) : Except TreeError Builder :=
  let n := index + 1 - b.place
  let tokens := b.tokens.take n
  if b.place ≤ index ∧ tokens.length = n then .ok (b.attach tokens (b.tokens.drop n))
  else .error (.tokenOutOfOrder index b.place)

/-- Where an empty node opened now would sit in a text of a given length. -/
def offset (b : Builder) (textLength : Nat) : Nat :=
  match b.tokens with
  | t :: _ => t.span.start
  | [] => textLength

/-- The span from the first to the last of some trees, or the point `empty` if there are none. -/
def cover (empty : Nat) (children : List (Rose Extent)) : Span :=
  match children.head?, children.getLast? with
  | some first, some last => ⟨first.label.span.start, last.label.span.stop⟩
  | _, _ => .point empty

/-- Closes the innermost open node.  The outermost one first takes all tokens up to the end of the
file. -/
def finish (b : Builder) (textLength : Nat) : Except TreeError Builder :=
  let b := if b.frames.tail.isEmpty then b.attachWhile (· ≠ .endOfFile) else b
  match b.frames with
  | [] => .error .unbalancedFinish
  | frame :: rest =>
    let children := frame.children.reverse
    let span := cover (b.offset textLength) children
    .ok (add { b with frames := rest } (.node ⟨frame.kind, span⟩ children))

/-- Follows events; `place` is the index of the first and `taken` the indices of the starts that an
earlier start has opened already. -/
def run (textLength : Nat) (place : Nat) (taken : List Nat) (b : Builder) :
    List Event → Except TreeError Builder
  | [] => .ok b
  | e :: es =>
    match e with
    | .tombstone => run textLength (place + 1) taken b es
    | .finish => do run textLength (place + 1) taken (← b.finish textLength) es
    | .token index => do run textLength (place + 1) taken (← b.token index) es
    | .start kind outer =>
      if place ∈ taken then run textLength (place + 1) taken b es
      else
        match Event.opened? taken place kind outer es with
        | none => .error (.badForwardParent place)
        | some (kinds, places) =>
          run textLength (place + 1) (places ++ taken) (kinds.reverse.foldl start b) es

/-- The one tree that is finished when all events are followed. -/
def result (b : Builder) : Except TreeError (Rose Extent) :=
  match b.frames, b.finished with
  | [], [tree] => .ok tree
  | [], trees => .error (.rootCount trees.length)
  | frames, _ => .error (.unclosedNodes frames.length)

end Builder

namespace SyntaxTree

mutual
/-- Gives every node its place, after those below it; the first place is given.  The answer has the
next place that is free. -/
def number (first : NodeId) : Rose Extent → Rose (NodeId × Extent) × NodeId
  | .node extent children =>
    let (children, id) := numberAll first children
    (.node (id, extent) children, id + 1)

/-- Gives the nodes of trees that stand side by side their places. -/
def numberAll (first : NodeId) : List (Rose Extent) → List (Rose (NodeId × Extent)) × NodeId
  | [] => ([], first)
  | t :: ts =>
    let (t, next) := number first t
    let (ts, next) := numberAll next ts
    (t :: ts, next)
end

mutual
/-- The nodes of a tree in the order of their places, with others after them. -/
def nodesThen (rest : List Node) (parent : Option NodeId) : Rose (NodeId × Extent) → List Node
  | .node (id, extent) children =>
    let node := ⟨extent.kind, extent.span, parent, children.map (·.label.1)⟩
    forestNodesThen (node :: rest) id children

/-- The nodes of the trees below `parent` in the order of their places, with others after them. -/
def forestNodesThen (rest : List Node) (parent : NodeId) :
    List (Rose (NodeId × Extent)) → List Node
  | [] => rest
  | t :: ts => nodesThen (forestNodesThen rest parent ts) (some parent) t
end

/-- The tree over a text with given extents. -/
def ofRose (text : String) (tree : Rose Extent) : SyntaxTree :=
  let (tree, _) := number 0 tree
  ⟨text, (nodesThen [] none tree).toArray, tree.label.1⟩

/-- The tree that events describe over the tokens of a text. -/
def build (text : String) (tokens : List Token) (events : List Event) :
    Except TreeError SyntaxTree := do
  let done ← Builder.run (Text.byteLength text) 0 [] ⟨0, tokens, [], []⟩ events
  return ofRose text (← done.result)

end SyntaxTree

end RSource
