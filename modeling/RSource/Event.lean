import RSource.Node.Kind

/-! Events: a tree written as a flat list.  A node is the events from its start to its finish, and a
token event takes up the tokens to the one it names.  Layout has no events of its own. -/

namespace RSource

/-- One step of building a tree. -/
inductive Event where
  /-- Opens a node.  `outer` is the distance to a later start whose node is opened first, around
  this one. -/
  | start (kind : NodeKind) (outer : Option Nat)
  /-- Takes up the tokens to the one with this index. -/
  | token (index : Nat)
  /-- Closes the innermost open node. -/
  | finish
  /-- Does nothing. -/
  | tombstone
  deriving DecidableEq, Repr, Inhabited

namespace Event

/-- Follows a chain of distances.  `skip` events lie before the one meant, `place` is the index of
the first event of the list, and `taken` holds the indices of starts that are used up.  The answer
is the kinds of the chain and their indices, or none where the chain leads to no start. -/
def chain? (taken : List Nat) (place skip : Nat) : List Event → Option (List NodeKind × List Nat)
  | [] => none
  | e :: es =>
    match skip with
    | skip + 1 => chain? taken (place + 1) skip es
    | 0 =>
      if place ∈ taken then none
      else
        match e with
        | .start kind none => some ([kind], [place])
        | .start kind (some (d + 1)) =>
          (chain? taken (place + 1) d es).map fun (kinds, places) =>
            (kind :: kinds, place :: places)
        | _ => none

/-- The kinds that a start at `place` opens, innermost first, and the indices of the further starts
it uses up. -/
def opened? (taken : List Nat) (place : Nat) (kind : NodeKind) (outer : Option Nat)
    (rest : List Event) : Option (List NodeKind × List Nat) :=
  match outer with
  | none => some ([kind], [])
  | some 0 => none
  | some (d + 1) =>
    (chain? taken (place + 1) d rest).map fun (kinds, places) => (kind :: kinds, places)

end Event

end RSource
