import SynthRack.Rack.Basic

/-!
# Node IDs

Compilation gives every node an ID below the number of nodes, no two the same. A node keeps its ID
if it is in range and no earlier node holds it; the others receive the unused IDs in ascending
order. Positions are the inverse table.
-/

namespace SynthRack

/-- The IDs that nodes keep: those below `count` that no earlier node keeps. -/
def keptIds (count : Nat) : List Nat → List (Option Nat) → List (Option Nat)
  | _, [] => []
  | taken, none :: rest => none :: keptIds count taken rest
  | taken, some id :: rest =>
    if id < count ∧ id ∉ taken then some id :: keptIds count (id :: taken) rest
    else none :: keptIds count taken rest

/-- The IDs below `count` that no node keeps, ascending. -/
def freeIds (count : Nat) (kept : List (Option Nat)) : List Nat :=
  (List.range count).filter fun id => some id ∉ kept

/-- Hands free IDs to the nodes that keep none, in order. -/
def fillIds : List Nat → List (Option Nat) → List (Option Nat)
  | _, [] => []
  | free, some id :: rest => some id :: fillIds free rest
  | id :: free, none :: rest => some id :: fillIds free rest
  | [], none :: rest => none :: fillIds [] rest

/-- The IDs after assignment. -/
def assignedIds (ids : List (Option Nat)) : List (Option Nat) :=
  let kept := keptIds ids.length [] ids
  fillIds (freeIds ids.length kept) kept

/-- For every ID, the position of the node that has it. -/
def positionTable (ids : List (Option Nat)) : Array Nat :=
  (Array.range ids.length).map fun id => ids.idxOf (some id)

namespace Rack

/-- Gives every node its ID. -/
def identify (rack : Rack) : Rack :=
  { rack with
    nodes := List.zipWith (fun node id => { node with id }) rack.nodes
      (assignedIds (rack.nodes.map (·.id))) }

/-- The rack with its table of positions up to date. -/
def locate (rack : Rack) : Rack :=
  { rack with positions := positionTable (rack.nodes.map (·.id)) }

end Rack

end SynthRack
