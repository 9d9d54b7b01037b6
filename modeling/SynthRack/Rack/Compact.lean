import SynthRack.Rack.Identify

/-!
# Removing deleted nodes

Nodes marked for deletion are removed and the others numbered by their place in the list. A
reference to a node that stays follows it to its new ID; any other reference becomes the default of
its parameter.
-/

namespace SynthRack

/-- The new ID of a node that stays: its place among those that stay. -/
def newId? (survivors : List Node) (id : Nat) : Option Nat :=
  survivors.findIdx? (·.id == some id)

/-- A binding after renumbering. -/
def renumber (survivors : List Node) (binding : Binding) (default : Float32) : Binding :=
  match binding with
  | .node id =>
    match newId? survivors id with
    | some new => .node new
    | none => .constant default
  | other => other

namespace Rack

/-- The nodes that stay. -/
def survivors (rack : Rack) : List Node := rack.nodes.filter (! ·.toDelete)

/-- Whether a node is marked for deletion. -/
def hasDeleted (rack : Rack) : Bool := rack.nodes.any (·.toDelete)

/-- Removes the marked nodes and renumbers the others. -/
def compact (rack : Rack) : Rack :=
  let survivors := rack.survivors
  { rack with
    nodes := survivors.mapIdx fun position node =>
      { node with
        id := some position
        effect := node.effect.withDefaults.map fun (param, default) =>
          { param with binding := renumber survivors param.binding default } } }

end Rack

end SynthRack
