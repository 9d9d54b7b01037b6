import SynthRack.Numeral.Bytes
import SynthRack.Rack.Compact

/-!
# Placing nodes in registers

The template of a rack holds the builtin inputs first, then one output for every node, then node by
node its private registers and the constants of its parameters. Outputs and private registers are
persisted; constants are not. A parameter bound to an input or to a node reads that register and
needs none of its own. Every delay node receives a buffer. Indices count from zero on without a
largest one, and `layoutFingerprint` is the bytes of a layout where a hash of them would do: see
`SynthRack.Rack.Basic` for both.
-/

namespace SynthRack

/-- The longest delay that is buffered, in seconds. -/
def maxDelaySeconds : Float32 := 5

/-- A template under construction. -/
structure Draft where
  slots : Array Slot
  bufferSeconds : Array Float32

namespace Draft

/-- The inputs and the outputs of `count` nodes. -/
def start (count : Nat) : Draft where
  slots := Array.replicate Builtin.count ⟨0, false⟩ ++ Array.replicate count ⟨0, true⟩
  bufferSeconds := #[]

/-- Adds a register and returns its index. -/
def slot (initial : Float32) (persisted : Bool) : StateM Draft Nat := fun draft =>
  (draft.slots.size, { draft with slots := draft.slots.push ⟨initial, persisted⟩ })

/-- Adds a buffer and returns its index. -/
def buffer (seconds : Float32) : StateM Draft Nat := fun draft =>
  (draft.bufferSeconds.size, { draft with bufferSeconds := draft.bufferSeconds.push seconds })

/-- Adds private registers and returns their indices. -/
def states : Nat → StateM Draft (List Nat)
  | 0 => return []
  | count + 1 => do
    let first ← slot 0 true
    let rest ← states count
    return first :: rest

end Draft

/-- The output register of the node at a position. -/
@[inline] def outputRegister (position : Nat) : Nat := Builtin.count + position

/-- Finds or adds the register a parameter reads. A reference to a node that does not exist becomes
the parameter's default. -/
def resolve (positions : Array Nat) (param : Param) (default : Float32) : StateM Draft Param := do
  match param.binding with
  | .unset => return ⟨.unset, some (← Draft.slot default false)⟩
  | .constant value => return ⟨.constant value, some (← Draft.slot value false)⟩
  | .builtin input => return ⟨.builtin input, some input.register⟩
  | .node id =>
    match positions[id]? with
    | some position => return ⟨.node id, some (outputRegister position)⟩
    | none => return ⟨.constant default, some (← Draft.slot default false)⟩

/-- The duration a delay asks for: its constant, or the longest if the duration varies. -/
def requestedSeconds : Binding → Float32
  | .constant value => value
  | .unset => 0.1
  | .builtin _ | .node _ => maxDelaySeconds

/-- A duration within the range of buffers; what is not positive needs none. -/
def bufferedSeconds (requested : Float32) : Float32 :=
  if maxDelaySeconds < requested then maxDelaySeconds
  else if 0 < requested then requested
  else 0

/-- Adds the buffer of a delay; no other effect has one. -/
def placeBuffer : Effect Param → StateM Draft (Option Nat)
  | .delay d => do
    let index ← Draft.buffer (bufferedSeconds (requestedSeconds d.seconds.binding))
    return some index
  | _ => return none

/-- Places the node at a position: private registers, parameters, buffer. -/
def place (positions : Array Nat) (node : Node) (position : Nat) : StateM Draft Node := do
  let state ← Draft.states node.effect.type.stateCount
  let effect ← node.effect.withDefaults.mapM fun (param, default) =>
    resolve positions param default
  let buffer ← placeBuffer effect
  return { node with effect, home := some ⟨outputRegister position, state, buffer⟩ }

/-- A number as eight bytes. -/
def wordBytes (n : Nat) : List UInt8 := littleEndian 8 n

/-- What tells layouts apart: the kinds of the nodes, the number of registers, the persistence of
each, and the number of buffers. -/
def layoutFingerprint (types : List EffectType) (draft : Draft) : List UInt8 :=
  types.flatMap (fun type => wordBytes type.tag) ++ wordBytes draft.slots.size ++
    wordBytes draft.slots.size ++
    draft.slots.toList.map (fun slot => if slot.persisted then 1 else 0) ++
    wordBytes draft.bufferSeconds.size

namespace Rack

/-- Places every node and seals the template with a version. -/
def allocate (rack : Rack) (version : Nat) : Rack :=
  let (nodes, draft) := (rack.nodes.zipIdx.mapM fun (node, position) =>
    place rack.positions node position).run (.start rack.nodes.length)
  { rack with
    nodes
    template := {
      slots := draft.slots
      bufferSeconds := draft.bufferSeconds
      version
      fingerprint := layoutFingerprint (nodes.map (·.effect.type)) draft } }

end Rack

end SynthRack
