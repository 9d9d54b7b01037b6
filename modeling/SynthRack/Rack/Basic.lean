import SynthRack.Rack.Effect

/-!
# Racks

A rack is an ordered list of nodes. A node holds an effect, an ID that others refer to it by, and,
once compiled, its `Home`: the registers and the buffer that belong to it. The `Template` is what
every voice starts from. Nothing here holds the state of a voice.

Registers, buffers and IDs are numbered by naturals. They stand for 32-bit numbers: a rack is taken to
have fewer than `2 ^ 32` of each, as every rack does that fits into memory. The fingerprint of a layout
stands for a 64-bit hash of the same bytes, which is taken to be free of collisions.
-/

namespace SynthRack

/-- Where compilation placed a node. -/
structure Home where
  /-- The register that holds the node's last sample. -/
  output : Nat
  /-- The node's private registers, as many as `EffectType.stateCount` says. -/
  state : List Nat
  /-- The delay buffer, if the node has one. -/
  buffer : Option Nat
  deriving DecidableEq, BEq

/-- One entry of a rack. -/
structure Node where
  /-- Stable ID; none until a compilation assigns one. -/
  id : Option Nat
  /-- The next compilation removes the node. -/
  toDelete : Bool
  /-- A disabled node is skipped and keeps its last sample. -/
  enabled : Bool
  /-- None until a compilation places the node. -/
  home : Option Home
  effect : Effect Param
  deriving DecidableEq, BEq

namespace Node

/-- An enabled node with no ID and no home. -/
def ofEffect (effect : Effect Binding) : Node where
  id := none
  toDelete := false
  enabled := true
  home := none
  effect := effect.map Param.ofBinding

/-- The register that holds the node's last sample. -/
@[inline] def output (node : Node) : Option Nat := node.home.map (·.output)

/-- A private register of the node. -/
@[inline] def state (node : Node) (index : Nat) : Option Nat :=
  match node.home with
  | some home => home.state[index]?
  | none => none

/-- The delay buffer of the node. -/
@[inline] def buffer (node : Node) : Option Nat :=
  match node.home with
  | some home => home.buffer
  | none => none

end Node

/-- One register of a template. -/
structure Slot where
  initial : Float32
  /-- A persisted register keeps its value when the rack is compiled anew. -/
  persisted : Bool
  deriving DecidableEq

/-- What every voice of a rack starts from. -/
structure Template where
  slots : Array Slot
  /-- The duration each delay buffer is made for. -/
  bufferSeconds : Array Float32
  /-- Told apart by every compilation; zero before the first. -/
  version : Nat
  /-- Equal for templates of the same layout. -/
  fingerprint : List UInt8
  deriving DecidableEq

namespace Template

/-- The template of a rack that was never compiled. -/
def empty : Template := ⟨#[], #[], 0, []⟩

/-- How many registers there are. -/
@[inline] def size (t : Template) : Nat := t.slots.size

/-- The initial value of every register. -/
def values (t : Template) : Array Float32 := t.slots.map (·.initial)

/-- For every register, whether it is persisted. -/
def persisted (t : Template) : Array Bool := t.slots.map (·.persisted)

end Template

/-- A rack of effects. -/
structure Rack where
  name : String
  /-- The nodes in the order they are played. Any node may read any other. -/
  nodes : List Node
  /-- For every ID, the position of its node, as of the last compilation. -/
  positions : Array Nat
  template : Template
  /-- Play only up to and including this position. -/
  cursor : Option Nat
  deriving DecidableEq

/-- What an editor shows of a rack. -/
structure RackInfo where
  nodeIds : List Nat
  registerCount : Nat
  bufferCount : Nat
  deriving DecidableEq

namespace Rack

/-- A rack with no nodes. -/
def empty : Rack := ⟨"", [], #[], .empty, none⟩

/-- Whether the rack was ever compiled. -/
@[inline] def isCompiled (rack : Rack) : Bool := 0 < rack.template.version

/-- The position of the node with an ID, as of the last compilation. -/
def positionOf? (rack : Rack) (id : Nat) : Option Nat := rack.positions[id]?

/-- The value a parameter starts each voice with: what its register holds in the template, else its
constant. -/
def paramValue (rack : Rack) (param : Param) : Float32 :=
  match param.register.bind (rack.template.slots[·]?) with
  | some slot => slot.initial
  | none =>
    match param.binding with
    | .constant value => value
    | _ => 0

/-- The IDs and sizes of a rack. -/
def info (rack : Rack) : RackInfo where
  nodeIds := rack.nodes.filterMap (·.id)
  registerCount := rack.template.size
  bufferCount := rack.template.bufferSeconds.size

/-- Adds a node at the end. -/
def push (rack : Rack) (effect : Effect Binding) : Rack :=
  { rack with nodes := rack.nodes ++ [.ofEffect effect] }

/-- Marks the first node with an ID for deletion; the flag says whether there was one. -/
def markDeleted (rack : Rack) (id : Nat) : Rack × Bool :=
  match rack.nodes.findIdx? (·.id == some id) with
  | some position =>
    ({ rack with nodes := rack.nodes.modify position ({ · with toDelete := true }) }, true)
  | none => (rack, false)

/-- Changes the node at a position. -/
def modifyNode (rack : Rack) (position : Nat) (f : Node → Node) : Rack :=
  { rack with nodes := rack.nodes.modify position f }

/-- Takes the node at a position out of the list. -/
def remove (rack : Rack) (position : Nat) : Rack :=
  { rack with nodes := rack.nodes.eraseIdx position }

/-- Takes the node at one position out and puts it at another. -/
def move (rack : Rack) (source target : Nat) : Rack :=
  match rack.nodes[source]? with
  | some node => { rack with nodes := (rack.nodes.eraseIdx source).insertIdx target node }
  | none => rack

end Rack

end SynthRack
