/-!
# Where a parameter's value comes from

A `Binding` is what a user chose for a parameter. A `Param` adds the register that compilation
resolved it to, which is none before the first compilation.
-/

namespace SynthRack

/-- Inputs of every call, held in the first registers of every voice. -/
inductive Builtin where
  | keyFrequency
  | signal
  /-- The length of a sample in seconds. -/
  | sampleDt
  /-- One while the gate is held, else zero. -/
  | signalRaw
  deriving DecidableEq, Inhabited

namespace Builtin

/-- All inputs in register order. -/
def all : List Builtin := [keyFrequency, signal, sampleDt, signalRaw]

/-- How many registers the inputs take. -/
def count : Nat := all.length

/-- The register of an input, which is also the number it is stored as. -/
def register : Builtin → Nat
  | keyFrequency => 0
  | signal => 1
  | sampleDt => 2
  | signalRaw => 3

/-- The input stored as `tag`, if there is one. -/
def ofTag? (tag : Nat) : Option Builtin := all[tag]?

/-- The name shown to a user. -/
def name : Builtin → String
  | keyFrequency => "Key frequency"
  | signal => "Signal"
  | sampleDt => "Sample dt"
  | signalRaw => "Raw signal"

/-- An input is found by its register. -/
theorem of_tag_register (b : Builtin) : ofTag? b.register = some b := by
  cases b <;> rfl

end Builtin

/-- Where a parameter's value comes from. -/
inductive Binding where
  /-- Nothing was chosen; the parameter's default stands in. -/
  | unset
  | constant (value : Float32)
  | builtin (input : Builtin)
  /-- The output of the node with this ID. -/
  | node (id : Nat)
  deriving DecidableEq, Inhabited

/-- Bindings are alike when they choose the same source; constants compare as numbers. -/
instance : BEq Binding where
  beq
    | .unset, .unset => true
    | .constant x, .constant y => x == y
    | .builtin a, .builtin b => a == b
    | .node i, .node j => i == j
    | _, _ => false

/-- A parameter: its binding and the register it was compiled to. -/
structure Param where
  binding : Binding
  register : Option Nat
  deriving DecidableEq, BEq, Inhabited

/-- A parameter that was not compiled yet. -/
def Param.ofBinding (binding : Binding) : Param := ⟨binding, none⟩

end SynthRack
