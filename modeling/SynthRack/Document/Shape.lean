import SynthRack.Rack.Effect
import SynthRack.Document.Error

/-!
# Readers of JSON shapes

Readers for the types that occur in a document. A record is read from an object by the names of its
members, or from an array in the order of its members; an absent member takes its default, and an
unknown one is passed over. Members of an object are read in the order of their names, so the first
one that does not fit is the one reported.
-/

namespace SynthRack

/-- A reader of JSON values. -/
abbrev Shape (α : Type) := Json → Except Mismatch α

namespace Shape

/-- Reads a boolean. -/
def bool : Shape Bool
  | .bool value => .ok value
  | other => .error (.wrongType other "a boolean")

/-- Reads a text. -/
def string : Shape String
  | .string value => .ok value
  | other => .error (.wrongType other "a string")

/-- Reads any number, rounded to single precision. -/
def number : Shape Float32
  | .integer value => .ok (Float32.nearestInt value)
  | .float value => .ok value.narrow
  | other => .error (.wrongType other "f32")

/-- Reads an integer from `low` up to `high`. -/
def integer (low high : Int) (expected : String) : Shape Int
  | .integer value =>
    if low ≤ value ∧ value ≤ high then .ok value else .error (.outOfRange value expected)
  | other => .error (.wrongType other expected)

/-- Reads an integer of 8 bits. -/
def byte (value : Json) : Except Mismatch Nat :=
  (integer 0 (UInt8.size - 1) "u8" value).map Int.toNat

/-- Reads an integer of 32 bits. -/
def word (value : Json) : Except Mismatch Nat :=
  (integer 0 (UInt32.size - 1) "u32" value).map Int.toNat

/-- Reads an integer of 64 bits. -/
def longWord (value : Json) : Except Mismatch Nat :=
  (integer 0 (UInt64.size - 1) "u64" value).map Int.toNat

/-- Reads a signed integer of 64 bits. -/
def signedLong : Shape Int := integer (-(UInt64.size / 2)) (UInt64.size / 2 - 1) "i64"

/-- Reads null as nothing. -/
def nullable {α : Type} (shape : Shape α) : Shape (Option α)
  | .null => .ok none
  | value => (shape value).map some

/-- Reads a list. -/
def list {α : Type} (shape : Shape α) : Shape (List α)
  | .array elements => elements.mapM shape
  | other => .error (.wrongType other "a sequence")

/-- Reads a number that names a member of a closed set. -/
def tagged {α : Type} (what : String) (ofTag? : Nat → Option α) (value : Json) :
    Except Mismatch α := do
  let tag ← byte value
  match ofTag? tag with
  | some member => .ok member
  | none => .error (.unknownTag ⟨what, tag⟩)

/-- Reads a member of a record, which may be absent. -/
def optional {α : Type} (shape : Shape α) (default : α) : Option Json → Except Mismatch α
  | some value => shape value
  | none => .ok default

/-- Reads a member of an object. -/
def member {α : Type} (members : List (String × Json)) (name : String) (shape : Shape α)
    (default : α) : Except Mismatch α :=
  optional shape default (Json.lookup? members name)

/-- Reads an element of an array. -/
def element {α : Type} (elements : List Json) (index : Nat) (shape : Shape α) (default : α) :
    Except Mismatch α :=
  optional shape default elements[index]?

/-- Refuses an array with more than `most` elements. -/
def atMost (most : Nat) (elements : List Json) : Except Mismatch Unit :=
  if elements.length ≤ most then .ok () else .error (.tooManyElements elements.length)

end Shape

namespace Binding

/-- The binding that three members choose: a node before an input, an input before a constant. -/
def ofMembers : Option Nat → Option Builtin → Option Float32 → Binding
  | some id, _, _ => .node id
  | none, some input, _ => .builtin input
  | none, none, some value => .constant value
  | none, none, none => .unset

/-- Reads a binding. -/
def shape : Shape Binding
  | .object members => do
    let id ← Shape.member members "effectId" (.nullable Shape.word) none
    let input ← Shape.member members "regIdx" (.nullable builtin) none
    let value ← Shape.member members "value" (.nullable Shape.number) none
    return ofMembers id input value
  | .array elements => do
    let value ← Shape.element elements 0 (.nullable Shape.number) none
    let input ← Shape.element elements 1 (.nullable builtin) none
    let id ← Shape.element elements 2 (.nullable Shape.word) none
    Shape.atMost 3 elements
    return ofMembers id input value
  | other => .error (.wrongType other "struct BindingWire")
where
  /-- Reads the number of an input. -/
  builtin : Shape Builtin := Shape.tagged "builtin register" Builtin.ofTag?

end Binding

namespace Maths

/-- Reads a term. -/
def termShape : Shape (List Binding)
  | .object members => Shape.member members "coefficients" (.list Binding.shape) newTerm
  | .array elements => do
    let coefficients ← Shape.element elements 0 (.list Binding.shape) newTerm
    Shape.atMost 1 elements
    return coefficients
  | other => .error (.wrongType other "struct Term")

end Maths

namespace Condition

/-- Reads a comparison. -/
def operatorShape : Shape Comparison := Shape.tagged "switch operator" Comparison.ofTag?

/-- Reads a condition. -/
def shape : Shape (Condition Binding)
  | .object members => do
    let a ← Shape.member members "a" Binding.shape new.a
    let b ← Shape.member members "b" Binding.shape new.b
    let operator ← Shape.member members "operator" operatorShape new.operator
    let result ← Shape.member members "then" Binding.shape new.result
    return { a, operator, b, result }
  | .array elements => do
    let a ← Shape.element elements 0 Binding.shape new.a
    let operator ← Shape.element elements 1 operatorShape new.operator
    let b ← Shape.element elements 2 Binding.shape new.b
    let result ← Shape.element elements 3 Binding.shape new.result
    Shape.atMost 4 elements
    return { a, operator, b, result }
  | other => .error (.wrongType other "struct Condition")

end Condition

end SynthRack
