import SynthRack.Rack.Compile
import SynthRack.Json.Reader
import SynthRack.Document.Shape

/-!
# Reading racks

`Rack.decode` reads a rack from JSON text. The result is not compiled; `Rack.load` compiles it. A
member that is absent takes the value the effect is first made with, so documents written before a
parameter existed still load.
-/

namespace SynthRack

/-- A reader of parts of a rack document. -/
abbrev Reads (α : Type) := Except DocumentError α

/-- Reports a mismatch as an error of the document. -/
def liftMismatch {α : Type} : Except Mismatch α → Reads α
  | .ok value => .ok value
  | .error reason => .error (.mismatch reason)

/-- Reads a number that names a waveform. -/
def Waveform.shape : Shape Waveform := Shape.tagged "waveform" Waveform.ofTag?

namespace Effect

/-- Reads the settings of an effect of a known kind from the members of its object. -/
def settings (type : EffectType) (members : List (String × Json)) :
    Except Mismatch (Effect Binding) :=
  let param (name : String) (default : Binding) := Shape.member members name Binding.shape default
  match new type with
  | .oscillator o => do
    let amplitude ← param "amplitude" o.amplitude
    let frequency ← param "frequency" o.frequency
    let frequencyMult ← param "frequencyMult" o.frequencyMult
    let offset ← param "offset" o.offset
    let phase ← param "phase" o.phase
    let waveform ← Shape.member members "waveform" Waveform.shape o.waveform
    return .oscillator { waveform, amplitude, frequency, frequencyMult, phase, offset }
  | .envelope e => do
    let attack ← param "attack" e.attack
    let decay ← param "decay" e.decay
    let release ← param "release" e.release
    let signal ← param "signal" e.signal
    let sustain ← param "sustain" e.sustain
    let toModulate ← param "toModulate" e.toModulate
    return .envelope { signal, attack, decay, sustain, release, toModulate }
  | .maths m => do
    let terms ← Shape.member members "terms" (.list Maths.termShape) m.terms
    return .maths { terms }
  | .switch s => do
    let conditions ← Shape.member members "conditions" (.list Condition.shape) s.conditions
    let fallback ← param "default" s.fallback
    return .switch { conditions, fallback }
  | .noise n => do
    let amplitude ← param "amplitude" n.amplitude
    return .noise { amplitude }
  | .delay d => do
    let seconds ← param "seconds" d.seconds
    let signal ← param "signal" d.signal
    return .delay { signal, seconds }
  | .biquad b => do
    let a1 ← param "a1" b.a1
    let a2 ← param "a2" b.a2
    let b0 ← param "b0" b.b0
    let b1 ← param "b1" b.b1
    let b2 ← param "b2" b.b2
    let signal ← param "signal" b.signal
    return .biquad { signal, a1, a2, b0, b1, b2 }

/-- The kind that a type member names. -/
def typeOf? : Json → Option EffectType
  | .integer (.ofNat tag) => EffectType.ofTag? tag
  | _ => none

/-- Reads an effect. -/
def ofJson : Json → Reads (Effect Binding)
  | .object members =>
    match Json.lookup? members "type" with
    | none => .error (.missingField "type")
    | some tag =>
      match typeOf? tag with
      | some type => liftMismatch (settings type members)
      | none => .error (.unknownNodeType tag)
  | _ => .error (.notAnObject "effect value")

end Effect

namespace Node

/-- The ID that a document's integer stands for; what is out of range stands for none. -/
def storedId (id : Int) : Option Nat :=
  if 0 ≤ id ∧ id < UInt32.size then some id.toNat else none

/-- Reads a node. -/
def ofJson : Json → Reads Node
  | .object members =>
    match Json.lookup? members "value" with
    | none => .error (.missingField "value")
    | some body => do
      let effect ← Effect.ofJson body
      let id ← liftMismatch (Shape.member members "id" (.nullable Shape.signedLong) none)
      let toDelete ← liftMismatch (Shape.member members "toDelete" Shape.bool false)
      let enabled ← liftMismatch (Shape.member members "enabled" Shape.bool true)
      return { ofEffect effect with id := id.bind storedId, toDelete, enabled }
  | _ => .error (.notAnObject "effect")

end Node

namespace Rack

/-- Reads a rack from a JSON value. -/
def ofJson : Json → Reads Rack
  | .object members => do
    let name ← liftMismatch (Shape.member members "name" Shape.string "")
    match Json.lookup? members "effects" with
    | some (.array elements) => do
      let nodes ← elements.mapM Node.ofJson
      return { empty with name, nodes }
    | _ => .error (.missingField "effects")
  | _ => .error (.notAnObject "rack")

/-- Reads a rack from a JSON text. -/
def decode (text : String) : Reads Rack :=
  match Json.parse? text with
  | some document => ofJson document
  | none => .error .malformed

/-- Reads a rack and compiles it. -/
def load (text : String) (version : Nat) : Reads Rack :=
  (decode text).map (·.compile version)

end Rack

end SynthRack
