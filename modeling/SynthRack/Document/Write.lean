import SynthRack.Rack.Compile
import SynthRack.Document.Read

/-!
# Writing racks

`Rack.serialize` compiles a rack and writes it as JSON text, so what is written has no deleted
nodes and no references to missing ones. Registers are never written. `normalize` reads a text and
writes it again.
-/

namespace SynthRack

/-- A number as it is written; what is not finite is written as null. -/
def numberJson (x : Float32) : Json := if x.isFinite then .float x.widen else .null

/-- A natural number as it is written. -/
def naturalJson (n : Nat) : Json := .integer n

namespace Binding

/-- A binding as it is written: the one member that chooses it. -/
def toJson : Binding → Json
  | unset => .object []
  | constant value => .object [("value", numberJson value)]
  | builtin input => .object [("regIdx", naturalJson input.register)]
  | node id => .object [("effectId", naturalJson id)]

end Binding

namespace Condition

/-- A condition as it is written. -/
def toJson (c : Condition Binding) : Json :=
  .object [("a", c.a.toJson), ("b", c.b.toJson), ("operator", naturalJson c.operator.tag),
    ("then", c.result.toJson)]

end Condition

namespace Maths

/-- A term as it is written. -/
def termJson (coefficients : List Binding) : Json :=
  .object [("coefficients", .array (coefficients.map Binding.toJson))]

end Maths

namespace Effect

/-- An effect as it is written, its members in the order of their names. -/
def toJson (e : Effect Binding) : Json :=
  let type := ("type", naturalJson e.type.tag)
  match e with
  | oscillator o => .object [("amplitude", o.amplitude.toJson), ("frequency", o.frequency.toJson),
      ("frequencyMult", o.frequencyMult.toJson), ("offset", o.offset.toJson),
      ("phase", o.phase.toJson), type, ("waveform", naturalJson o.waveform.tag)]
  | envelope e => .object [("attack", e.attack.toJson), ("decay", e.decay.toJson),
      ("release", e.release.toJson), ("signal", e.signal.toJson), ("sustain", e.sustain.toJson),
      ("toModulate", e.toModulate.toJson), type]
  | maths m => .object [("terms", .array (m.terms.map Maths.termJson)), type]
  | switch s => .object [("conditions", .array (s.conditions.map Condition.toJson)),
      ("default", s.fallback.toJson), type]
  | noise n => .object [("amplitude", n.amplitude.toJson), type]
  | delay d => .object [("seconds", d.seconds.toJson), ("signal", d.signal.toJson), type]
  | biquad b => .object [("a1", b.a1.toJson), ("a2", b.a2.toJson), ("b0", b.b0.toJson),
      ("b1", b.b1.toJson), ("b2", b.b2.toJson), ("signal", b.signal.toJson), type]

end Effect

namespace Node

/-- A node as it is written. -/
def toJson (node : Node) : Json :=
  .object [("id", (node.id.map naturalJson).getD .null), ("toDelete", .bool node.toDelete),
    ("enabled", .bool node.enabled), ("value", (node.effect.map (·.binding)).toJson)]

end Node

namespace Rack

/-- A rack as it is written. -/
def toJson (rack : Rack) : Json :=
  .object [("name", .string rack.name), ("effects", .array (rack.nodes.map Node.toJson))]

/-- Compiles a rack and writes it. -/
def serialize (rack : Rack) (version : Nat) : String × Rack :=
  let compiled := rack.compile version
  (compiled.toJson.print, compiled)

end Rack

/-- Reads a text and writes it in normal form: deletions done, dangling references resolved. -/
def normalize (text : String) : Reads String :=
  (Rack.decode text).map fun rack => (rack.serialize 1).1

end SynthRack
