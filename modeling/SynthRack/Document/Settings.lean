import SynthRack.Play.Render
import SynthRack.Document.Shape

/-!
# Reading render settings

A render configuration is a record whose absent members take their usual values.
-/

namespace SynthRack

namespace RenderConfig

/-- Reads a sample rate. -/
def rateShape (value : Json) : Except Mismatch UInt32 := (Shape.word value).map (·.toUInt32)

/-- Reads a seed. -/
def seedShape (value : Json) : Except Mismatch UInt64 := (Shape.longWord value).map (·.toUInt64)

/-- Reads a configuration. -/
def shape : Shape RenderConfig
  | .object members => do
    let frequency ← Shape.member members "frequency" Shape.number default.frequency
    let gateSeconds ← Shape.member members "gateSeconds" Shape.number default.gateSeconds
    let sampleRate ← Shape.member members "sampleRate" rateShape default.sampleRate
    let seed ← Shape.member members "seed" seedShape default.seed
    let tailSeconds ← Shape.member members "tailSeconds" Shape.number default.tailSeconds
    return { sampleRate, frequency, gateSeconds, tailSeconds, seed }
  | .array elements => do
    let sampleRate ← Shape.element elements 0 rateShape default.sampleRate
    let frequency ← Shape.element elements 1 Shape.number default.frequency
    let gateSeconds ← Shape.element elements 2 Shape.number default.gateSeconds
    let tailSeconds ← Shape.element elements 3 Shape.number default.tailSeconds
    let seed ← Shape.element elements 4 seedShape default.seed
    Shape.atMost 5 elements
    return { sampleRate, frequency, gateSeconds, tailSeconds, seed }
  | other => .error (.wrongType other "struct RenderConfig")

end RenderConfig

end SynthRack
