import SynthRack.Play.Voice

/-!
# Rendering a note

`render` plays one note from its first sample to the end of its tail, for a preview or a file. Its
lengths are 64-bit numbers: a duration beyond them is cut off at the largest, and the sum of two
lengths wraps. The array for all samples is made before the first is played.
-/

namespace SynthRack

/-- How a note is rendered. -/
structure RenderConfig where
  sampleRate : UInt32
  /-- The key's frequency in hertz. -/
  frequency : Float32
  /-- How long the key is held. -/
  gateSeconds : Float32
  /-- How long the rendering goes on after the release. -/
  tailSeconds : Float32
  /-- The seed of the noise. -/
  seed : UInt64
  deriving DecidableEq

namespace RenderConfig

/-- One second held and half a second more. -/
def default : RenderConfig := ⟨44100, 440, 1, 0.5, 0⟩

end RenderConfig

/-- The number of samples nearest to a duration, half a sample counting as one; none for a negative
duration. -/
def nearestSamples (seconds sampleRate : Float32) : Nat :=
  let span := (if 0 < seconds then seconds else 0) * sampleRate
  let whole := span.toUInt64
  if 0.5 ≤ span - whole.toFloat32 then min (whole.toNat + 1) maxLength else whole.toNat

/-- Plays `count` samples from position `i` on; the key is released at position `gate`. -/
def renderFrom (rack : Rack) (sampleRate : Float32) (gate : Nat) :
    Nat → Nat → Voice → Array Float32 → Except Fault (Array Float32)
  | 0, _, _, out => .ok out
  | count + 1, i, voice, out =>
    let voice := if i = gate then voice.noteOff else voice
    match voice.next rack sampleRate with
    | .ok (sample, voice) => renderFrom rack sampleRate gate count (i + 1) voice (out.push sample)
    | .error fault => .error fault

/-- The length of the longest array of samples: its size in bytes is a signed 64-bit number. -/
def maxSamples : Nat := Nat.pow 2 61 - 1

/-- All samples of one note. -/
def render (rack : Rack) (config : RenderConfig) : Except Fault (Array Float32) :=
  let rate := config.sampleRate.toFloat32
  let gate := nearestSamples config.gateSeconds rate
  let total := (gate + nearestSamples config.tailSeconds rate) % UInt64.size
  if maxSamples < total then .error .capacityOverflow
  else renderFrom rack rate gate total 0 ((Voice.ofSeed config.seed).noteOn config.frequency) #[]

end SynthRack
