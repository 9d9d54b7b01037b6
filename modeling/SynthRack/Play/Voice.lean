import SynthRack.Play.Step

/-!
# Voices

A voice is one sounding note: its register file, its key and its gate. Any number of voices can
play one rack.
-/

namespace SynthRack

/-- One sounding note. -/
structure Voice where
  registers : RegisterFile
  /-- The key's frequency in hertz. -/
  frequency : Float32
  /-- The gate; zero when released. -/
  signal : Float32
  /-- Set by a new note and used up by its first sample. -/
  retrigger : Bool
  deriving DecidableEq

namespace Voice

/-- A released voice with its own noise. -/
def ofSeed (seed : UInt64) : Voice := ⟨.ofSeed seed, 440, 0, false⟩

/-- Starts a note; the state of the voice is reset with the next sample. -/
def noteOn (voice : Voice) (frequency : Float32) : Voice :=
  { voice with frequency, signal := 1, retrigger := true }

/-- Releases the note. -/
def noteOff (voice : Voice) : Voice := { voice with signal := 0 }

/-- Whether the key is down. -/
def isHeld (voice : Voice) : Bool := 0 < voice.signal

/-- The next sample, and the voice after it. -/
def next (voice : Voice) (rack : Rack) (sampleRate : Float32) : Except Fault (Float32 × Voice) :=
  let ⟨registers, frequency, signal, retrigger⟩ := voice
  match rack.step ⟨frequency, signal, sampleRate, retrigger⟩ registers with
  | .ok (sample, registers) => .ok (sample, ⟨registers, frequency, signal, false⟩)
  | .error fault => .error fault

/-- Appends the next `count` samples to a block. -/
def process (rack : Rack) (sampleRate : Float32) :
    Nat → Voice → Array Float32 → Except Fault (Array Float32 × Voice)
  | 0, voice, block => .ok (block, voice)
  | count + 1, voice, block =>
    match voice.next rack sampleRate with
    | .ok (sample, voice) => process rack sampleRate count voice (block.push sample)
    | .error fault => .error fault

end Voice

end SynthRack
