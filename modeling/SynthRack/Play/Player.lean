import SynthRack.Play.Voice

/-!
# Players

A player holds one rack and one voice, for playing block by block. Swapping in another rack keeps
the voice; what carries over is decided with the next sample.
-/

namespace SynthRack

/-- A rack and the voice that plays it. -/
structure Player where
  rack : Rack
  voice : Voice

namespace Player

/-- A player at rest. -/
def ofRack (rack : Rack) (seed : UInt64) : Player := ⟨rack, .ofSeed seed⟩

/-- Swaps in another rack. -/
def setRack (player : Player) (rack : Rack) : Player := { player with rack }

/-- Starts a note. -/
def noteOn (player : Player) (frequency : Float32) : Player :=
  { player with voice := player.voice.noteOn frequency }

/-- Releases the note. -/
def noteOff (player : Player) : Player := { player with voice := player.voice.noteOff }

/-- The next samples, and the player after them. -/
def process (player : Player) (count : Nat) (sampleRate : Float32) :
    Except Fault (Array Float32 × Player) :=
  let ⟨rack, voice⟩ := player
  (Voice.process rack sampleRate count voice #[]).map fun (block, voice) => (block, ⟨rack, voice⟩)

end Player

end SynthRack
