import SynthRack.Signal.Number

/-!
# Delay lines

A delay line is a ring of samples. The position in the ring is kept by the caller, so `tick` takes
a cursor and returns the next one together with the sample that was stored one round ago. Memory
for a ring is taken to be there.
-/

namespace SynthRack

/-- No length in samples is larger than this. -/
def maxLength : Nat := UInt64.size - 1

/-- Whole samples that a number of samples reaches into: rounded up, none if it is not positive,
and never more than `maxLength`. -/
@[inline] def samplesCovering (span : Float32) : Nat :=
  if 0 < span then
    let whole := span.toUInt64
    if whole.toFloat32 < span then min (whole.toNat + 1) maxLength else whole.toNat
  else 0

/-- Samples that hold `seconds` of sound. -/
@[inline] def samplesFor (seconds sampleRate : Float32) : Nat :=
  samplesCovering (seconds * sampleRate)

/-- A ring of samples. -/
structure DelayLine where
  /-- The stored samples, in ring order. -/
  samples : Array Float32
  deriving DecidableEq, Inhabited

namespace DelayLine

/-- A line that holds nothing and passes its input on. -/
@[inline] def empty : DelayLine := ⟨#[]⟩

/-- How many samples the ring holds. -/
@[inline] def capacity (line : DelayLine) : Nat := line.samples.size

/-- A silent ring of the given capacity. -/
def silent (capacity : Nat) : DelayLine := ⟨Array.replicate capacity 0⟩

/-- The ring at its present capacity, silenced. -/
def clear (line : DelayLine) : DelayLine := silent line.capacity

/-- One sample over the first `length` places of the ring: the sample taken out, the next cursor,
and the ring with the input stored. A length beyond the capacity means the capacity, and a length
of zero passes the input on. -/
@[inline] def tick (line : DelayLine) (input : Float32) (cursor length : Nat) :
    Float32 × Nat × DelayLine :=
  let length := min length line.capacity
  if h : length = 0 then (input, 0, line)
  else
    let place := cursor % length
    have hplace : place < line.samples.size :=
      Nat.lt_of_lt_of_le (Nat.mod_lt _ (Nat.pos_of_ne_zero h)) (Nat.min_le_right _ _)
    let out := line.samples[place]
    (out, (place + 1) % length, ⟨line.samples.set place input⟩)

end DelayLine

end SynthRack
