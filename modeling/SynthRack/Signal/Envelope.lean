import SynthRack.Signal.Number

/-!
# Attack, decay, sustain, release

An envelope is a stage and a level. `Adsr.advance` moves both by one sample: the level climbs to
one, falls to the sustain level and holds there while the gate is up, and falls to zero once the
gate drops. Dropping the gate arms the attack again, so a new press climbs from the current level.
-/

namespace SynthRack

/-- What an open gate is doing to the level. -/
inductive Stage where
  | attack
  | decay
  | sustain
  deriving DecidableEq, Inhabited

namespace Stage

/-- The stage kept in a register: two and up is sustain, one and up is decay. -/
@[inline] def ofRegister (value : Float32) : Stage :=
  if 2 ≤ value then sustain else if 1 ≤ value then decay else attack

/-- The register value that stands for a stage. -/
@[inline] def register : Stage → Float32
  | attack => 0
  | decay => 1
  | sustain => 2

end Stage

/-- Envelope timing: durations in seconds and the held level. -/
structure Adsr (α : Type) where
  /-- Seconds from zero to one. -/
  attack : α
  /-- Seconds from one to the sustain level. -/
  decay : α
  /-- The level held while the gate stays up. -/
  sustain : α
  /-- Seconds from one to zero. -/
  release : α

section Levels

variable {α : Type} [Number α]

/-- Moves `a` to `b` by at most `limit`. -/
@[inline] def moveTowards (a b limit : α) : α :=
  if Number.abs (a - b) < limit then b
  else if b < a then a - limit
  else a + limit

/-- One sample of length `dt`. A stage of no duration is over after a single sample, since the test
for its end fails on anything but a smaller number. -/
@[inline] def Adsr.advance (times : Adsr α) (stage : Stage) (level gate dt : α) : Stage × α :=
  if 0 < gate then
    match stage with
    | .attack =>
      let raised := level + dt / times.attack
      if raised < 1 then (.attack, raised) else (.decay, 1)
    | .decay =>
      let lowered := level - (1 - times.sustain) * dt / times.decay
      if times.sustain < lowered then (.decay, lowered) else (.sustain, times.sustain)
    | .sustain => (.sustain, moveTowards level times.sustain (dt / times.decay))
  else if 0 < level then
    let lowered := level - dt / times.release
    (.attack, if 0 < lowered then lowered else 0)
  else (stage, level)

end Levels

end SynthRack
