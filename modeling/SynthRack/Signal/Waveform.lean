import SynthRack.Signal.Number

/-!
# Waveforms over turns

Phase is counted in turns, so one unit is a full cycle. The shapes are plain: no band limiting.
`Waveform.sample` evaluates a shape at any phase, `advancePhase` moves an accumulator and keeps it
within one turn.
-/

namespace SynthRack

/-- Shapes an oscillator can play. -/
inductive Waveform where
  | sine
  | square
  | sawtooth
  | triangle
  /-- A sawtooth that falls. -/
  | reverseSawtooth
  deriving DecidableEq, Inhabited

namespace Waveform

/-- The number a shape is stored as. -/
def tag : Waveform → Nat
  | sine => 0
  | square => 1
  | sawtooth => 2
  | triangle => 3
  | reverseSawtooth => 4

/-- The shape stored as `tag`, if there is one. -/
def ofTag? : Nat → Option Waveform
  | 0 => some sine
  | 1 => some square
  | 2 => some sawtooth
  | 3 => some triangle
  | 4 => some reverseSawtooth
  | _ => none

/-- The name shown to a user. -/
def name : Waveform → String
  | sine => "sin"
  | square => "square"
  | sawtooth => "sawtooth"
  | triangle => "triangle"
  | reverseSawtooth => "-sawtooth"

/-- A waveform is found by its tag. -/
theorem of_tag_tag (w : Waveform) : ofTag? w.tag = some w := by
  cases w <;> rfl

section Shapes

open Number (two half wrap fraction abs)

variable {α : Type}

/-- One sine cycle per turn. -/
@[inline] def sineAt [Circular α] (t : α) : α := Circular.sin (two * Circular.pi * t)

/-- High for the first half of each turn and low for the second. -/
@[inline] def squareAt [Number α] (t : α) : α := if wrap t < half then 1 else -1

/-- Rises from low to high over each turn. -/
@[inline] def sawtoothAt [Number α] (t : α) : α := two * wrap t - 1

/-- Low at the start of a turn and high halfway, the same on both sides of zero. -/
@[inline] def triangleAt [Number α] (t : α) : α :=
  let part := fraction (abs t)
  let rise := if half < part then two - two * part else two * part
  two * (rise - half)

/-- The value of a shape at `t` turns. -/
@[inline] def sample [Circular α] : Waveform → α → α
  | sine, t => sineAt t
  | square, t => squareAt t
  | sawtooth, t => sawtoothAt t
  | triangle, t => triangleAt t
  | reverseSawtooth, t => -sawtoothAt t

end Shapes

end Waveform

/-- Moves a phase by an increment and back into one turn. Rounding can carry a tiny negative phase
up to a full turn, which is the same phase as none. -/
@[inline] def advancePhase {α : Type} [Number α] (t increment : α) : α :=
  let next := Number.wrap (t + increment)
  if 1 ≤ next then 0 else next

/-- The phase of a sounding oscillator after a sample. -/
@[inline] def nextPhase {α : Type} [Number α] (frequency multiplier dt t : α) : α :=
  advancePhase t (dt * frequency * multiplier)

/-- The output of a sounding oscillator. -/
@[inline] def Waveform.output {α : Type} [Circular α] (shape : Waveform)
    (amplitude phase offset t : α) : α :=
  shape.sample (t + phase) * amplitude + offset

/-- One sample of an oscillator: its output and the phase after it. A silent oscillator keeps its
phase. -/
@[inline] def Waveform.play {α : Type} [Circular α] (shape : Waveform)
    (amplitude frequency multiplier phase offset dt t : α) : α × α :=
  if amplitude == 0 then (0, t)
  else (shape.output amplitude phase offset t, nextPhase frequency multiplier dt t)

end SynthRack
