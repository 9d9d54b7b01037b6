import SynthRack.Signal.Filter
import SynthRack.Signal.Waveform
import SynthRack.Rack.Binding

/-!
# Effects

The seven kinds of effect a node can run, as structures over the type `P` of their parameters. With
`P := Binding` an effect is what a user wrote, with `P := Param` it is compiled. Every pass over
parameters goes through `Effect.params`, `Effect.map` or `Effect.mapM`, which share one order, and
`Effect.withDefaults` pairs each parameter with the constant that stands in for it.
-/

namespace SynthRack

/-- A waveform generator. -/
structure Oscillator (P : Type) where
  waveform : Waveform
  amplitude : P
  frequency : P
  frequencyMult : P
  /-- Phase offset in turns. -/
  phase : P
  /-- Added to the scaled waveform. -/
  offset : P
  deriving DecidableEq, BEq

/-- A linear envelope over a signal. -/
structure Envelope (P : Type) where
  /-- The gate. -/
  signal : P
  attack : P
  decay : P
  sustain : P
  release : P
  /-- The signal that is shaped. -/
  toModulate : P
  deriving DecidableEq, BEq

/-- A sum of products; each term lists its coefficients, and no coefficients multiply to one. -/
structure Maths (P : Type) where
  terms : List (List P)
  deriving DecidableEq, BEq

/-- A term as it is first made: one coefficient, which is one. -/
def Maths.newTerm : List Binding := [.constant 1]

/-- How a condition compares its operands. -/
inductive Comparison where
  | less
  | greater
  deriving DecidableEq, Inhabited

namespace Comparison

/-- The number a comparison is stored as. -/
def tag : Comparison → Nat
  | less => 1
  | greater => 2

/-- The comparison stored as `tag`, if there is one. -/
def ofTag? : Nat → Option Comparison
  | 1 => some less
  | 2 => some greater
  | _ => none

/-- The name shown to a user. -/
def name : Comparison → String
  | less => "<"
  | greater => ">"

/-- Whether the comparison holds. -/
@[inline] def test : Comparison → Float32 → Float32 → Bool
  | less, a, b => a < b
  | greater, a, b => b < a

/-- A comparison is found by its tag. -/
theorem of_tag_tag (c : Comparison) : ofTag? c.tag = some c := by
  cases c <;> rfl

end Comparison

/-- One case of a switch: its result counts if the comparison of its operands holds. -/
structure Condition (P : Type) where
  a : P
  operator : Comparison
  b : P
  result : P
  deriving DecidableEq, BEq

namespace Condition

variable {P Q : Type}

/-- Rebuilds every parameter. -/
def map (f : P → Q) (c : Condition P) : Condition Q := ⟨f c.a, c.operator, f c.b, f c.result⟩

/-- Every parameter, in order. -/
def params (c : Condition P) : List P := [c.a, c.b, c.result]

/-- Rebuilds every parameter in order. -/
@[specialize] def mapM {m : Type → Type} [Monad m] (f : P → m Q) (c : Condition P) :
    m (Condition Q) := do
  let a ← f c.a
  let b ← f c.b
  let result ← f c.result
  return ⟨a, c.operator, b, result⟩

/-- A condition as it is first made: zero against zero. -/
def new : Condition Binding := ⟨.constant 0, .less, .constant 0, .constant 0⟩

end Condition

/-- The result of the first condition that holds, else the fallback. -/
structure Switch (P : Type) where
  conditions : List (Condition P)
  fallback : P
  deriving DecidableEq, BEq

/-- White noise, on while the amplitude is nonzero; its size does not scale the noise. -/
structure Noise (P : Type) where
  amplitude : P
  deriving DecidableEq, BEq

/-- A delay line. -/
structure Delay (P : Type) where
  signal : P
  seconds : P
  deriving DecidableEq, BEq

/-- A second-order filter. -/
structure Biquad (P : Type) where
  signal : P
  a1 : P
  a2 : P
  b0 : P
  b1 : P
  b2 : P
  deriving DecidableEq, BEq

/-- The kinds of effect, numbered as they are stored. -/
inductive EffectType where
  | oscillator
  | envelope
  | maths
  | switch
  | noise
  | delay
  | biquad
  deriving DecidableEq, Inhabited

namespace EffectType

/-- All kinds in the order of their numbers. -/
def all : List EffectType := [oscillator, envelope, maths, switch, noise, delay, biquad]

/-- The number a kind is stored as. -/
def tag : EffectType → Nat
  | oscillator => 0
  | envelope => 1
  | maths => 2
  | switch => 3
  | noise => 4
  | delay => 5
  | biquad => 6

/-- The kind stored as `tag`, if there is one. -/
def ofTag? (tag : Nat) : Option EffectType := all[tag]?

/-- How many private registers a kind keeps: an oscillator its phase; an envelope its stage and its
level; a delay its cursor; a filter its two taps. -/
def stateCount : EffectType → Nat
  | oscillator => 1
  | envelope => 2
  | delay => 1
  | biquad => 2
  | maths | switch | noise => 0

/-- A kind is found by its tag. -/
theorem of_tag_tag (t : EffectType) : ofTag? t.tag = some t := by
  cases t <;> rfl

end EffectType

/-- An effect with parameters of type `P`. -/
inductive Effect (P : Type) where
  | oscillator (settings : Oscillator P)
  | envelope (settings : Envelope P)
  | maths (settings : Maths P)
  | switch (settings : Switch P)
  | noise (settings : Noise P)
  | delay (settings : Delay P)
  | biquad (settings : Biquad P)
  deriving DecidableEq, BEq

namespace Effect

variable {P Q : Type}

/-- The kind of an effect. -/
def type : Effect P → EffectType
  | oscillator _ => .oscillator
  | envelope _ => .envelope
  | maths _ => .maths
  | switch _ => .switch
  | noise _ => .noise
  | delay _ => .delay
  | biquad _ => .biquad

/-- Every parameter, in order. -/
def params : Effect P → List P
  | oscillator o => [o.amplitude, o.frequency, o.frequencyMult, o.phase, o.offset]
  | envelope e => [e.signal, e.attack, e.decay, e.sustain, e.release, e.toModulate]
  | maths m => m.terms.flatten
  | switch s => s.conditions.flatMap Condition.params ++ [s.fallback]
  | noise n => [n.amplitude]
  | delay d => [d.signal, d.seconds]
  | biquad b => [b.signal, b.a1, b.a2, b.b0, b.b1, b.b2]

/-- Rebuilds every parameter. -/
def map (f : P → Q) : Effect P → Effect Q
  | oscillator o => oscillator ⟨o.waveform, f o.amplitude, f o.frequency, f o.frequencyMult,
      f o.phase, f o.offset⟩
  | envelope e => envelope ⟨f e.signal, f e.attack, f e.decay, f e.sustain, f e.release,
      f e.toModulate⟩
  | maths m => maths ⟨m.terms.map (·.map f)⟩
  | switch s => switch ⟨s.conditions.map (·.map f), f s.fallback⟩
  | noise n => noise ⟨f n.amplitude⟩
  | delay d => delay ⟨f d.signal, f d.seconds⟩
  | biquad b => biquad ⟨f b.signal, f b.a1, f b.a2, f b.b0, f b.b1, f b.b2⟩

/-- Rebuilds every parameter in order. -/
@[specialize] def mapM {m : Type → Type} [Monad m] (f : P → m Q) : Effect P → m (Effect Q)
  | oscillator o => do
    let amplitude ← f o.amplitude
    let frequency ← f o.frequency
    let frequencyMult ← f o.frequencyMult
    let phase ← f o.phase
    let offset ← f o.offset
    return oscillator ⟨o.waveform, amplitude, frequency, frequencyMult, phase, offset⟩
  | envelope e => do
    let signal ← f e.signal
    let attack ← f e.attack
    let decay ← f e.decay
    let sustain ← f e.sustain
    let release ← f e.release
    let toModulate ← f e.toModulate
    return envelope ⟨signal, attack, decay, sustain, release, toModulate⟩
  | maths e => do
    let terms ← e.terms.mapM (·.mapM f)
    return maths ⟨terms⟩
  | switch s => do
    let conditions ← s.conditions.mapM (·.mapM f)
    let fallback ← f s.fallback
    return switch ⟨conditions, fallback⟩
  | noise n => do
    let amplitude ← f n.amplitude
    return noise ⟨amplitude⟩
  | delay d => do
    let signal ← f d.signal
    let seconds ← f d.seconds
    return delay ⟨signal, seconds⟩
  | biquad b => do
    let signal ← f b.signal
    let a1 ← f b.a1
    let a2 ← f b.a2
    let b0 ← f b.b0
    let b1 ← f b.b1
    let b2 ← f b.b2
    return biquad ⟨signal, a1, a2, b0, b1, b2⟩

/-- Pairs every parameter with its default. -/
def withDefaults : Effect P → Effect (P × Float32)
  | oscillator o => oscillator ⟨o.waveform, (o.amplitude, 1), (o.frequency, 440),
      (o.frequencyMult, 1), (o.phase, 0), (o.offset, 0)⟩
  | envelope e => envelope ⟨(e.signal, 0), (e.attack, 0.02), (e.decay, 0.1), (e.sustain, 0.2),
      (e.release, 0.2), (e.toModulate, 1)⟩
  | maths m => maths ⟨m.terms.map (·.map (·, 1))⟩
  | switch s => switch ⟨s.conditions.map (·.map (·, 0)), (s.fallback, 0)⟩
  | noise n => noise ⟨(n.amplitude, 1)⟩
  | delay d => delay ⟨(d.signal, 0), (d.seconds, 0.1)⟩
  | biquad b => biquad ⟨(b.signal, 0), (b.a1, 0), (b.a2, 0), (b.b0, 1), (b.b1, 0), (b.b2, 0)⟩

/-- An effect of each kind as it is first made. Most parameters start as their defaults, but an
oscillator follows the key, an envelope the gate, and a switch holds one condition. -/
def new : EffectType → Effect Binding
  | .oscillator => oscillator {
      waveform := .sine, amplitude := .constant 1, frequency := .builtin .keyFrequency
      frequencyMult := .constant 1, phase := .constant 0, offset := .constant 0 }
  | .envelope => envelope {
      signal := .builtin .signal, attack := .constant 0.02, decay := .constant 0.1
      sustain := .constant 0.2, release := .constant 0.2, toModulate := .constant 1 }
  | .maths => maths ⟨[]⟩
  | .switch => switch ⟨[Condition.new], .constant 0⟩
  | .noise => noise ⟨.constant 1⟩
  | .delay => delay ⟨.constant 0, .constant 0.1⟩
  | .biquad => biquad {
      signal := .constant 0, a1 := .constant 0, a2 := .constant 0
      b0 := .constant 1, b1 := .constant 0, b2 := .constant 0 }

/-- Changes the parameter at a position in the order of `params`. -/
def modifyParam (position : Nat) (f : P → P) (e : Effect P) : Effect P :=
  let visit (p : P) : StateM Nat P := do
    let count ← get
    set (count + 1)
    return if count = position then f p else p
  ((e.mapM visit).run 0).1

/-- Appends a condition to a switch; no other effect takes one. -/
def addCondition? (condition : Condition P) : Effect P → Option (Effect P)
  | switch s => some (switch { s with conditions := s.conditions ++ [condition] })
  | _ => none

/-- Changes the waveform of an oscillator; no other effect has one. -/
def setWaveform? (waveform : Waveform) : Effect P → Option (Effect P)
  | oscillator o => some (oscillator { o with waveform })
  | _ => none

/-- Binds every coefficient of a filter to a constant; no other effect has any. -/
def setCoefficients? (c : Coefficients Float32) : Effect Param → Option (Effect Param)
  | biquad b =>
    let fixed (value : Float32) := Param.ofBinding (.constant value)
    some (biquad ⟨b.signal, fixed c.a1, fixed c.a2, fixed c.b0, fixed c.b1, fixed c.b2⟩)
  | _ => none

end Effect

end SynthRack
