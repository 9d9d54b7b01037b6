import SynthRack.Signal.Envelope
import SynthRack.Signal.Filter
import SynthRack.Play.RegisterFile

/-!
# Playing one sample

`step` plays one sample of a compiled rack on one register file. Nodes run in list order and are
not sorted by what they read: a node that reads a later node, or itself, reads the sample before.
That is how feedback works. The sample played is the output of the last node considered.
-/

namespace SynthRack

/-- What a call hands to every node. -/
structure Call where
  frequency : Float32
  signal : Float32
  sampleRate : Float32
  /-- The first sample of a note. -/
  fresh : Bool

namespace Call

/-- Gates above this size count as held. -/
def signalEpsilon : Float32 := 1e-7

/-- The length of a sample in seconds. -/
@[inline] def dt (call : Call) : Float32 := 1 / call.sampleRate

/-- One while the gate is held, else zero. -/
@[inline] def signalRaw (call : Call) : Float32 :=
  if signalEpsilon < call.signal.abs then 1 else 0

/-- The value of an input in this call. -/
def input (call : Call) : Builtin → Float32
  | .keyFrequency => call.frequency
  | .signal => call.signal
  | .sampleDt => call.dt
  | .signalRaw => call.signalRaw

end Call

/-- Computations on a register file that may fault. -/
abbrev Play := StateT RegisterFile (Except Fault)

namespace Play

/-- Reads a register. -/
@[inline] def read (register : Option Nat) : Play Float32 := fun file =>
  match file.read register with
  | .ok value => .ok (value, file)
  | .error fault => .error fault

/-- Writes a register. -/
@[inline] def write (register : Option Nat) (value : Float32) : Play Unit := fun file =>
  match file.write register value with
  | .ok file => .ok ((), file)
  | .error fault => .error fault

/-- Reads the value of a parameter. -/
@[inline] def param (p : Param) : Play Float32 := read p.register

/-- Draws the next sample of noise. -/
@[inline] def noise : Play Float32 := fun file => .ok file.drawNoise

/-- Plays one sample through a buffer. -/
@[inline] def tickBuffer (buffer : Option Nat) (input : Float32) (cursor length : Nat) :
    Play (Float32 × Nat) := fun file =>
  file.tickBuffer buffer input cursor length

/-- A silent oscillator reads nothing but its amplitude and keeps its phase. The offset is read when
the next phase has been written. -/
@[inline] def oscillator (o : Oscillator Param) (phase : Option Nat) (dt : Float32) :
    Play Float32 := do
  let amplitude ← param o.amplitude
  if amplitude == 0 then return 0
  let t ← read phase
  let shift ← param o.phase
  let frequency ← param o.frequency
  let multiplier ← param o.frequencyMult
  write phase (nextPhase frequency multiplier dt t)
  let offset ← param o.offset
  return o.waveform.output amplitude shift offset t

/-- The envelope's level over the signal it shapes. -/
@[inline] def envelope (e : Envelope Param) (stage level : Option Nat) (dt : Float32) :
    Play Float32 := do
  let attack ← param e.attack
  let decay ← param e.decay
  let sustain ← param e.sustain
  let release ← param e.release
  let current ← read stage
  let gate ← param e.signal
  let height ← read level
  let times : Adsr Float32 := ⟨attack, decay, sustain, release⟩
  let (next, height) := times.advance (Stage.ofRegister current) height gate dt
  write stage next.register
  write level height
  let shaped ← param e.toModulate
  return height * shaped

/-- The product of parameters, from one. -/
def product (coefficients : List Param) (so : Float32) : Play Float32 :=
  match coefficients with
  | [] => return so
  | c :: rest => do
    let value ← param c
    product rest (so * value)

/-- The sum of products. -/
def sum (terms : List (List Param)) (so : Float32) : Play Float32 :=
  match terms with
  | [] => return so
  | term :: rest => do
    let value ← product term 1
    sum rest (so + value)

/-- The result of the first condition that holds, else the fallback. Later conditions are not
read. -/
def choose (conditions : List (Condition Param)) (fallback : Param) : Play Float32 :=
  match conditions with
  | [] => param fallback
  | c :: rest => do
    let a ← param c.a
    let b ← param c.b
    if c.operator.test a b then param c.result else choose rest fallback

/-- Full-scale noise while the amplitude is nonzero. -/
@[inline] def gatedNoise (n : Noise Param) : Play Float32 := do
  let amplitude ← param n.amplitude
  if 0 < amplitude.abs then noise else return 0

/-- The sample stored the delay's length ago. -/
@[inline] def delay (d : Delay Param) (cursor buffer : Option Nat) (sampleRate : Float32) :
    Play Float32 := do
  let input ← param d.signal
  let seconds ← param d.seconds
  let place ← read cursor
  let (out, next) ← tickBuffer buffer input place.toUInt64.toNat (samplesFor seconds sampleRate)
  write cursor next.toUInt64.toFloat32
  return out

/-- One sample of a filter with the coefficients of this sample. -/
@[inline] def biquad (b : Biquad Param) (first second : Option Nat) : Play Float32 := do
  let a1 ← param b.a1
  let a2 ← param b.a2
  let b0 ← param b.b0
  let b1 ← param b.b1
  let b2 ← param b.b2
  let signal ← param b.signal
  let z1 ← read first
  let z2 ← read second
  let coefficients : Coefficients Float32 := ⟨a1, a2, b0, b1, b2⟩
  let (out, z1, z2) := coefficients.tick signal z1 z2
  write first z1
  write second z2
  return out

/-- The next sample of a node. -/
def evaluate (call : Call) (node : Node) : Play Float32 :=
  match node.effect with
  | .oscillator o => oscillator o (node.state 0) call.dt
  | .envelope e => envelope e (node.state 0) (node.state 1) call.dt
  | .maths m => sum m.terms (-0)
  | .switch s => choose s.conditions s.fallback
  | .noise n => gatedNoise n
  | .delay d => delay d (node.state 0) node.buffer call.sampleRate
  | .biquad b => biquad b (node.state 0) (node.state 1)

/-- Plays the nodes in order; a disabled node keeps its last sample. -/
def nodes (call : Call) : List Node → Play Unit
  | [] => return ()
  | node :: rest => do
    if node.enabled then
      let value ← evaluate call node
      write node.output value
    nodes call rest

/-- Writes the inputs of a call into their registers. -/
def inputs (call : Call) : List Builtin → Play Unit
  | [] => return ()
  | input :: rest => do
    write (some input.register) (call.input input)
    inputs call rest

end Play

namespace Rack

/-- The nodes that are played: up to the cursor, if it is set. -/
def playedNodes (rack : Rack) : List Node :=
  match rack.cursor with
  | some cursor => rack.nodes.take (cursor + 1)
  | none => rack.nodes

/-- Plays one sample. -/
def step (rack : Rack) (call : Call) : Play Float32 := do
  unless rack.isCompiled do throw .notCompiled
  modify (·.reconcile rack.template call.sampleRate call.fresh)
  Play.inputs call Builtin.all
  let played := rack.playedNodes
  Play.nodes call played
  match played.getLast? with
  | some last => Play.read last.output
  | none => return 0

end Rack

end SynthRack
