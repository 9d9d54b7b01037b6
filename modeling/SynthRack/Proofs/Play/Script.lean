import Mathlib
import SynthRack.Play.Step

/-!
# Samples as scripts

A function on register files does not show which registers it reads. A `Script` does: it is the
tree of everything that a sample does with the registers, the buffers and the noise of a voice.
`Script.play` plays a script on a register file, and `play_evaluate` and `play_sample` say that the
scripts of this module play as the nodes and the samples of a rack.
-/

namespace SynthRack

/-- A computation that uses the registers, the buffers and the noise of a voice one after another. -/
inductive Script (α : Type) where
  | done (result : α)
  /-- Reads a parameter, which stands with its default. -/
  | param (p : Param × Float32) (next : Float32 → Script α)
  | read (register : Option Nat) (next : Float32 → Script α)
  | write (register : Option Nat) (value : Float32) (next : Script α)
  | noise (next : Float32 → Script α)
  /-- Plays one sample through a buffer. -/
  | tick (buffer : Option Nat) (input : Float32) (cursor length : Nat)
      (next : Float32 × Nat → Script α)

namespace Script

variable {α β : Type}

/-- One script and then another. -/
def bind (script : Script α) (next : α → Script β) : Script β :=
  match script with
  | done result => next result
  | param p rest => param p fun value => (rest value).bind next
  | read register rest => read register fun value => (rest value).bind next
  | write register value rest => write register value (rest.bind next)
  | noise rest => noise fun sample => (rest sample).bind next
  | tick buffer input cursor length rest =>
    tick buffer input cursor length fun ticked => (rest ticked).bind next

/-- Plays a script on a register file. -/
def play : Script α → Play α
  | done result => return result
  | param p next => do
    let value ← Play.param p.1
    (next value).play
  | read register next => do
    let value ← Play.read register
    (next value).play
  | write register value next => do
    Play.write register value
    next.play
  | noise next => do
    let sample ← Play.noise
    (next sample).play
  | tick buffer input cursor length next => do
    let ticked ← Play.tickBuffer buffer input cursor length
    (next ticked).play

/-- Playing one script and then another plays the first and goes on from its result. -/
theorem play_bind (script : Script α) (next : α → Script β) :
    (script.bind next).play = script.play >>= fun result => (next result).play := by
  induction script with
  | done result => rfl
  | write register value rest ih =>
      simp only [bind, play, ih, bind_assoc]
  | _ =>
      rename_i ih
      simp only [bind, play, ih, bind_assoc]

/-! ## The scripts of nodes and samples -/

/-- A silent oscillator reads nothing but its amplitude and keeps its phase. The offset is read when
the next phase has been written. -/
def oscillator (o : Oscillator (Param × Float32)) (phase : Option Nat) (dt : Float32) :
    Script Float32 :=
  param o.amplitude fun amplitude =>
  if amplitude == 0 then done 0
  else
    read phase fun t =>
    param o.phase fun shift =>
    param o.frequency fun frequency =>
    param o.frequencyMult fun multiplier =>
    write phase (nextPhase frequency multiplier dt t) <|
    param o.offset fun offset =>
    done (o.waveform.output amplitude shift offset t)

/-- The envelope's level over the signal it shapes. -/
def envelope (e : Envelope (Param × Float32)) (stage level : Option Nat) (dt : Float32) :
    Script Float32 :=
  param e.attack fun attack =>
  param e.decay fun decay =>
  param e.sustain fun sustain =>
  param e.release fun release =>
  read stage fun current =>
  param e.signal fun gate =>
  read level fun height =>
  let times : Adsr Float32 := ⟨attack, decay, sustain, release⟩
  let (next, height) := times.advance (Stage.ofRegister current) height gate dt
  write stage next.register <|
  write level height <|
  param e.toModulate fun shaped =>
  done (height * shaped)

/-- The product of parameters, from one. -/
def product : List (Param × Float32) → Float32 → Script Float32
  | [], so => done so
  | c :: rest, so => param c fun value => product rest (so * value)

/-- The sum of products. -/
def sum : List (List (Param × Float32)) → Float32 → Script Float32
  | [], so => done so
  | term :: rest, so => (product term 1).bind fun value => sum rest (so + value)

/-- The result of the first condition that holds, else the fallback. -/
def choose (conditions : List (Condition (Param × Float32))) (fallback : Param × Float32) :
    Script Float32 :=
  match conditions with
  | [] => param fallback done
  | c :: rest =>
    param c.a fun a =>
    param c.b fun b =>
    if c.operator.test a b then param c.result done else choose rest fallback

/-- Full-scale noise while the amplitude is nonzero. -/
def gatedNoise (n : Noise (Param × Float32)) : Script Float32 :=
  param n.amplitude fun amplitude =>
  if 0 < amplitude.abs then noise done else done 0

/-- The sample stored the delay's length ago. -/
def delay (d : Delay (Param × Float32)) (cursor buffer : Option Nat) (sampleRate : Float32) :
    Script Float32 :=
  param d.signal fun input =>
  param d.seconds fun seconds =>
  read cursor fun place =>
  tick buffer input place.toUInt64.toNat (samplesFor seconds sampleRate) fun (out, next) =>
  write cursor next.toUInt64.toFloat32 (done out)

/-- One sample of a filter with the coefficients of this sample. -/
def biquad (b : Biquad (Param × Float32)) (first second : Option Nat) : Script Float32 :=
  param b.a1 fun a1 =>
  param b.a2 fun a2 =>
  param b.b0 fun b0 =>
  param b.b1 fun b1 =>
  param b.b2 fun b2 =>
  param b.signal fun signal =>
  read first fun z1 =>
  read second fun z2 =>
  let coefficients : Coefficients Float32 := ⟨a1, a2, b0, b1, b2⟩
  let (out, z1, z2) := coefficients.tick signal z1 z2
  write first z1 <|
  write second z2 <|
  done out

/-- The next sample of a node. -/
def evaluate (call : Call) (node : Node) : Script Float32 :=
  match node.effect.withDefaults with
  | .oscillator o => oscillator o (node.state 0) call.dt
  | .envelope e => envelope e (node.state 0) (node.state 1) call.dt
  | .maths m => sum m.terms (-0)
  | .switch s => choose s.conditions s.fallback
  | .noise n => gatedNoise n
  | .delay d => delay d (node.state 0) node.buffer call.sampleRate
  | .biquad b => biquad b (node.state 0) (node.state 1)

/-- Nodes in order; a disabled node keeps its last sample. -/
def nodes (call : Call) : List Node → Script Unit
  | [] => done ()
  | node :: rest =>
    if node.enabled then
      (evaluate call node).bind fun value => write node.output value (nodes call rest)
    else nodes call rest

/-- The inputs of a call. -/
def inputs (call : Call) : List Builtin → Script Unit
  | [] => done ()
  | input :: rest => write (some input.register) (call.input input) (inputs call rest)

/-- One sample of the nodes that are played. -/
def sample (call : Call) (played : List Node) : Script Float32 :=
  (inputs call Builtin.all).bind fun _ =>
  (nodes call played).bind fun _ =>
  match played.getLast? with
  | some last => read last.output done
  | none => done 0

/-! ## They play as the functions do -/

/-- The script of an oscillator plays as its kernel. -/
theorem play_oscillator (o : Oscillator (Param × Float32)) (phase : Option Nat) (dt : Float32) :
    (oscillator o phase dt).play =
      Play.oscillator ⟨o.waveform, o.amplitude.1, o.frequency.1, o.frequencyMult.1, o.phase.1,
        o.offset.1⟩ phase dt := by
  simp only [oscillator, play, Play.oscillator]
  congr 1
  funext amplitude
  split <;> rfl

/-- The script of a product plays as the product. -/
theorem play_product (coefficients : List (Param × Float32)) (so : Float32) :
    (product coefficients so).play = Play.product (coefficients.map Prod.fst) so := by
  induction coefficients generalizing so with
  | nil => rfl
  | cons c rest ih => simp only [product, play, ih, List.map_cons, Play.product]

/-- The script of a sum plays as the sum of products. -/
theorem play_sum (terms : List (List (Param × Float32))) (so : Float32) :
    (sum terms so).play = Play.sum (terms.map (·.map Prod.fst)) so := by
  induction terms generalizing so with
  | nil => rfl
  | cons term rest ih => simp only [sum, play_bind, play_product, ih, List.map_cons, Play.sum]

/-- The script of a switch plays as its choice. -/
theorem play_choose (conditions : List (Condition (Param × Float32)))
    (fallback : Param × Float32) :
    (choose conditions fallback).play =
      Play.choose (conditions.map (·.map Prod.fst)) fallback.1 := by
  induction conditions with
  | nil => exact bind_pure _
  | cons c rest ih =>
      simp only [choose, play, List.map_cons, Play.choose, Condition.map]
      congr 1
      funext a
      congr 1
      funext b
      split
      · exact bind_pure _
      · exact ih

/-- The script of noise plays as its kernel. -/
theorem play_gated_noise (n : Noise (Param × Float32)) :
    (gatedNoise n).play = Play.gatedNoise ⟨n.amplitude.1⟩ := by
  simp only [gatedNoise, play, Play.gatedNoise]
  congr 1
  funext amplitude
  split
  · exact bind_pure _
  · rfl

/-- The script of a node plays as the node. -/
theorem play_evaluate (call : Call) (node : Node) :
    (evaluate call node).play = Play.evaluate call node := by
  obtain ⟨id, toDelete, enabled, home, effect⟩ := node
  cases effect with
  | oscillator o => exact play_oscillator _ _ _
  | envelope e => rfl
  | maths m =>
      refine (play_sum _ _).trans ?_
      simp [Play.evaluate, Function.comp_def]
  | switch s =>
      refine (play_choose _ _).trans ?_
      simp [Play.evaluate, Function.comp_def, Condition.map]
  | noise n => exact play_gated_noise _
  | delay d => rfl
  | biquad b => rfl

/-- The scripts of nodes, one after another, play as the nodes. -/
theorem play_nodes (call : Call) (played : List Node) :
    (nodes call played).play = Play.nodes call played := by
  induction played with
  | nil => rfl
  | cons node rest ih =>
      cases henabled : node.enabled <;>
        simp [nodes, Play.nodes, henabled, play_bind, play_evaluate, play, ih]

/-- The script that writes the inputs plays as writing them. -/
theorem play_inputs (call : Call) (inputs : List Builtin) :
    (Script.inputs call inputs).play = Play.inputs call inputs := by
  induction inputs with
  | nil => rfl
  | cons input rest ih => simp only [Script.inputs, play, ih, Play.inputs]

/-- The script of a sample plays as the sample. -/
theorem play_sample (call : Call) (played : List Node) :
    (sample call played).play = (do
      Play.inputs call Builtin.all
      Play.nodes call played
      match played.getLast? with
      | some last => Play.read last.output
      | none => return 0 : Play Float32) := by
  simp only [sample, play_bind, play_inputs, play_nodes]
  cases played.getLast? with
  | none => rfl
  | some last => simp [play]

end Script

end SynthRack
