import Mathlib
import SynthRack.Play.Step
import SynthRack.Proofs.Rack.Placement

/-!
# The dataflow reading of a rack

A rack can be read without registers: every node has a `Cell` with its last sample and its private
state, and a parameter is the number its binding names. `Rack.sample` plays one sample of that
reading and `Rack.samples` a sequence of calls. Of a compiled rack it uses the bindings, the IDs, the
flags and the cursor, and neither registers nor positions.
-/

namespace SynthRack

/-- What a node remembers from one sample to the next. A kind of effect uses the fields that belong
to it. -/
structure Cell where
  output : Float32
  /-- An oscillator's phase. -/
  phase : Float32
  /-- An envelope's stage and level. -/
  stage : Stage
  level : Float32
  /-- A delay's place in its memory, and the memory. -/
  cursor : Float32
  line : DelayLine
  /-- A filter's taps. -/
  z1 : Float32
  z2 : Float32

/-- One voice in the dataflow reading. -/
structure Dataflow where
  /-- The cell of the node at each position. -/
  cells : Nat → Cell
  /-- The rate that the delay memories are made for; none before the first sample. -/
  rate : Option Float32
  noise : NoiseSource

namespace Cell

/-- The cell of a node that was never played. -/
def initial : Cell := ⟨0, 0, .attack, 0, 0, .empty, 0, 0⟩

/-- The cell after a fresh trigger: initial, with its memory silenced. -/
def restart (cell : Cell) : Cell := { initial with line := cell.line.clear }

end Cell

namespace Dataflow

/-- A voice that was never played. -/
def start (seed : UInt64) : Dataflow := ⟨fun _ => .initial, none, .ofSeed seed⟩

/-- Whether the delay memories are made for another rate. -/
def rateDiffers (flow : Dataflow) (sampleRate : Float32) : Bool :=
  match flow.rate with
  | some rate => rate != sampleRate
  | none => true

end Dataflow

/-- One sample of an effect from the numbers at its parameters: the sample, the private state for
the next one, and the noise that is left. -/
def Effect.respond (call : Call) (cell : Cell) (noise : NoiseSource) :
    Effect Float32 → Float32 × Cell × NoiseSource
  | oscillator o =>
    if o.amplitude == 0 then (0, cell, noise)
    else
      let (out, phase) := o.waveform.play o.amplitude o.frequency o.frequencyMult o.phase o.offset
        call.dt cell.phase
      (out, { cell with phase }, noise)
  | envelope e =>
    let times : Adsr Float32 := ⟨e.attack, e.decay, e.sustain, e.release⟩
    let (stage, level) := times.advance cell.stage cell.level e.signal call.dt
    (level * e.toModulate, { cell with stage, level }, noise)
  | maths m => (m.terms.foldl (fun so term => so + term.foldl (· * ·) 1) (-0), cell, noise)
  | switch s =>
    match s.conditions.find? fun c => c.operator.test c.a c.b with
    | some c => (c.result, cell, noise)
    | none => (s.fallback, cell, noise)
  | .noise n =>
    if 0 < n.amplitude.abs then (noise.next.1, cell, noise.next.2) else (0, cell, noise)
  | delay d =>
    let (out, next, line) :=
      cell.line.tick d.signal cell.cursor.toUInt64.toNat (samplesFor d.seconds call.sampleRate)
    (out, { cell with cursor := next.toUInt64.toFloat32, line }, noise)
  | biquad b =>
    let coefficients : Coefficients Float32 := ⟨b.a1, b.a2, b.b0, b.b1, b.b2⟩
    let (out, z1, z2) := coefficients.tick b.signal cell.z1 cell.z2
    (out, { cell with z1, z2 }, noise)

namespace Rack

/-- The number at a parameter: a reference is the last sample of the node with that ID. -/
def value (rack : Rack) (call : Call) (cells : Nat → Cell) (default : Float32) :
    Binding → Float32
  | .unset => default
  | .constant number => number
  | .builtin input => call.input input
  | .node id =>
    match rack.nodes.findIdx? (·.id == some id) with
    | some position => (cells position).output
    | none => default

/-- The empty delay memory of the node at a position. -/
def memory (rack : Rack) (sampleRate : Float32) (position : Nat) : DelayLine :=
  match rack.nodes[position]?.bind (·.effect.bufferNeed?) with
  | some seconds => .silent (samplesFor seconds sampleRate)
  | none => .empty

/-- A fresh trigger starts every cell over, and another rate empties every memory. -/
def prepare (rack : Rack) (call : Call) (flow : Dataflow) : Dataflow :=
  let cells := if call.fresh then fun position => (flow.cells position).restart else flow.cells
  if flow.rateDiffers call.sampleRate then
    { flow with
      cells := fun position => { cells position with line := rack.memory call.sampleRate position }
      rate := some call.sampleRate }
  else { flow with cells }

/-- Plays the node at a position; a disabled node keeps its last sample. -/
def playNode (rack : Rack) (call : Call) (flow : Dataflow) (node : Node) (position : Nat) :
    Dataflow :=
  if node.enabled then
    let numbers := node.effect.withDefaults.map fun (param, default) =>
      rack.value call flow.cells default param.binding
    let (output, cell, noise) := numbers.respond call (flow.cells position) flow.noise
    { flow with cells := Function.update flow.cells position { cell with output }, noise }
  else flow

/-- Plays nodes in order, the first of them at a position. -/
def playFrom (rack : Rack) (call : Call) : List Node → Nat → Dataflow → Dataflow
  | [], _, flow => flow
  | node :: rest, position, flow =>
    rack.playFrom call rest (position + 1) (rack.playNode call flow node position)

/-- One sample: the last sample of the last node considered, and the voice after it. -/
def sample (rack : Rack) (call : Call) (flow : Dataflow) : Float32 × Dataflow :=
  let played := rack.playedNodes
  let flow := rack.playFrom call played 0 (rack.prepare call flow)
  (if played = [] then 0 else (flow.cells (played.length - 1)).output, flow)

/-- The samples of calls one after another. -/
def samples (rack : Rack) : List Call → Dataflow → List Float32
  | [], _ => []
  | call :: calls, flow =>
    let (out, flow) := rack.sample call flow
    out :: rack.samples calls flow

/-- Playing nodes leaves the rate as it is. -/
theorem rate_play_node (rack : Rack) (call : Call) (flow : Dataflow) (node : Node) (position : Nat) :
    (rack.playNode call flow node position).rate = flow.rate := by
  rw [playNode]
  split <;> rfl

/-- Playing nodes changes the rate of no delay memory. -/
theorem rate_play_from (rack : Rack) (call : Call) (nodes : List Node) (position : Nat)
    (flow : Dataflow) : (rack.playFrom call nodes position flow).rate = flow.rate := by
  induction nodes generalizing position flow with
  | nil => rfl
  | cons node rest ih => exact (ih _ _).trans (rack.rate_play_node call flow node position)

end Rack

end SynthRack
