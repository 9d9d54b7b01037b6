import Mathlib
import SynthRack.Proofs.Play.Watch
import SynthRack.Proofs.Rack.Ownership
import SynthRack.Proofs.Signal.Ring

/-!
# Samples stay within their registers

`Script.Within` says that a script reads registers of a rack's template, writes none that holds a
constant, uses buffers of the template, and draws noise only if the rack has a noise node.
`within_sample` proves it for the samples of every rack that is laid out. `watch_within` says what
follows: on a file that tracks the template the script passes all checks, its parameters read their
constants, and the file tracks the template afterwards. `watch_ok` puts this together for a whole
sample, reconciling included.
-/

namespace SynthRack

/-! ## Files that track a template -/

namespace RegisterFile.Tracks

variable {file : RegisterFile} {t : Template}

/-- A register that the template has can be read. -/
theorem read (h : file.Tracks t) {register : Nat} (hlt : register < t.size) :
    ∃ value, file.read (some register) = .ok value ∧ file.Holds register value := by
  have hfile : register < file.values.size := h.size ▸ hlt
  exact ⟨file.values[register], by simp [RegisterFile.read, hfile],
    Array.getElem?_eq_getElem hfile⟩

/-- A register that holds no constant is written. -/
theorem write (h : file.Tracks t) {register : Nat} (hlt : register < t.size)
    (hwritable : Builtin.count ≤ register →
      ∃ initial, t.slots[register]? = some ⟨initial, true⟩) (value : Float32) :
    ∃ after, file.write (some register) value = .ok after ∧ after.Tracks t := by
  have hfile : register < file.values.size := h.size ▸ hlt
  refine ⟨{ file with values := file.values.set register value }, by simp [RegisterFile.write, hfile],
    h.version, h.fingerprint, by simpa using h.size, h.persisted, h.bufferSeconds, h.capacities, ?_⟩
  intro other constant hge hslot
  have hne : register ≠ other := by
    rintro rfl
    obtain ⟨initial, hpersisted⟩ := hwritable hge
    cases hpersisted.symm.trans hslot
  rw [Holds, Array.getElem?_set_ne _ hne]
  exact h.constants other constant hge hslot

/-- Drawing noise changes nothing that the template asks for. -/
theorem draw (h : file.Tracks t) : file.drawNoise.2.Tracks t :=
  ⟨h.version, h.fingerprint, h.size, h.persisted, h.bufferSeconds, h.capacities, h.constants⟩

end RegisterFile.Tracks

/-- A buffer that the template has can be played, with any input, cursor and length. -/
theorem RegisterFile.Tracks.tick {file : RegisterFile} {t : Template} (h : file.Tracks t)
    {index : Nat} (hlt : index < t.bufferSeconds.size) (input : Float32) (cursor length : Nat) :
    ∃ ticked after, file.checkedTick (some index) input cursor length = .ok (ticked, after) ∧
      after.Tracks t := by
  have hsize : file.buffers.size = t.bufferSeconds.size := by
    simpa using congrArg Array.size h.capacities
  have hbuffer : index < file.buffers.size := hsize ▸ hlt
  have hticked := checked_tick_ok (Array.getElem?_eq_getElem hbuffer) input cursor length
  refine ⟨_, _, hticked, h.version, h.fingerprint, h.size, h.persisted, h.bufferSeconds, ?_,
    h.constants⟩
  have hcapacities : index < (file.buffers.map (·.capacity)).size := by
    rwa [Array.size_map]
  have hcapacity : file.buffers[index].capacity = (file.buffers.map (·.capacity))[index] := by
    rw [Array.getElem_map]
  rw [← h.capacities, Array.map_setIfInBounds, DelayLine.capacity_tick, hcapacity]
  simp only [Array.setIfInBounds, Array.size_map, hbuffer, dif_pos, Array.set_getElem_self]

/-! ## What a rack lets scripts use -/

namespace Rack

variable {rack : Rack}

/-- A parameter of a node, with its default. -/
def HasParam (rack : Rack) (p : Param × Float32) : Prop :=
  ∃ node ∈ rack.nodes, p ∈ node.effect.withDefaults.params

/-- The output or a private register of a node. -/
def HasState (rack : Rack) (register : Option Nat) : Prop :=
  ∃ index, register = some index ∧ rack.template.slots[index]? = some ⟨0, true⟩

/-- A buffer of the rack. -/
def HasBuffer (rack : Rack) (buffer : Option Nat) : Prop :=
  ∃ index, buffer = some index ∧ index < rack.template.bufferSeconds.size

/-- Some node of the rack makes noise. -/
def HasNoise (rack : Rack) : Prop := ∃ node ∈ rack.nodes, node.effect.type = .noise

/-- A parameter reads a register of the template; if it has one to itself, it is behind those of the
inputs and holds the constant or the default. -/
theorem LaidOut.param_register (h : rack.LaidOut) {p : Param × Float32} (hp : rack.HasParam p) :
    ∃ register, p.1.register = some register ∧ register < rack.template.size ∧
      ∀ value, p.1.binding.ownValue? p.2 = some value →
        Builtin.count ≤ register ∧ rack.template.slots[register]? = some ⟨value, false⟩ := by
  obtain ⟨node, hnode, hp⟩ := hp
  have hparam : p.1 ∈ node.effect.params := Effect.mem_params_iff.2 ⟨p.2, hp⟩
  have hlt {register : Nat} {slot : Slot} (hslot : rack.template.slots[register]? = some slot) :
      register < rack.template.size := (Array.getElem?_eq_some_iff.1 hslot).1
  rcases Binding.own_or_shared p.2 p.1.binding with ⟨value, hvalue⟩ | hshared
  · obtain ⟨register, hregister, -, hge, hslot⟩ := h.own_slot hnode hp hvalue
    refine ⟨register, hregister, hlt hslot, fun constant hconstant => ?_⟩
    obtain rfl := Option.some.inj (hvalue.symm.trans hconstant)
    exact ⟨hge, hslot⟩
  · obtain ⟨register, hregister, hslot⟩ : ∃ register, p.1.register = some register ∧
        register < rack.template.size := by
      cases hbinding : p.1.binding with
      | builtin input =>
          exact ⟨input.register, h.builtin_register hnode hparam hbinding, hlt (h.inputs input)⟩
      | node id =>
          obtain ⟨position, hplace, hregister⟩ := h.reference_register hnode hparam hbinding
          obtain ⟨other, hother, -⟩ := (hplace position).2 rfl
          have hposition := (List.getElem?_eq_some_iff.1 hother).1
          exact ⟨outputRegister position, hregister.trans (h.output_of_position hposition),
            hlt (h.outputs position hposition)⟩
      | _ =>
          rw [hbinding] at hshared
          cases hshared
    refine ⟨register, hregister, hslot, fun value hvalue => ?_⟩
    cases hvalue.symm.trans (Binding.own_value_eq_none hshared)

/-- The private registers of a node are persisted registers that start at zero. -/
theorem LaidOut.has_state (h : rack.LaidOut) {node : Node} (hnode : node ∈ rack.nodes) {index : Nat}
    (hindex : index < node.effect.type.stateCount) : rack.HasState (node.state index) := by
  obtain ⟨position, hposition⟩ := List.mem_iff_getElem?.1 hnode
  obtain ⟨state, buffer, hhome, hcount, hslots, -⟩ := (h.placed position node hposition).home
  have hlt : index < state.length := hcount ▸ hindex
  exact ⟨state[index], by simp [Node.state, hhome, hlt], hslots _ (List.getElem_mem hlt)⟩

/-- The output of a node is a persisted register that starts at zero. -/
theorem LaidOut.has_output (h : rack.LaidOut) {node : Node} (hnode : node ∈ rack.nodes) :
    rack.HasState node.output := by
  obtain ⟨position, hposition⟩ := List.mem_iff_getElem?.1 hnode
  obtain ⟨state, buffer, hhome, -⟩ := (h.placed position node hposition).home
  exact ⟨outputRegister position, by simp [Node.output, hhome],
    h.outputs position (List.getElem?_eq_some_iff.1 hposition).1⟩

/-- The buffer of a delay is a buffer of the rack. -/
theorem LaidOut.has_buffer (h : rack.LaidOut) {node : Node} (hnode : node ∈ rack.nodes)
    (hdelay : node.effect.type = .delay) : rack.HasBuffer node.buffer := by
  obtain ⟨index, hindex⟩ := Option.isSome_iff_exists.1 ((h.buffer_is_some hnode).2 hdelay)
  refine ⟨index, hindex, ?_⟩
  have hmem : index ∈ rack.nodes.flatMap (·.buffer.toList) :=
    List.mem_flatMap.2 ⟨node, hnode, by simp [hindex]⟩
  rwa [h.buffers, List.mem_range] at hmem

end Rack

/-- A node of the rack read a parameter of its own, and a constant as it stands in the rack. -/
structure ParamReading.Faithful (rack : Rack) (reading : ParamReading) : Prop where
  param : rack.HasParam (reading.param, reading.default)
  value : ∀ value, reading.param.binding.ownValue? reading.default = some value →
    reading.value = value

namespace Script

variable {α β : Type} {rack : Rack}

/-- The script uses what the rack lets it use, whatever it reads. -/
inductive Within (rack : Rack) : Script α → Prop
  | done (result : α) : Within rack (done result)
  | param {p : Param × Float32} {next : Float32 → Script α} (hparam : rack.HasParam p)
      (hnext : ∀ value, Within rack (next value)) : Within rack (param p next)
  | read {register : Option Nat} {next : Float32 → Script α} (hstate : rack.HasState register)
      (hnext : ∀ value, Within rack (next value)) : Within rack (read register next)
  | write {register : Option Nat} {value : Float32} {next : Script α}
      (hstate : rack.HasState register) (hnext : Within rack next) :
      Within rack (write register value next)
  | input {input : Builtin} {value : Float32} {next : Script α} (hnext : Within rack next) :
      Within rack (write (some input.register) value next)
  | noise {next : Float32 → Script α} (hnoise : rack.HasNoise)
      (hnext : ∀ sample, Within rack (next sample)) : Within rack (noise next)
  | tick {buffer : Option Nat} {input : Float32} {cursor length : Nat}
      {next : Float32 × Nat → Script α} (hbuffer : rack.HasBuffer buffer)
      (hnext : ∀ ticked, Within rack (next ticked)) :
      Within rack (tick buffer input cursor length next)

/-- A script that goes on with scripts within the bounds is within them if its beginning is. -/
theorem Within.bind {script : Script α} {next : α → Script β} (h : script.Within rack)
    (hnext : ∀ result, (next result).Within rack) : (script.bind next).Within rack := by
  induction h with
  | done result => exact hnext result
  | param hparam _ ih => exact .param hparam ih
  | read hstate _ ih => exact .read hstate ih
  | write hstate _ ih => exact .write hstate ih
  | input _ ih => exact .input ih
  | noise hnoise _ ih => exact .noise hnoise ih
  | tick hbuffer _ ih => exact .tick hbuffer ih

/-- A script within the bounds of a rack passes all checks and leaves the file in line. -/
theorem watch_within (hlaid : rack.LaidOut) {script : Script α} (h : script.Within rack)
    {file : RegisterFile} (htracks : file.Tracks rack.template) :
    ∃ result readings after, script.watch file = .ok (result, readings, after) ∧
      after.Tracks rack.template ∧ ∀ reading ∈ readings, reading.Faithful rack := by
  induction h generalizing file with
  | done result => exact ⟨result, [], file, rfl, htracks, by simp⟩
  | @param p next hparam _ ih =>
      obtain ⟨register, hregister, hlt, hconstant⟩ := hlaid.param_register hparam
      obtain ⟨value, hread, hholds⟩ := htracks.read hlt
      obtain ⟨result, readings, after, hwatch, hafter, hreadings⟩ := ih value htracks
      refine ⟨result, ⟨p.1, p.2, value⟩ :: readings, after, ?_, hafter,
        List.forall_mem_cons.2 ⟨⟨hparam, fun constant hvalue => ?_⟩, hreadings⟩⟩
      · rw [watch, hregister, hread, Checked.ofPlaying, Checked.ok_bind, hwatch]
        rfl
      · -- A constant's register holds the constant.
        obtain ⟨hge, hslot⟩ := hconstant constant hvalue
        exact Option.some.inj (hholds.symm.trans (htracks.constants register constant hge hslot))
  | read hstate _ ih =>
      obtain ⟨register, rfl, hslot⟩ := hstate
      obtain ⟨value, hread, -⟩ := htracks.read (Array.getElem?_eq_some_iff.1 hslot).1
      simp only [watch, hread, Checked.ofPlaying, Checked.ok_bind]
      exact ih value htracks
  | @write _ value _ hstate _ ih =>
      obtain ⟨register, rfl, hslot⟩ := hstate
      obtain ⟨written, hwrite, hwritten⟩ := htracks.write (Array.getElem?_eq_some_iff.1 hslot).1
        (fun _ => ⟨0, hslot⟩) value
      simp only [watch, hwrite, Checked.ofPlaying, Checked.ok_bind]
      exact ih hwritten
  | @input input value _ _ ih =>
      have hinput := input.register_lt
      obtain ⟨written, hwrite, hwritten⟩ :=
        htracks.write (Array.getElem?_eq_some_iff.1 (hlaid.inputs input)).1 (by omega) value
      simp only [watch, hwrite, Checked.ofPlaying, Checked.ok_bind]
      exact ih hwritten
  | noise _ _ ih => exact ih _ htracks.draw
  | @tick _ input cursor length _ hbuffer _ ih =>
      obtain ⟨index, rfl, hlt⟩ := hbuffer
      obtain ⟨ticked, played, htick, hplayed⟩ := htracks.tick hlt input cursor length
      simp only [watch, htick, Checked.ok_bind]
      exact ih ticked hplayed

/-! ## The scripts of nodes and samples -/

section Kernels

variable {dt : Float32}

/-- An oscillator stays within the bounds of its parameters and its phase. -/
theorem within_oscillator {o : Oscillator (Param × Float32)} {phase : Option Nat}
    (hparams : ∀ p ∈ (Effect.oscillator o).params, rack.HasParam p) (hphase : rack.HasState phase) :
    (oscillator o phase dt).Within rack := by
  simp only [Effect.params, List.forall_mem_cons] at hparams
  obtain ⟨hamplitude, hfrequency, hmultiplier, hshift, hoffset, -⟩ := hparams
  refine .param hamplitude fun amplitude => ?_
  split
  · exact .done 0
  · exact .read hphase fun _ => .param hshift fun _ => .param hfrequency fun _ =>
      .param hmultiplier fun _ => .write hphase (.param hoffset fun _ => .done _)

/-- An envelope stays within the bounds of its parameters, its stage and its level. -/
theorem within_envelope {e : Envelope (Param × Float32)} {stage level : Option Nat}
    (hparams : ∀ p ∈ (Effect.envelope e).params, rack.HasParam p) (hstage : rack.HasState stage)
    (hlevel : rack.HasState level) : (envelope e stage level dt).Within rack := by
  simp only [Effect.params, List.forall_mem_cons] at hparams
  obtain ⟨hsignal, hattack, hdecay, hsustain, hrelease, hshaped, -⟩ := hparams
  exact .param hattack fun _ => .param hdecay fun _ => .param hsustain fun _ =>
    .param hrelease fun _ => .read hstage fun _ => .param hsignal fun _ =>
      .read hlevel fun _ => .write hstage (.write hlevel (.param hshaped fun _ => .done _))

/-- A product stays within the bounds of its coefficients. -/
theorem within_product {coefficients : List (Param × Float32)}
    (hparams : ∀ p ∈ coefficients, rack.HasParam p) (so : Float32) :
    (product coefficients so).Within rack := by
  induction coefficients generalizing so with
  | nil => exact .done so
  | cons c rest ih =>
      rw [List.forall_mem_cons] at hparams
      exact .param hparams.1 fun _ => ih hparams.2 _

/-- A sum stays within the bounds of the coefficients of its terms. -/
theorem within_sum {terms : List (List (Param × Float32))}
    (hparams : ∀ p ∈ terms.flatten, rack.HasParam p) (so : Float32) :
    (sum terms so).Within rack := by
  induction terms generalizing so with
  | nil => exact .done so
  | cons term rest ih =>
      rw [List.flatten_cons, List.forall_mem_append] at hparams
      exact (within_product hparams.1 1).bind fun _ => ih hparams.2 _

/-- A switch stays within the bounds of its conditions and its fallback. -/
theorem within_choose {conditions : List (Condition (Param × Float32))}
    {fallback : Param × Float32}
    (hparams : ∀ p ∈ conditions.flatMap Condition.params ++ [fallback], rack.HasParam p) :
    (choose conditions fallback).Within rack := by
  induction conditions with
  | nil => exact .param (hparams fallback (by simp)) fun _ => .done _
  | cons c rest ih =>
      rw [List.flatMap_cons, List.append_assoc, List.forall_mem_append] at hparams
      obtain ⟨hcondition, hrest⟩ := hparams
      simp only [Condition.params, List.forall_mem_cons] at hcondition
      refine .param hcondition.1 fun a => .param hcondition.2.1 fun b => ?_
      split
      · exact .param hcondition.2.2.1 fun _ => .done _
      · exact ih hrest

/-- Noise stays within the bounds of its amplitude, in a rack that has noise. -/
theorem within_gated_noise {n : Noise (Param × Float32)} (hnoise : rack.HasNoise)
    (hamplitude : rack.HasParam n.amplitude) : (gatedNoise n).Within rack := by
  refine .param hamplitude fun amplitude => ?_
  split
  · exact .noise hnoise fun _ => .done _
  · exact .done 0

/-- A delay stays within the bounds of its parameters, its cursor and its buffer. -/
theorem within_delay {d : Delay (Param × Float32)} {cursor buffer : Option Nat}
    (hparams : ∀ p ∈ (Effect.delay d).params, rack.HasParam p) (hcursor : rack.HasState cursor)
    (hbuffer : rack.HasBuffer buffer) (sampleRate : Float32) :
    (delay d cursor buffer sampleRate).Within rack := by
  simp only [Effect.params, List.forall_mem_cons] at hparams
  obtain ⟨hsignal, hseconds, -⟩ := hparams
  exact .param hsignal fun _ => .param hseconds fun _ => .read hcursor fun _ =>
    .tick hbuffer fun _ => .write hcursor (.done _)

/-- A filter stays within the bounds of its parameters and its two taps. -/
theorem within_biquad {b : Biquad (Param × Float32)} {first second : Option Nat}
    (hparams : ∀ p ∈ (Effect.biquad b).params, rack.HasParam p) (hfirst : rack.HasState first)
    (hsecond : rack.HasState second) : (biquad b first second).Within rack := by
  simp only [Effect.params, List.forall_mem_cons] at hparams
  obtain ⟨hsignal, ha1, ha2, hb0, hb1, hb2, -⟩ := hparams
  exact .param ha1 fun _ => .param ha2 fun _ => .param hb0 fun _ => .param hb1 fun _ =>
    .param hb2 fun _ => .param hsignal fun _ => .read hfirst fun _ => .read hsecond fun _ =>
      .write hfirst (.write hsecond (.done _))

end Kernels

/-- A node of a rack that is laid out uses its own parameters, private registers and buffer. -/
theorem within_evaluate (hlaid : rack.LaidOut) (call : Call) {node : Node}
    (hnode : node ∈ rack.nodes) : (evaluate call node).Within rack := by
  have hparams : ∀ p ∈ node.effect.withDefaults.params, rack.HasParam p :=
    fun p hp => ⟨node, hnode, hp⟩
  have hstate {index : Nat} (hindex : index < node.effect.type.stateCount) :=
    hlaid.has_state hnode hindex
  have hbuffer := hlaid.has_buffer hnode
  obtain ⟨id, toDelete, enabled, home, effect⟩ := node
  cases effect with
  | oscillator o => exact within_oscillator hparams (hstate Nat.one_pos)
  | envelope e => exact within_envelope hparams (hstate Nat.two_pos) (hstate Nat.one_lt_two)
  | maths m => exact within_sum hparams (-0)
  | switch s => exact within_choose hparams
  | noise n =>
      exact within_gated_noise ⟨_, hnode, rfl⟩ (hparams (n.amplitude, 1) (List.mem_singleton_self _))
  | delay d => exact within_delay hparams (hstate Nat.one_pos) (hbuffer rfl) call.sampleRate
  | biquad b => exact within_biquad hparams (hstate Nat.two_pos) (hstate Nat.one_lt_two)

/-- Nodes of a rack stay within its bounds, one after another. -/
theorem within_nodes (hlaid : rack.LaidOut) (call : Call) {played : List Node}
    (hplayed : ∀ node ∈ played, node ∈ rack.nodes) : (nodes call played).Within rack := by
  induction played with
  | nil => exact .done ()
  | cons node rest ih =>
      rw [List.forall_mem_cons] at hplayed
      rw [nodes]
      split
      · exact (within_evaluate hlaid call hplayed.1).bind fun _ =>
          .write (hlaid.has_output hplayed.1) (ih hplayed.2)
      · exact ih hplayed.2

/-- Writing the inputs stays within the bounds of every rack. -/
theorem within_inputs (call : Call) (inputs : List Builtin) :
    (Script.inputs call inputs).Within rack := by
  induction inputs with
  | nil => exact .done ()
  | cons input rest ih => exact .input ih

/-- A sample stays within the bounds of a rack that is laid out. -/
theorem within_sample (hlaid : rack.LaidOut) (call : Call) {played : List Node}
    (hplayed : ∀ node ∈ played, node ∈ rack.nodes) : (sample call played).Within rack := by
  refine (within_inputs call Builtin.all).bind fun _ =>
    (within_nodes hlaid call hplayed).bind fun _ => ?_
  cases hlast : played.getLast? with
  | none => exact .done 0
  | some last =>
      exact .read (hlaid.has_output (hplayed last (List.mem_of_getLast? hlast))) fun _ => .done _

end Script

namespace Rack

/-- Only nodes of the rack are played. -/
theorem played_nodes_subset (rack : Rack) : ∀ node ∈ rack.playedNodes, node ∈ rack.nodes := by
  intro node hnode
  cases hcursor : rack.cursor with
  | none => simpa [playedNodes, hcursor] using hnode
  | some cursor =>
      simp only [playedNodes, hcursor] at hnode
      exact List.mem_of_mem_take hnode

/-- A sample of a compiled rack passes all checks on every file that can be brought in line with it,
and its parameters read their constants. -/
theorem watch_ok {rack : Rack} (hlaid : rack.LaidOut) (hcompiled : rack.isCompiled = true)
    {file : RegisterFile} (hready : file.Ready rack.template) (call : Call) :
    ∃ sample readings after, rack.watch call file = .ok (sample, readings, after) ∧
      after.Tracks rack.template ∧ ∀ reading ∈ readings, reading.Faithful rack := by
  rw [watch_eq hcompiled]
  exact Script.watch_within hlaid (Script.within_sample hlaid call rack.played_nodes_subset)
    (RegisterFile.tracks_reconcile hready call.sampleRate call.fresh)

end Rack

end SynthRack
