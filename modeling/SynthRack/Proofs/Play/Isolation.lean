import Mathlib
import SynthRack.Proofs.Play.Simulation
import SynthRack.Proofs.Play.Studio
import SynthRack.Proofs.Rack.Wiring

/-!
# A node depends on the nodes that feed it

Two racks `AgreeOn` some positions when the nodes there are wired alike and refer to
each other alone. The dataflow readings of such racks stay `Aligned` there, whatever the other nodes
are: playing one node keeps that (`Aligned.play_node`), and so does a sample (`in_step_sample`) and a
run of calls (`in_step_run`). `sound_of_feeding_nodes` says so for all voices of a studio.
-/

namespace SynthRack

namespace Source

/-- The number that a source gives. -/
def value (call : Call) (cells : Nat → Cell) : Source → Float32
  | constant number => number
  | input builtin => call.input builtin
  | node position => (cells position).output

/-- The duration that a delay asks for when its length comes from this source. -/
def requestedSeconds : Source → Float32
  | constant number => number
  | input _ | node _ => maxDelaySeconds

end Source

/-- The duration of the buffer that an effect needs, if it needs one. -/
def Effect.sourceNeed? : Effect Source → Option Float32
  | .delay d => some (bufferedSeconds d.seconds.requestedSeconds)
  | _ => none

namespace Rack

/-- The racks have nodes that are wired alike at some positions. These nodes refer to each other
alone, and none of them makes noise. -/
structure AgreeOn (left right : Rack) (positions : Set Nat) : Prop where
  count : left.nodes.length = right.nodes.length
  enabled : ∀ p ∈ positions, left.nodes[p]?.map (·.enabled) = right.nodes[p]?.map (·.enabled)
  wiring : ∀ p ∈ positions, left.nodes[p]?.map left.wiring = right.nodes[p]?.map right.wiring
  closed : ∀ p ∈ positions, ∀ node, left.nodes[p]? = some node →
    ∀ q, .node q ∈ (left.wiring node).params → q ∈ positions
  quiet : ∀ p ∈ positions, ∀ node, left.nodes[p]? = some node → node.effect.type ≠ .noise
  leftCursor : left.cursor = none
  rightCursor : right.cursor = none

/-- On a list of positions, agreement can be checked. -/
theorem agree_on_iff {left right : Rack} {positions : List Nat} :
    left.AgreeOn right {p | p ∈ positions} ↔
      left.nodes.length = right.nodes.length ∧ left.cursor = none ∧ right.cursor = none ∧
      ∀ p ∈ positions,
        left.nodes[p]?.map (·.enabled) = right.nodes[p]?.map (·.enabled) ∧
        left.nodes[p]?.map left.wiring = right.nodes[p]?.map right.wiring ∧
        ∀ node ∈ left.nodes[p]?, node.effect.type ≠ .noise ∧
          ∀ source ∈ (left.wiring node).params, match source with
            | .node q => q ∈ positions
            | _ => True := by
  refine ⟨fun h => ⟨h.count, h.leftCursor, h.rightCursor, fun p hp => ?_⟩,
    fun ⟨hcount, hleft, hright, h⟩ => ?_⟩
  · refine ⟨h.enabled p hp, h.wiring p hp, fun node hnode => ⟨h.quiet p hp node hnode, ?_⟩⟩
    intro source hsource
    cases source with
    | node q => exact h.closed p hp node hnode q hsource
    | _ => trivial
  · exact ⟨hcount, fun p hp => (h p hp).1, fun p hp => (h p hp).2.1,
      fun p hp node hnode q hq => ((h p hp).2.2 node hnode).2 (.node q) hq,
      fun p hp node hnode => ((h p hp).2.2 node hnode).1, hleft, hright⟩

instance (left right : Rack) (positions : List Nat) :
    Decidable (left.AgreeOn right {p | p ∈ positions}) :=
  have (source : Source) : Decidable (match source with
      | .node q => q ∈ positions
      | _ => True) := by
    cases source <;> infer_instance
  decidable_of_iff _ agree_on_iff.symm

/-- The number at a parameter is that of its source. -/
theorem value_of_source (rack : Rack) (call : Call) (cells : Nat → Cell) (default : Float32)
    (binding : Binding) :
    rack.value call cells default binding = (rack.source default binding).value call cells := by
  cases binding with
  | node id =>
      rw [value, source]
      cases rack.nodes.findIdx? (·.id == some id) <;> rfl
  | _ => rfl

/-- The numbers that a node plays are those of its sources. -/
theorem numbers_of_wiring (rack : Rack) (call : Call) (cells : Nat → Cell) (node : Node) :
    (node.effect.withDefaults.map fun p => rack.value call cells p.2 p.1.binding) =
      (rack.wiring node).map (·.value call cells) := by
  rw [wiring, Effect.map_map]
  exact Effect.map_congr fun p _ => rack.value_of_source call cells p.2 p.1.binding

/-- What buffer a node needs shows in its wiring. -/
theorem LaidOut.buffer_need {rack : Rack} (h : rack.LaidOut) {node : Node}
    (hnode : node ∈ rack.nodes) : node.effect.bufferNeed? = (rack.wiring node).sourceNeed? := by
  obtain ⟨id, toDelete, enabled, home, effect⟩ := node
  cases effect with
  | delay d =>
      have hp : (d.seconds, 0.1) ∈ (Effect.delay d).withDefaults.params :=
        List.mem_cons_of_mem _ (List.mem_singleton.2 rfl)
      have hbinding := (h.param_placed hnode hp).binding
      show some (bufferedSeconds _) = some (bufferedSeconds (rack.source 0.1 _).requestedSeconds)
      cases hseconds : d.seconds.binding with
      | node other =>
          -- A reference that is still there leads to a node.
          obtain ⟨position, hposition⟩ : ∃ position, rack.positions[other]? = some position := by
            by_cases hlt : other < rack.positions.size
            · exact ⟨_, Array.getElem?_eq_getElem hlt⟩
            · simp [hseconds, Binding.resolved, hlt] at hbinding
          simp only [source, h.find_id hposition]
          rfl
      | _ => rfl
  | _ => rfl

/-- The delay memory of a node shows in its wiring. -/
theorem LaidOut.memory_eq {rack : Rack} (h : rack.LaidOut) (sampleRate : Float32) (position : Nat) :
    rack.memory sampleRate position =
      match (rack.nodes[position]?.map rack.wiring).bind Effect.sourceNeed? with
      | some seconds => .silent (samplesFor seconds sampleRate)
      | none => .empty := by
  rw [memory]
  cases hnode : rack.nodes[position]? with
  | none => rfl
  | some node =>
      have hneed := h.buffer_need (List.mem_of_getElem? hnode)
      cases hwired : (rack.wiring node).sourceNeed? with
      | none => simp only [Option.bind_some, Option.map_some, hneed, hwired]
      | some seconds => simp only [Option.bind_some, Option.map_some, hneed, hwired]

/-- Playing a node leaves the cells of the others alone. -/
theorem play_node_elsewhere (rack : Rack) (call : Call) (flow : Dataflow) (node : Node)
    {position other : Nat} (h : other ≠ position) :
    (rack.playNode call flow node position).cells other = flow.cells other := by
  simp only [playNode]
  split
  · exact Function.update_of_ne h ..
  · rfl

/-- The cell of a node after it was played. -/
theorem play_node_here (rack : Rack) (call : Call) (flow : Dataflow) (node : Node)
    (position : Nat) :
    (rack.playNode call flow node position).cells position =
      if node.enabled then
        let played := ((rack.wiring node).map (·.value call flow.cells)).respond call
          (flow.cells position) flow.noise
        { played.2.1 with output := played.1 }
      else flow.cells position := by
  rw [← rack.numbers_of_wiring call flow.cells node]
  simp only [playNode]
  split
  · exact Function.update_self ..
  · rfl

end Rack

/-- An effect that makes no noise does not look at the noise. -/
theorem respond_quiet {effect : Effect Float32} (h : effect.type ≠ .noise) (call : Call)
    (cell : Cell) (noise other : NoiseSource) :
    (effect.respond call cell noise).1 = (effect.respond call cell other).1 ∧
      (effect.respond call cell noise).2.1 = (effect.respond call cell other).2.1 := by
  cases effect with
  | noise n => exact absurd rfl h
  | oscillator o =>
      simp only [Effect.respond]
      split <;> exact ⟨rfl, rfl⟩
  | switch s =>
      simp only [Effect.respond]
      split <;> exact ⟨rfl, rfl⟩
  | _ => exact ⟨rfl, rfl⟩

/-! ## Two dataflow readings -/

/-- The readings have the same cells at some positions, and their delay memories are made for the same
rate. -/
structure Aligned (positions : Set Nat) (l r : Dataflow) : Prop where
  cells : ∀ p ∈ positions, l.cells p = r.cells p
  rate : ∀ sampleRate, l.rateDiffers sampleRate = r.rateDiffers sampleRate

section Flows

variable {left right : Rack} {positions : Set Nat} {l r : Dataflow} {x y : Node}

/-- Racks that agree at some positions have delay memories of one length there. -/
theorem Rack.AgreeOn.memory (h : left.AgreeOn right positions) (hleft : left.LaidOut)
    (hright : right.LaidOut) (sampleRate : Float32) :
    ∀ p ∈ positions, left.memory sampleRate p = right.memory sampleRate p := by
  intro p hp
  rw [hleft.memory_eq, hright.memory_eq, h.wiring p hp]

namespace Aligned

/-- Playing the nodes at one position keeps the readings aligned. -/
theorem play_node (h : Aligned positions l r) (hagree : left.AgreeOn right positions) {position : Nat}
    (hx : left.nodes[position]? = some x) (hy : right.nodes[position]? = some y) (call : Call) :
    Aligned positions (left.playNode call l x position) (right.playNode call r y position) where
  rate sampleRate := by
    have hrate := h.rate sampleRate
    simpa only [Dataflow.rateDiffers, Rack.rate_play_node] using hrate
  cells p hp := by
    by_cases hne : p ≠ position
    · rw [left.play_node_elsewhere call l x hne, right.play_node_elsewhere call r y hne, h.cells p hp]
    obtain rfl : p = position := not_not.1 hne
    have henabled : x.enabled = y.enabled := by
      simpa [hx, hy] using hagree.enabled p hp
    have hwiring : left.wiring x = right.wiring y := by
      simpa [hx, hy] using hagree.wiring p hp
    -- A node reads constants, inputs, and outputs of nodes that have the same cells.
    have hnumbers : (left.wiring x).map (·.value call l.cells) =
        (right.wiring y).map (·.value call r.cells) := by
      rw [← hwiring]
      refine Effect.map_congr fun source hsource => ?_
      cases source with
      | node q => exact congrArg Cell.output (h.cells q (hagree.closed p hp x hx q hsource))
      | _ => rfl
    have hquiet : ((right.wiring y).map (·.value call r.cells)).type ≠ .noise := by
      rw [Effect.type_map, ← hwiring, left.type_wiring]
      exact hagree.quiet p hp x hx
    obtain ⟨houtput, hcell⟩ := respond_quiet hquiet call (r.cells p) l.noise r.noise
    rw [left.play_node_here, right.play_node_here, henabled, hnumbers, h.cells p hp]
    simp only [houtput, hcell]

/-- So does playing a stretch of nodes that stand at the same positions. -/
theorem play_from (h : Aligned positions l r) (hagree : left.AgreeOn right positions) (call : Call)
    {xs ys : List Node} {position : Nat} (hlength : xs.length = ys.length)
    (hxs : ∀ (index : Nat) (node : Node), xs[index]? = some node →
      left.nodes[position + index]? = some node)
    (hys : ∀ (index : Nat) (node : Node), ys[index]? = some node →
      right.nodes[position + index]? = some node) :
    Aligned positions (left.playFrom call xs position l) (right.playFrom call ys position r) := by
  induction xs generalizing ys position l r with
  | nil =>
      obtain rfl : ys = [] := List.length_eq_zero_iff.1 hlength.symm
      exact h
  | cons x xs ih =>
      obtain ⟨y, ys, rfl⟩ : ∃ y rest, ys = y :: rest := List.exists_cons_of_length_eq_add_one hlength.symm
      have hnext := h.play_node hagree (hxs 0 x rfl) (hys 0 y rfl) call
      refine ih hnext (Nat.succ.inj hlength) ?_ ?_ <;> intro index node hnode <;>
        rw [Nat.add_assoc, Nat.add_comm 1 index]
      · exact hxs (index + 1) node hnode
      · exact hys (index + 1) node hnode

/-- A fresh trigger and another rate do the same to both. -/
theorem prepare (h : Aligned positions l r) (hagree : left.AgreeOn right positions)
    (hleft : left.LaidOut) (hright : right.LaidOut) (call : Call) :
    Aligned positions (left.prepare call l) (right.prepare call r) := by
  have hmemory := hagree.memory hleft hright call.sampleRate
  simp only [Rack.prepare, h.rate call.sampleRate]
  split
  case isTrue =>
    refine ⟨fun p hp => ?_, fun sampleRate => rfl⟩
    cases call.fresh <;> simp [Cell.restart, hmemory p hp, h.cells p hp]
  case isFalse =>
    refine ⟨fun p hp => ?_, h.rate⟩
    cases call.fresh <;> simp [h.cells p hp]

end Aligned

end Flows

/-! ## Two voices -/

/-- The output register of a node holds a value. -/
def RegisterFile.Sounds (file : RegisterFile) (node : Node) (value : Float32) : Prop :=
  ∃ register, node.output = some register ∧ file.Holds register value

/-- The voices are in the states of aligned readings. -/
def InStep (left right : Rack) (positions : Set Nat) (file other : RegisterFile) : Prop :=
  ∃ l r, Running left file l ∧ Running right other r ∧ Aligned positions l r

section Voices

variable {left right : Rack} {positions : Set Nat} {file other : RegisterFile}

/-- The nodes at positions where the racks agree have the same outputs. -/
theorem InStep.outputs (h : InStep left right positions file other) (hleft : left.LaidOut)
    (hright : right.LaidOut) {p : Nat} (hp : p ∈ positions) {x y : Node}
    (hx : left.nodes[p]? = some x) (hy : right.nodes[p]? = some y) :
    ∃ value, file.Sounds x value ∧ other.Sounds y value := by
  obtain ⟨l, r, hl, hr, haligned⟩ := h
  obtain ⟨home, hheld⟩ := node_held hleft hl hx
  obtain ⟨otherHome, hother⟩ := node_held hright hr hy
  refine ⟨(l.cells p).output, ⟨home.output, ?_, hheld.output⟩, otherHome.output, ?_, ?_⟩
  · rw [Node.output, hheld.placed, Option.map_some]
  · rw [Node.output, hother.placed, Option.map_some]
  · rw [haligned.cells p hp]
    exact hother.output

/-- One call, for voices that reconciling brings in step. -/
theorem in_step_sample (hagree : left.AgreeOn right positions) (hleft : left.LaidOut)
    (hright : right.LaidOut) (hleftCompiled : left.isCompiled = true)
    (hrightCompiled : right.isCompiled = true) (call : Call)
    (h : InStep left right positions (file.reconcile left.template call.sampleRate call.fresh)
      (other.reconcile right.template call.sampleRate call.fresh)) :
    ∃ sample after sample' after', left.step call file = .ok (sample, after) ∧
      right.step call other = .ok (sample', after') ∧ InStep left right positions after after' := by
  obtain ⟨l, r, hl, hr, haligned⟩ := h
  obtain ⟨after, hstep, hafter⟩ := sounding_step hleft hleftCompiled call hl
  obtain ⟨after', hstep', hafter'⟩ := sounding_step hright hrightCompiled call hr
  refine ⟨_, after, _, after', hstep, hstep', _, _, hafter.toRunning, hafter'.toRunning, ?_⟩
  have hplayed : left.playedNodes = left.nodes := by rw [Rack.playedNodes, hagree.leftCursor]
  have hplayed' : right.playedNodes = right.nodes := by rw [Rack.playedNodes, hagree.rightCursor]
  rw [hplayed, hplayed']
  refine haligned.play_from hagree call hagree.count ?_ ?_ <;> intro index node hnode <;>
    rwa [Nat.zero_add]

/-- Any number of calls. -/
theorem in_step_run (hagree : left.AgreeOn right positions) (hleft : left.LaidOut)
    (hright : right.LaidOut) (hleftCompiled : left.isCompiled = true)
    (hrightCompiled : right.isCompiled = true) (calls : List Call)
    (h : InStep left right positions file other) :
    ∃ samples after samples' after', calls.mapM left.step file = .ok (samples, after) ∧
      calls.mapM right.step other = .ok (samples', after') ∧
      InStep left right positions after after' := by
  induction calls generalizing file other with
  | nil => exact ⟨[], file, [], other, rfl, rfl, h⟩
  | cons call calls ih =>
      obtain ⟨l, r, hl, hr, haligned⟩ := h
      have hready := And.intro (running_reconcile hleft call hl) (running_reconcile hright call hr)
      obtain ⟨sample, next, sample', next', hstep, hstep', hnext⟩ :=
        in_step_sample hagree hleft hright hleftCompiled hrightCompiled call
          ⟨_, _, hready.1, hready.2, haligned.prepare hagree hleft hright call⟩
      obtain ⟨samples, after, samples', after', hrun, hrun', hafter⟩ := ih hnext
      exact ⟨sample :: samples, after, sample' :: samples', after',
        Play.map_m_cons_ok hstep hrun, Play.map_m_cons_ok hstep' hrun', hafter⟩

/-- Files that are alike are in one state of the dataflow reading, but for the rate and the noise. -/
theorem Running.of_alike {rack : Rack} {flow : Dataflow} (h : Running rack other flow)
    (halike : file.Alike other) :
    Running rack file ⟨flow.cells, some file.sampleRate, file.noise⟩ where
  version := halike.version.trans h.version
  fingerprint := halike.fingerprint.trans h.fingerprint
  rate := rfl
  noise := rfl
  registers := by
    have hholds {register : Nat} {value : Float32} (h : other.Holds register value) :
        file.Holds register value := by rwa [RegisterFile.Holds, halike.values]
    refine ⟨halike.values ▸ h.registers.size, fun register value hge hslot => ?_, ?_⟩
    · exact hholds (h.registers.constants register value hge hslot)
    · intro position node home hnode hhome
      exact (h.registers.cells position node home hnode hhome).imp fun _ _ => hholds
  lines position node index hnode hindex := by
    rw [halike.buffers]
    exact h.lines position node index hnode hindex

/-- A fresh trigger brings a voice into the state of a reading that starts over. -/
theorem running_reconcile_fresh {rack : Rack} (hlaid : rack.LaidOut) (call : Call)
    (hfresh : call.fresh = true) (hready : file.Ready rack.template) :
    ∃ flow, Running rack (file.reconcile rack.template call.sampleRate call.fresh) flow ∧
      (∀ position, flow.cells position =
        { Cell.initial with line := rack.memory call.sampleRate position }) ∧
      ∀ sampleRate, flow.rateDiffers sampleRate = (call.sampleRate != sampleRate) := by
  have hstart := running_reconcile_start hlaid call 0
  have halike := RegisterFile.reconcile_fresh hready call.sampleRate 0
  rw [← hfresh] at halike
  refine ⟨_, hstart.of_alike halike, fun position => ?cells, fun sampleRate => ?rate⟩
  case cells =>
    simp [Rack.prepare, Dataflow.start, Dataflow.rateDiffers, Cell.restart, hfresh]
  case rate =>
    have hrate := RegisterFile.rate_reconcile file rack.template call.sampleRate call.fresh
    exact hrate.bne sampleRate

/-- Fresh triggers bring any two voices in step. -/
theorem in_step_fresh (hagree : left.AgreeOn right positions) (hleft : left.LaidOut)
    (hright : right.LaidOut) (call : Call) (hfresh : call.fresh = true)
    (hready : file.Ready left.template) (hready' : other.Ready right.template) :
    InStep left right positions (file.reconcile left.template call.sampleRate call.fresh)
      (other.reconcile right.template call.sampleRate call.fresh) := by
  obtain ⟨l, hl, hcells, hrate⟩ := running_reconcile_fresh hleft call hfresh hready
  obtain ⟨r, hr, hcells', hrate'⟩ := running_reconcile_fresh hright call hfresh hready'
  refine ⟨l, r, hl, hr, fun p hp => ?_, fun sampleRate => ?_⟩
  · rw [hcells, hcells', hagree.memory hleft hright call.sampleRate p hp]
  · rw [hrate, hrate']

end Voices

namespace Studio

/-- After any history take any two racks that agree on some positions, any two voices, and any calls
that start with a fresh trigger. After the last of them, the nodes at these positions have the same
outputs in both voices, whatever the other nodes of the racks are. -/
theorem sound_of_feeding_nodes (actions : List Action) :
    ∃ studio, start.run actions = .ok studio ∧
      ∀ a b voice voice', (studio.racks a).current = true → (studio.racks b).current = true →
        let left := (studio.racks a).rack
        let right := (studio.racks b).rack
        ∀ positions, left.AgreeOn right positions → ∀ (first : Call) (rest : List Call),
          first.fresh = true →
          ∃ samples after samples' after',
            (first :: rest).mapM left.step (studio.voices voice).registers =
              .ok (samples, after) ∧
            (first :: rest).mapM right.step (studio.voices voice').registers =
              .ok (samples', after') ∧
            ∀ p ∈ positions, ∀ x y, left.nodes[p]? = some x → right.nodes[p]? = some y →
              ∃ value, after.Sounds x value ∧ after'.Sounds y value := by
  obtain ⟨catalog, studio, hrun, hsound⟩ := run_sound (sound_start fun _ => .empty) actions
  refine ⟨studio, hrun, ?_⟩
  intro a b voice voice' hcurrent hcurrent' left right positions hagree first rest hfresh
  have hleft : CompiledIn catalog studio.nextVersion left := hsound.racks a hcurrent
  have hright : CompiledIn catalog studio.nextVersion right := hsound.racks b hcurrent'
  have hstart := in_step_fresh hagree hleft.laid_out hright.laid_out first hfresh
    (hleft.ready (hsound.voices voice)) (hright.ready (hsound.voices voice'))
  obtain ⟨sample, next, sample', next', hstep, hstep', hnext⟩ :=
    in_step_sample hagree hleft.laid_out hright.laid_out hleft.is_compiled hright.is_compiled first
      hstart
  obtain ⟨samples, after, samples', after', hplayed, hplayed', hafter⟩ :=
    in_step_run hagree hleft.laid_out hright.laid_out hleft.is_compiled hright.is_compiled rest hnext
  refine ⟨sample :: samples, after, sample' :: samples', after',
    Play.map_m_cons_ok hstep hplayed, Play.map_m_cons_ok hstep' hplayed', ?_⟩
  intro p hp x y hx hy
  exact hafter.outputs hleft.laid_out hright.laid_out hp hx hy

/-- A feedback loop, at other IDs and next to other nodes, played by a voice that played the other rack
before and by a new one. -/
theorem sound_of_feeding_nodes_loop :
    let loop (sum delay : Nat) : List Node :=
      [{ Node.ofEffect (.maths ⟨[[.node delay, .constant 0.5], [.builtin .signal]]⟩) with
          id := some sum },
        { Node.ofEffect (.delay ⟨.node sum, .constant 0.001⟩) with id := some delay }]
    let actions : List Action := [
      .edit 0 "" (loop 0 1 ++ [.ofEffect (Effect.new .noise)]) none, .compile 0,
      .edit 1 "" (loop 2 0 ++ [.ofEffect (.maths ⟨[[.node 2], [.constant 3]]⟩)]) none, .compile 1,
      .noteOn 0 440, .next 0 1 1000]
    let calls : List Call := [⟨440, 1, 1000, true⟩, ⟨440, 1, 1000, false⟩, ⟨220, 0, 2000, false⟩]
    ∃ studio, start.run actions = .ok studio ∧
      ∃ samples after samples' after',
        calls.mapM (studio.racks 0).rack.step (studio.voices 0).registers = .ok (samples, after) ∧
        calls.mapM (studio.racks 1).rack.step (studio.voices 1).registers = .ok (samples', after') ∧
        ∀ p ∈ ({p | p ∈ [0, 1]} : Set Nat), ∀ x y, (studio.racks 0).rack.nodes[p]? = some x →
          (studio.racks 1).rack.nodes[p]? = some y →
            ∃ value, after.Sounds x value ∧ after'.Sounds y value := by
  intro loop actions calls
  obtain ⟨studio, hrun, h⟩ := sound_of_feeding_nodes actions
  have hchecks : (start.run actions).map (fun studio =>
      decide ((studio.racks 0).current = true ∧ (studio.racks 1).current = true ∧
        (studio.racks 0).rack.AgreeOn (studio.racks 1).rack {p | p ∈ ([0, 1] : List Nat)})) =
      .ok true := by
    decide +kernel
  rw [hrun] at hchecks
  obtain ⟨hleft, hright, hagree⟩ := of_decide_eq_true (Except.ok.inj hchecks)
  exact ⟨studio, hrun, h 0 1 0 1 hleft hright _ hagree _ _ rfl⟩

end Studio

end SynthRack
