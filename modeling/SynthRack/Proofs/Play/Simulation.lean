import Mathlib
import SynthRack.Proofs.Play.Kernels
import SynthRack.Proofs.Rack.Layout

/-!
# Playing a compiled rack

`samples_compile` proves that a compiled rack plays its dataflow reading: for every sequence of
calls the register machine does not fault and its samples are those of `Rack.samples`. The relation
between the two is `Running`. One call keeps it (`step_ok`): reconciling does
(`running_reconcile`), writing the inputs does, and every node does (`sounding_node`).
-/

namespace SynthRack

/-- The registers of a voice hold the constants of a rack and the cells of its nodes. -/
structure RegistersHold (rack : Rack) (file : RegisterFile) (cells : Nat → Cell) : Prop where
  size : file.values.size = rack.template.size
  constants : ∀ register value, Builtin.count ≤ register →
    rack.template.slots[register]? = some ⟨value, false⟩ → file.Holds register value
  cells : ∀ position node home, rack.nodes[position]? = some node → node.home = some home →
    List.Forall₂ file.Holds home.registers
      ((cells position).contents node.effect.type ++ [(cells position).output])

/-- The buffers of a voice hold the delay memories of the cells. -/
def LinesHold (rack : Rack) (file : RegisterFile) (cells : Nat → Cell) : Prop :=
  ∀ position node index, rack.nodes[position]? = some node → node.buffer = some index →
    file.buffers[index]? = some (cells position).line

/-- Between two samples, the register file and the dataflow reading are in the same state. -/
structure Running (rack : Rack) (file : RegisterFile) (flow : Dataflow) : Prop where
  version : file.version = some rack.template.version
  fingerprint : file.fingerprint = rack.template.fingerprint
  rate : flow.rate = some file.sampleRate
  noise : flow.noise = file.noise
  registers : RegistersHold rack file flow.cells
  lines : LinesHold rack file flow.cells

/-- Within a sample, the registers of the inputs hold the inputs of the call too. -/
structure Sounding (rack : Rack) (call : Call) (file : RegisterFile) (flow : Dataflow) : Prop
    extends Running rack file flow where
  inputs : ∀ input : Builtin, file.Holds input.register (call.input input)

namespace RegisterFile

variable {file : RegisterFile}

/-- Different registers hold what was written to them. -/
theorem holds_written_of_mem {writes : List (Nat × Float32)} {register : Nat} {value : Float32}
    (hmem : (register, value) ∈ writes) (hnodup : (writes.map Prod.fst).Nodup)
    (hlt : register < file.values.size) : (file.written writes).Holds register value :=
  get_elem_write_all_of_mem hmem hnodup hlt

/-- Registers that are written one by one, all different, hold what was written. -/
theorem holds_written {registers : List Nat} {contents : List Float32}
    (hlength : registers.length = contents.length) (hnodup : registers.Nodup)
    (hlt : ∀ register ∈ registers, register < file.values.size) :
    List.Forall₂ (file.written (registers.zip contents)).Holds registers contents := by
  refine List.forall₂_iff_zip.2 ⟨hlength, fun {register value} hmem => ?_⟩
  have hkeys : (registers.zip contents).map Prod.fst = registers :=
    List.map_fst_zip hlength.le
  exact holds_written_of_mem hmem (hkeys.symm ▸ hnodup) (hlt register (List.of_mem_zip hmem).1)

/-- A register that is not written holds what it held. -/
theorem holds_written_other {writes : List (Nat × Float32)} {register : Nat}
    (h : register ∉ writes.map Prod.fst) (value : Float32) :
    (file.written writes).Holds register value ↔ file.Holds register value := by
  rw [Holds, written, get_elem_write_all_of_not_mem h, Holds]

/-- The file with the output and the private state of a node stored and the noise changed. -/
def stored (file : RegisterFile) (home : Home) (type : EffectType) (cell : Cell)
    (noise : NoiseSource) : RegisterFile :=
  { file.written (home.registers.zip (cell.contents type ++ [cell.output])) with
    buffers := home.buffer.elim file.buffers (file.buffers.setIfInBounds · cell.line)
    noise }

end RegisterFile

/-! ## Nodes -/

section Nodes

variable {rack : Rack} {call : Call} {file : RegisterFile} {flow : Dataflow}

/-- What the registers of a node hold, private state and output apart. -/
theorem registers_split {home : Home} {type : EffectType} {cell : Cell}
    (h : List.Forall₂ file.Holds home.registers (cell.contents type ++ [cell.output])) :
    List.Forall₂ file.Holds home.state (cell.contents type) ∧
      file.Holds home.output cell.output := by
  have hlength : home.state.length = (cell.contents type).length := by
    simpa [Home.registers] using h.length_eq
  have hstate := List.forall₂_take_append _ _ _ h
  have houtput := List.forall₂_drop_append _ _ _ h
  rw [Home.registers, List.take_left' hlength] at hstate
  rw [Home.registers, List.drop_left' hlength] at houtput
  exact ⟨hstate, (List.forall₂_cons.1 houtput).1⟩

/-- Every node of a voice that runs has a home that holds its cell. -/
theorem node_held (hlaid : rack.LaidOut) (h : Running rack file flow) {position : Nat} {node : Node}
    (hnode : rack.nodes[position]? = some node) :
    ∃ home, NodeHeld file node home (flow.cells position) := by
  obtain ⟨state, buffer, hhome, -, -, hbuffer⟩ := (hlaid.placed position node hnode).home
  obtain ⟨hstate, houtput⟩ := registers_split (h.registers.cells position node _ hnode hhome)
  refine ⟨_, hhome, houtput, hstate, is_some_eq_of_rel hbuffer, ?_⟩
  intro index hindex
  exact h.lines position node index hnode (by simpa [Node.buffer, hhome] using hindex)

/-- In a sample, every parameter reads the number that its binding names. -/
theorem sounding_reads (hlaid : rack.LaidOut) (h : Sounding rack call file flow) {node : Node}
    (hnode : node ∈ rack.nodes) {p : Param × Float32} (hp : p ∈ node.effect.withDefaults.params) :
    file.Reads p.1 (rack.value call flow.cells p.2 p.1.binding) := by
  obtain ⟨⟨binding, register⟩, default⟩ := p
  obtain ⟨hbinding, -, hshared⟩ := hlaid.param_placed hnode hp
  -- A parameter's own register holds what its slot does.
  have hconstant (value : Float32) (hvalue : binding.ownValue? default = some value) :
      file.Reads ⟨binding, register⟩ value := by
    obtain ⟨own, hregister, -, hge, hslot⟩ := hlaid.own_slot hnode hp hvalue
    exact ⟨own, hregister, h.registers.constants own value hge hslot⟩
  cases binding with
  | unset => exact hconstant default rfl
  | constant value => exact hconstant value rfl
  | builtin input => exact ⟨input.register, hshared rfl, h.inputs input⟩
  | node id =>
      obtain ⟨position, hposition⟩ : ∃ position, rack.positions[id]? = some position := by
        by_cases hlt : id < rack.positions.size
        · exact ⟨_, Array.getElem?_eq_getElem hlt⟩
        · simp [Binding.resolved, hlt] at hbinding
      have hregister : register = some (outputRegister position) := by
        simpa [Binding.sharedRegister?, hposition] using hshared rfl
      obtain ⟨target, htarget, hid⟩ := hlaid.id_of_position.1 hposition
      obtain ⟨state, buffer, hhome, -⟩ := (hlaid.placed position target htarget).home
      refine ⟨outputRegister position, hregister, ?_⟩
      rw [Rack.value, hlaid.find_id hposition]
      exact (registers_split (h.registers.cells position target _ htarget hhome)).2

/-- Storing the new cell of a node leaves the cells of the others and all constants alone. -/
theorem registers_hold_stored (hlaid : rack.LaidOut) {cells : Nat → Cell}
    (h : RegistersHold rack file cells) {position : Nat} {node : Node} {home : Home}
    (hnode : rack.nodes[position]? = some node) (hhome : node.home = some home) (cell : Cell)
    (noise : NoiseSource) :
    RegistersHold rack (file.stored home node.effect.type cell noise)
      (Function.update cells position cell) := by
  obtain ⟨-, hcount, hslots, hnodup⟩ := hlaid.home_of_position hnode hhome
  have hlength : home.registers.length = (cell.contents node.effect.type ++ [cell.output]).length := by
    simp [Home.registers, hcount, Cell.length_contents]
  have hkeys : (home.registers.zip (cell.contents node.effect.type ++ [cell.output])).map Prod.fst =
      home.registers := List.map_fst_zip hlength.le
  have hother {register : Nat} (hregister : register ∉ home.registers) (value : Float32) :
      (file.stored home node.effect.type cell noise).Holds register value ↔
        file.Holds register value :=
    RegisterFile.holds_written_other (hkeys.symm ▸ hregister) value
  refine ⟨?size, fun register value hge hslot => ?constants,
    fun q other otherHome hq hotherHome => ?cells⟩
  case size => exact (RegisterFile.size_write_all ..).trans h.size
  case constants =>
    refine (hother (fun hmem => ?_) value).2 (h.constants register value hge hslot)
    cases (hslots register hmem).symm.trans hslot
  case cells =>
    -- The node's own registers hold the new cell; those of another are apart from them.
    by_cases hne : position = q
    · subst hne
      obtain rfl := Option.some.inj (hnode.symm.trans hq)
      obtain rfl := Option.some.inj (hhome.symm.trans hotherHome)
      rw [Function.update_self]
      refine RegisterFile.holds_written hlength hnodup ?_
      intro register hmem
      have hlt := (Array.getElem?_eq_some_iff.1 (hslots register hmem)).1
      rw [h.size]
      exact hlt
    · rw [Function.update_of_ne (Ne.symm hne)]
      have hheld := List.forall₂_iff_zip.1 (h.cells q other otherHome hq hotherHome)
      refine List.forall₂_iff_zip.2 ⟨hheld.1, fun {register value} hmem => ?_⟩
      refine (hother (fun hregister => ?_) value).2 (hheld.2 hmem)
      exact hlaid.registers_apart hnode hhome hq hotherHome hne hregister (List.of_mem_zip hmem).1

/-- Storing the state of a node leaves the delay memories of all others in their buffers. -/
theorem lines_hold_stored (hlaid : rack.LaidOut) {cells : Nat → Cell}
    (h : LinesHold rack file cells) {position : Nat} {node : Node} {home : Home}
    (hnode : rack.nodes[position]? = some node) (hhome : node.home = some home) (cell : Cell)
    (noise : NoiseSource) :
    LinesHold rack (file.stored home node.effect.type cell noise)
      (Function.update cells position cell) := by
  intro q other index hq hindex
  by_cases hne : position = q
  · subst hne
    obtain rfl := Option.some.inj (hnode.symm.trans hq)
    have hbuffer : home.buffer = some index := by simpa [Node.buffer, hhome] using hindex
    have hlt := (Array.getElem?_eq_some_iff.1 (h position node index hnode hindex)).1
    simp [RegisterFile.stored, hbuffer, hlt]
  · rw [Function.update_of_ne (Ne.symm hne)]
    have hline := h q other index hq hindex
    cases hbuffer : home.buffer with
    | none => simpa [RegisterFile.stored, hbuffer] using hline
    | some own =>
        have hown : node.buffer = some own := by simpa [Node.buffer, hhome] using hbuffer
        have happart : own ≠ index := fun heq =>
          hne (hlaid.buffer_unique hnode hq hown (heq ▸ hindex))
        simpa [RegisterFile.stored, hbuffer, Array.getElem?_setIfInBounds_ne happart] using hline

/-- Storing a new cell and the noise that is left is what the dataflow reading does. -/
theorem sounding_stored (hlaid : rack.LaidOut) (h : Sounding rack call file flow) {position : Nat}
    {node : Node} {home : Home} (hnode : rack.nodes[position]? = some node)
    (hhome : node.home = some home) (cell : Cell) (noise : NoiseSource) :
    Sounding rack call (file.stored home node.effect.type cell noise)
      { flow with cells := Function.update flow.cells position cell, noise } where
  version := h.version
  fingerprint := h.fingerprint
  rate := h.rate
  noise := rfl
  registers := registers_hold_stored hlaid h.registers hnode hhome cell noise
  lines := lines_hold_stored hlaid h.lines hnode hhome cell noise
  inputs input := by
    refine (RegisterFile.holds_written_other (fun hmem => ?_) _).2 (h.inputs input)
    obtain ⟨⟨register, value⟩, hpair, rfl⟩ := List.mem_map.1 hmem
    have hslot := (hlaid.home_of_position hnode hhome).2.2.1 _ (List.of_mem_zip hpair).1
    cases (hlaid.inputs input).symm.trans hslot

/-- Writing the output after the private state stores the whole cell. -/
theorem write_output {node : Node} {home : Home} {cell : Cell}
    (hheld : NodeHeld file node home cell) (next : Cell) (output : Float32) (noise : NoiseSource) :
    Play.write node.output output (file.keep home node.effect.type next noise) =
      .ok ((), file.stored home node.effect.type { next with output } noise) := by
  have hlength : home.state.length = (next.contents node.effect.type).length := by
    rw [hheld.state.length_eq, Cell.length_contents, Cell.length_contents]
  have houtput : node.output = some home.output := by
    rw [Node.output, hheld.placed, Option.map_some]
  have hlt : home.output < (file.keep home node.effect.type next noise).values.size := by
    simpa [RegisterFile.keep] using hheld.output.lt
  rw [houtput, Play.write_ok hlt, RegisterFile.stored, Home.registers, Cell.contents_with_output,
    List.zip_append hlength, RegisterFile.written, RegisterFile.writeAll, List.foldl_append]
  rfl

/-- A node that is enabled stores its new cell, and a disabled one changes nothing. -/
theorem sounding_node (hlaid : rack.LaidOut) (h : Sounding rack call file flow) {position : Nat}
    {node : Node} (hnode : rack.nodes[position]? = some node) (rest : List Node) :
    ∃ after, Sounding rack call after (rack.playNode call flow node position) ∧
      Play.nodes call (node :: rest) file = Play.nodes call rest after := by
  cases henabled : node.enabled with
  | false =>
      refine ⟨file, by simpa [Rack.playNode, henabled] using h, ?_⟩
      rw [Play.nodes, henabled]
      rfl
  | true =>
      have hmem := List.mem_of_getElem? hnode
      obtain ⟨home, hheld⟩ := node_held hlaid h.toRunning hnode
      let number (p : Param × Float32) := rack.value call flow.cells p.2 p.1.binding
      have hreads : ∀ p ∈ node.effect.withDefaults.params, file.Reads p.1 (number p) :=
        fun p hp => sounding_reads hlaid h hmem hp
      have hevaluate := Play.evaluate_ok call hheld hreads (hlaid.param_apart hmem hheld.placed)
      -- The machine's noise and that of the dataflow reading are one source.
      rw [← h.noise] at hevaluate
      obtain ⟨⟨output, cell, noise⟩, hresult⟩ : ∃ result,
          (node.effect.withDefaults.map number).respond call (flow.cells position) flow.noise =
            result := ⟨_, rfl⟩
      rw [hresult] at hevaluate
      refine ⟨file.stored home node.effect.type { cell with output } noise, ?_, ?_⟩
      · have hplay : rack.playNode call flow node position = { flow with
            cells := Function.update flow.cells position { cell with output }, noise } := by
          simp only [Rack.playNode, henabled, if_true]
          exact congrArg (fun result : Float32 × Cell × NoiseSource => { flow with
            cells := Function.update flow.cells position { result.2.1 with output := result.1 }
            noise := result.2.2 }) hresult
        rw [hplay]
        exact sounding_stored hlaid h hnode hheld.placed _ _
      · have hwrite := write_output hheld cell output noise
        rw [Play.nodes, henabled, if_pos rfl, Play.bind_ok hevaluate, Play.bind_ok hwrite]

/-- Playing a stretch of the nodes keeps the two in the same state. -/
theorem sounding_nodes (hlaid : rack.LaidOut) {nodes : List Node} {position : Nat}
    (h : Sounding rack call file flow)
    (hnodes : ∀ (index : Nat) (node : Node), nodes[index]? = some node →
      rack.nodes[position + index]? = some node) :
    ∃ after, Sounding rack call after (rack.playFrom call nodes position flow) ∧
      Play.nodes call nodes file = .ok ((), after) := by
  induction nodes generalizing position file flow with
  | nil => exact ⟨file, h, rfl⟩
  | cons node rest ih =>
      obtain ⟨next, hnext, hplay⟩ := sounding_node hlaid h (hnodes 0 node rfl) rest
      obtain ⟨after, hafter, hrest⟩ := ih hnext fun index other hother => by
        rw [Nat.add_assoc, Nat.add_comm 1 index]
        exact hnodes (index + 1) other hother
      exact ⟨after, hafter, hplay.trans hrest⟩

/-! ## Inputs -/

/-- Writing inputs succeeds if their registers are there. -/
theorem inputs_ok {inputs : List Builtin}
    (hlt : ∀ input ∈ inputs, input.register < file.values.size) :
    Play.inputs call inputs file =
      .ok ((), file.written (inputs.map fun input => (input.register, call.input input))) := by
  induction inputs generalizing file with
  | nil => rfl
  | cons input rest ih =>
      rw [List.forall_mem_cons] at hlt
      rw [Play.inputs, Play.bind_ok (Play.write_ok hlt.1 _), ih (by simpa using hlt.2)]
      rfl

/-- Writing to the registers of inputs reaches neither constants nor cells. -/
theorem running_written (hlaid : rack.LaidOut) (h : Running rack file flow)
    {writes : List (Nat × Float32)}
    (hinputs : ∀ register ∈ writes.map Prod.fst, ∃ input : Builtin, input.register = register) :
    Running rack (file.written writes) flow := by
  have hother {register : Nat} (hregister : ∀ input : Builtin, input.register ≠ register)
      (value : Float32) : (file.written writes).Holds register value ↔ file.Holds register value := by
    refine RegisterFile.holds_written_other (fun hmem => ?_) value
    obtain ⟨input, hinput⟩ := hinputs register hmem
    exact hregister input hinput
  refine ⟨h.version, h.fingerprint, h.rate, h.noise, ⟨?size, ?constants, ?cells⟩, h.lines⟩
  case size =>
    rw [RegisterFile.written, RegisterFile.size_write_all]
    exact h.registers.size
  case constants =>
    intro register value hge hslot
    refine (hother (fun input heq => ?_) value).2 (h.registers.constants register value hge hslot)
    -- Constants lie behind the inputs.
    have hinput := input.register_lt
    omega
  case cells =>
    intro position node home hnode hhome
    have hheld := List.forall₂_iff_zip.1 (h.registers.cells position node home hnode hhome)
    refine List.forall₂_iff_zip.2 ⟨hheld.1, fun {register value} hmem => ?_⟩
    refine (hother (fun input heq => ?_) value).2 (hheld.2 hmem)
    have hslot := (hlaid.home_of_position hnode hhome).2.2.1 register (List.of_mem_zip hmem).1
    cases (heq ▸ hslot).symm.trans (hlaid.inputs input)

/-- Writing the inputs of a call starts a sample. -/
theorem sounding_inputs (call : Call) (hlaid : rack.LaidOut) (h : Running rack file flow) :
    ∃ after, Sounding rack call after flow ∧ Play.inputs call Builtin.all file = .ok ((), after) := by
  have hlt (input : Builtin) : input.register < file.values.size := by
    rw [h.registers.size]
    exact (Array.getElem?_eq_some_iff.1 (hlaid.inputs input)).1
  refine ⟨_, ⟨running_written hlaid h ?others, ?inputs⟩, inputs_ok fun input _ => hlt input⟩
  case others =>
    intro register hmem
    obtain ⟨write, hwrite, rfl⟩ := List.mem_map.1 hmem
    obtain ⟨input, -, rfl⟩ := List.mem_map.1 hwrite
    exact ⟨input, rfl⟩
  case inputs =>
    intro input
    have hnodup : ((Builtin.all.map fun input => (input.register, call.input input)).map
        Prod.fst).Nodup := by
      show (Builtin.all.map Builtin.register).Nodup
      decide
    have hmem : (input.register, call.input input) ∈
        Builtin.all.map fun input => (input.register, call.input input) :=
      List.mem_map.2 ⟨input, by cases input <;> decide, rfl⟩
    exact RegisterFile.holds_written_of_mem hmem hnodup (hlt input)

/-! ## Reconciling -/

/-- Where the template's values stand, cells that hold zeros are held. -/
theorem registers_hold_initial (hlaid : rack.LaidOut) {cells : Nat → Cell}
    (hvalues : file.values = rack.template.values)
    (hcells : ∀ position type, ∀ value ∈ (cells position).contents type ++ [(cells position).output],
      value = 0) : RegistersHold rack file cells := by
  have hholds {register : Nat} {value : Float32} {persisted : Bool}
      (hslot : rack.template.slots[register]? = some ⟨value, persisted⟩) :
      file.Holds register value := by
    rw [RegisterFile.Holds, hvalues]
    exact Template.value_of_slot hslot
  refine ⟨by simp [hvalues, Template.values, Template.size], fun register value _ => hholds,
    fun position node home hnode hhome => ?_⟩
  obtain ⟨-, hcount, hslots, -⟩ := hlaid.home_of_position hnode hhome
  refine List.forall₂_iff_zip.2 ⟨by simp [Home.registers, hcount, Cell.length_contents],
    fun {register value} hmem => ?_⟩
  obtain ⟨hregister, hvalue⟩ := List.of_mem_zip hmem
  rw [hcells position _ value hvalue]
  exact hholds (hslots register hregister)

/-- Buffers made for a rate hold empty memories. -/
theorem lines_hold_new (hlaid : rack.LaidOut) {cells : Nat → Cell} {sampleRate : Float32}
    (hbuffers : file.buffers = RegisterFile.newBuffers rack.template sampleRate)
    (hcells : ∀ position, (cells position).line = rack.memory sampleRate position) :
    LinesHold rack file cells := by
  intro position node index hnode hindex
  obtain ⟨state, buffer, hhome, -, -, hbuffer⟩ := (hlaid.placed position node hnode).home
  obtain rfl : buffer = some index := by simpa [Node.buffer, hhome] using hindex
  obtain ⟨seconds, hneed, hseconds⟩ : ∃ seconds, node.effect.bufferNeed? = some seconds ∧
      rack.template.bufferSeconds[index]? = some seconds := by
    generalize node.effect.bufferNeed? = need at hbuffer
    cases hbuffer with
    | some hseconds => exact ⟨_, rfl, hseconds⟩
  rw [hbuffers, hcells, RegisterFile.newBuffers, Array.getElem?_map, hseconds, Rack.memory, hnode,
    Option.bind_some, hneed]
  rfl

/-- The contents of a cell that starts over are zeros, whatever its memory. -/
theorem Cell.restart_zeros (line : DelayLine) (type : EffectType) :
    ∀ value ∈ ({ Cell.initial with line } : Cell).contents type ++ [0], value = 0 := by
  cases type <;> simp [Cell.contents, Cell.initial, Stage.register]

/-- The first sample of a voice finds it in the state of the dataflow reading. -/
theorem running_reconcile_start (hlaid : rack.LaidOut) (call : Call) (seed : UInt64) :
    Running rack ((RegisterFile.ofSeed seed).reconcile rack.template call.sampleRate call.fresh)
      (rack.prepare call (.start seed)) := by
  have hlayout : (RegisterFile.ofSeed seed).layoutDiffers rack.template = true := rfl
  have hprepare : rack.prepare call (.start seed) =
      ⟨fun position => { Cell.initial with line := rack.memory call.sampleRate position },
        some call.sampleRate, .ofSeed seed⟩ := by
    cases hfresh : call.fresh <;>
      simp [Rack.prepare, Dataflow.start, Dataflow.rateDiffers, Cell.restart, hfresh]
  simp only [RegisterFile.reconcile, RegisterFile.reconciledValues,
    RegisterFile.reconciledBuffers, hlayout, Bool.true_or, if_true, hprepare]
  refine ⟨rfl, rfl, rfl, rfl, ?registers, ?lines⟩
  case registers => exact registers_hold_initial hlaid rfl fun _ => Cell.restart_zeros _
  case lines => exact lines_hold_new hlaid rfl fun _ => rfl

/-- What reconciling does to a voice that played its rack before. -/
theorem reconcile_running (h : Running rack file flow) (sampleRate : Float32) (fresh : Bool) :
    file.reconcile rack.template sampleRate fresh =
      { file with
        values := if fresh then rack.template.values else file.values
        buffers :=
          if file.rateDiffers sampleRate then RegisterFile.newBuffers rack.template sampleRate
          else if fresh then file.buffers.map (·.clear) else file.buffers
        bufferSeconds :=
          if file.rateDiffers sampleRate then rack.template.bufferSeconds else file.bufferSeconds
        sampleRate := if file.rateDiffers sampleRate then sampleRate else file.sampleRate } := by
  have hlayout : file.layoutDiffers rack.template = false := by
    simp [RegisterFile.layoutDiffers, h.version, h.fingerprint, h.registers.size]
  have hcompilation : file.compilationDiffers rack.template = false := by
    simp [RegisterFile.compilationDiffers, h.version]
  cases hrate : file.rateDiffers sampleRate <;> cases fresh <;>
    simp [RegisterFile.reconcile, RegisterFile.reconciledValues, RegisterFile.reconciledBuffers,
      hlayout, hcompilation, hrate, h.version]
  rw [← h.version]

/-- A fresh trigger and another rate do to a voice what they do to the dataflow reading. -/
theorem running_reconcile (hlaid : rack.LaidOut) (call : Call) (h : Running rack file flow) :
    Running rack (file.reconcile rack.template call.sampleRate call.fresh)
      (rack.prepare call flow) := by
  have hrateDiffers : flow.rateDiffers call.sampleRate = file.rateDiffers call.sampleRate := by
    simp [Dataflow.rateDiffers, RegisterFile.rateDiffers, h.rate]
  -- Whether the trigger is fresh decides the registers; the memories depend on the rate as well.
  let lines (position : Nat) : DelayLine :=
    if file.rateDiffers call.sampleRate then rack.memory call.sampleRate position
    else if call.fresh then (flow.cells position).line.clear else (flow.cells position).line
  have hprepare : rack.prepare call flow =
      ⟨fun position =>
        { (if call.fresh then Cell.initial else flow.cells position) with line := lines position },
        some (if file.rateDiffers call.sampleRate then call.sampleRate else file.sampleRate),
        flow.noise⟩ := by
    cases hrate : file.rateDiffers call.sampleRate <;> cases hfresh : call.fresh <;>
      simp [Rack.prepare, hrateDiffers, hrate, hfresh, lines, h.rate, Cell.restart]
  rw [reconcile_running h, hprepare]
  refine ⟨h.version, h.fingerprint, rfl, h.noise, ?registers, ?lines⟩
  case registers =>
    cases hfresh : call.fresh with
    | true => exact registers_hold_initial hlaid rfl fun _ => Cell.restart_zeros _
    | false =>
        refine ⟨h.registers.size, h.registers.constants, ?_⟩
        intro position node home hnode hhome
        show List.Forall₂ _ _ (({ flow.cells position with line := lines position } : Cell).contents
          node.effect.type ++ _)
        rw [Cell.contents_with_line]
        exact h.registers.cells position node home hnode hhome
  case lines =>
    cases hrate : file.rateDiffers call.sampleRate with
    | true =>
        refine lines_hold_new hlaid rfl ?_
        intro position
        simp [lines, hrate]
    | false =>
        intro position node index hnode hindex
        have hline := h.lines position node index hnode hindex
        cases hfresh : call.fresh with
        | true => simp [lines, hrate, hfresh, hline]
        | false => simpa [lines, hrate, hfresh] using hline

/-! ## Samples -/

/-- A sample reconciles the file, writes the inputs, plays the nodes and reads the last output. -/
theorem step_eq (hcompiled : rack.isCompiled = true) :
    rack.step call file =
      (do
        Play.inputs call Builtin.all
        Play.nodes call rack.playedNodes
        match rack.playedNodes.getLast? with
        | some last => Play.read last.output
        | none => return 0 : Play Float32)
        (file.reconcile rack.template call.sampleRate call.fresh) := by
  rw [Rack.step, hcompiled]
  rfl

/-- The nodes that are played are the first ones of the list. -/
theorem played_node {index : Nat} {node : Node} (hnode : rack.playedNodes[index]? = some node) :
    rack.nodes[index]? = some node := by
  cases hcursor : rack.cursor with
  | none => simpa [Rack.playedNodes, hcursor] using hnode
  | some cursor =>
      simp only [Rack.playedNodes, hcursor, List.getElem?_take] at hnode
      split at hnode
      · exact hnode
      · cases hnode

/-- Once reconciling has brought a voice into the state of a dataflow reading, the sample is the one
played there, and the inputs of the call are left in their registers. -/
theorem sounding_step (hlaid : rack.LaidOut) (hcompiled : rack.isCompiled = true) (call : Call)
    (h : Running rack (file.reconcile rack.template call.sampleRate call.fresh) flow) :
    let played := rack.playedNodes
    let flow := rack.playFrom call played 0 flow
    ∃ after, rack.step call file =
        .ok (if played = [] then 0 else (flow.cells (played.length - 1)).output, after) ∧
      Sounding rack call after flow := by
  intro played final
  obtain ⟨ready, hready, hinputs⟩ := sounding_inputs call hlaid h
  have hplayed (index : Nat) (node : Node) (hnode : played[index]? = some node) :
      rack.nodes[0 + index]? = some node := by
    rw [Nat.zero_add]
    exact played_node hnode
  obtain ⟨after, hafter, hnodes⟩ := sounding_nodes hlaid hready hplayed
  refine ⟨after, ?_, hafter⟩
  rw [step_eq hcompiled, Play.bind_ok hinputs, Play.bind_ok hnodes]
  show (match played.getLast? with
    | some last => Play.read last.output
    | none => return 0 : Play Float32) after = _
  cases hlast : played.getLast? with
  | none =>
      rw [if_pos (List.getLast?_eq_none_iff.1 hlast)]
      rfl
  | some last =>
      have hnonempty : played ≠ [] := by
        rintro hempty
        simp [hempty] at hlast
      rw [List.getLast?_eq_getElem?] at hlast
      obtain ⟨home, hheld⟩ := node_held hlaid hafter.toRunning (played_node hlast)
      have houtput : last.output = some home.output := by
        rw [Node.output, hheld.placed, Option.map_some]
      show Play.read last.output after = _
      rw [if_neg hnonempty, houtput]
      exact Play.read_ok hheld.output

/-- One sample, for a voice that reconciling brings into the state of the dataflow reading. -/
theorem step_ok (hlaid : rack.LaidOut) (hcompiled : rack.isCompiled = true)
    (h : Running rack (file.reconcile rack.template call.sampleRate call.fresh)
      (rack.prepare call flow)) :
    ∃ after, rack.step call file = .ok ((rack.sample call flow).1, after) ∧
      Running rack after (rack.sample call flow).2 := by
  obtain ⟨after, hstep, hafter⟩ := sounding_step hlaid hcompiled call h
  exact ⟨after, hstep, hafter.toRunning⟩

/-- A sequence of calls. -/
theorem samples_ok (hlaid : rack.LaidOut) (hcompiled : rack.isCompiled = true) (calls : List Call)
    (h : ∀ call : Call, Running rack (file.reconcile rack.template call.sampleRate call.fresh)
      (rack.prepare call flow)) :
    ∃ after, calls.mapM rack.step file = .ok (rack.samples calls flow, after) := by
  induction calls generalizing file flow with
  | nil => exact ⟨file, rfl⟩
  | cons call calls ih =>
      obtain ⟨next, hstep, hnext⟩ := step_ok hlaid hcompiled (h call)
      obtain ⟨after, hrest⟩ := ih fun other => running_reconcile hlaid other hnext
      exact ⟨after, Play.map_m_cons_ok hstep hrest⟩

end Nodes

/-- A compiled rack plays its dataflow reading, wherever its cursor is set: no call faults, and the
samples are the same. Versions of compiled racks are positive. -/
theorem samples_compile (rack : Rack) (version : Nat) (cursor : Option Nat) (seed : UInt64)
    (calls : List Call) :
    let done := { rack.compile (version + 1) with cursor }
    ∃ file, (calls.mapM done.step).run (.ofSeed seed) =
      .ok (done.samples calls (.start seed), file) := by
  intro done
  have hlaid : done.LaidOut := (Rack.laid_out_compile rack (version + 1)).with_cursor cursor
  have hcompiled : done.isCompiled = true := decide_eq_true (Nat.succ_pos version)
  exact samples_ok hlaid hcompiled calls fun call => running_reconcile_start hlaid call seed

end SynthRack
