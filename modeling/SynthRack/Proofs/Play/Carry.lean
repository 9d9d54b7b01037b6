import Mathlib
import SynthRack.Proofs.Play.Simulation
import SynthRack.Proofs.Play.Tracking
import SynthRack.Proofs.Rack.SameLayout

/-!
# What a voice takes along to another rack

A voice that played one compiled rack can be played on another. Without a fresh trigger, whether it
starts over depends on the layouts alone. In a rack of the same layout every node goes on from what
the node at its position held: its output, its private registers, and its buffer unless the duration
or the rate changed (`goes_on`). In any other rack all nodes start over (`held_reset`).
`running_resumed` says in which state of the dataflow reading the voice is then played.
-/

namespace SynthRack

namespace RegisterFile

variable {file : RegisterFile} {t : Template} {a b : Rack} {sampleRate : Float32} {fresh : Bool}

/-- The values of a reconciled file, by the rule that says which are kept. -/
theorem values_reconcile (file : RegisterFile) (t : Template) (sampleRate : Float32) (fresh : Bool) :
    (file.reconcile t sampleRate fresh).values = file.reconciledValues t fresh := by
  rw [reconcile_eq]

/-- The buffers of a reconciled file, by the rule that says which are kept. -/
theorem buffers_reconcile (file : RegisterFile) (t : Template) (sampleRate : Float32)
    (fresh : Bool) :
    (file.reconcile t sampleRate fresh).buffers = file.reconciledBuffers t sampleRate fresh := by
  rw [reconcile_eq]

/-- Reconciling draws no noise. -/
theorem noise_reconcile (file : RegisterFile) (t : Template) (sampleRate : Float32) (fresh : Bool) :
    (file.reconcile t sampleRate fresh).noise = file.noise := by
  rw [reconcile_eq]

/-- A voice notices another layout by its fingerprint and its size. -/
theorem Tracks.layout_differs_iff (h : file.Tracks a.template) (ha : a.Built) (hb : b.Built) :
    file.layoutDiffers b.template = false ↔ a.SameLayout b := by
  rw [← Rack.same_layout_iff ha.is_sealed hb.is_sealed]
  simp [layoutDiffers, h.version, h.fingerprint, h.size]

/-- In a rack of the same layout every persisted register keeps what it holds. -/
theorem carried_register (h : file.Tracks a.template) (ha : a.Built) (hb : b.Built)
    (hlayout : a.SameLayout b) {register : Nat}
    (hkeep : b.template.persisted[register]? = some true) :
    (file.reconcile b.template sampleRate false).values[register]? = file.values[register]? := by
  have hflag : file.persisted[register]? = some true := by
    rw [h.persisted, hlayout.persisted, hkeep]
  obtain ⟨value, hvalue⟩ : ∃ value, file.values[register]? = some value := by
    have hlt := (Array.getElem?_eq_some_iff.1 hkeep).1
    have hsize : file.values.size = b.template.persisted.size := by
      simpa [Template.persisted, Template.size] using h.size.trans hlayout.size
    exact ⟨_, Array.getElem?_eq_getElem (hsize.symm ▸ hlt)⟩
  rw [hvalue, values_reconcile]
  exact reconciled_values_persisted ((h.layout_differs_iff ha hb).2 hlayout) hflag hvalue

/-- A file of another layout, and every file at a fresh trigger, takes its values from the
template. -/
theorem reset_values (h : (file.layoutDiffers t || fresh) = true) :
    (file.reconcile t sampleRate fresh).values = t.values := by
  rw [values_reconcile, reconciledValues, if_pos h]

/-- A file of another layout gets new buffers. -/
theorem reset_buffers (h : file.layoutDiffers t = true) :
    (file.reconcile t sampleRate fresh).buffers = newBuffers t sampleRate := by
  rw [buffers_reconcile, reconciledBuffers, h, Bool.true_or, if_pos rfl]

/-- In a rack of the same layout that was compiled later, at an unchanged rate, a buffer is kept if
the duration it was made for stayed, and else replaced by a silent one. -/
theorem carried_buffer (h : file.Tracks a.template) (ha : a.Built) (hb : b.Built)
    (hlayout : a.SameLayout b) (hlater : file.compilationDiffers b.template = true) {index : Nat}
    {seconds : Float32} (hseconds : b.template.bufferSeconds[index]? = some seconds) :
    (file.reconcile b.template sampleRate false).buffers[index]? =
      if a.template.bufferSeconds[index]? = some seconds ∧ file.rateDiffers sampleRate = false then
        file.buffers[index]?
      else some (.silent (samplesFor seconds sampleRate)) := by
  have hlt : index < file.buffers.size := by
    have hsize : file.buffers.size = a.template.bufferSeconds.size := by
      simpa using congrArg Array.size h.capacities
    rw [hsize, ha.same_buffer_count hb.toLaidOut hlayout]
    exact (Array.getElem?_eq_some_iff.1 hseconds).1
  rw [buffers_reconcile, reconciledBuffers, (h.layout_differs_iff ha hb).2 hlayout, hlater,
    ← h.bufferSeconds, Bool.false_or]
  cases file.rateDiffers sampleRate with
  | true => simp [newBuffers, hseconds]
  | false =>
      by_cases hsame : file.bufferSeconds[index]? = some seconds <;>
        simp [resizedBuffers, hseconds, hlt, hsame]

/-! ## What a node keeps -/

/-- What a node keeps from one sample to the next. -/
structure Held where
  output : Option Float32
  state : List (Option Float32)
  line : Option DelayLine
  deriving DecidableEq

/-- What a file holds for a node: the contents of its output register, of its private registers and of
its delay buffer. -/
def held (file : RegisterFile) (node : Node) : Held where
  output := node.output.bind (file.values[·]?)
  state := ((node.home.map (·.state)).getD []).map (file.values[·]?)
  line := node.buffer.bind (file.buffers[·]?)

/-- What a new voice holds for a node: zeros, and silence of the node's duration. -/
def Held.initial (node : Node) (sampleRate : Float32) : Held where
  output := some 0
  state := List.replicate node.effect.type.stateCount (some 0)
  line := node.effect.bufferNeed?.map fun seconds => .silent (samplesFor seconds sampleRate)

/-- A node of one rack goes on from what another node held when a voice is brought in line with the
rack. Its buffer is kept if the duration and the rate stayed, and else is silent. -/
structure GoesOn (before after : RegisterFile) (sampleRate : Float32) (old new : Node) : Prop where
  type : new.effect.type = old.effect.type
  output : (after.held new).output = (before.held old).output
  state : (after.held new).state = (before.held old).state
  line : (after.held new).line =
    if old.effect.bufferNeed? = new.effect.bufferNeed? ∧ before.rateDiffers sampleRate = false then
      (before.held old).line
    else (Held.initial new sampleRate).line

/-- In a rack of the same layout every node goes on from what the node at its position held. -/
theorem goes_on (h : file.Tracks a.template) (ha : a.Built) (hb : b.Built)
    (hlayout : a.SameLayout b) (hlater : file.compilationDiffers b.template = true) {position : Nat}
    {old new : Node} (hold : a.nodes[position]? = some old)
    (hnew : b.nodes[position]? = some new) :
    GoesOn file (file.reconcile b.template sampleRate false) sampleRate old new := by
  have hhomes := ha.same_home hb.toLaidOut hlayout hold hnew
  obtain ⟨state, buffer, hhome, -⟩ := (hb.placed position new hnew).home
  have hkept {register : Nat} (hmem : register ∈ (⟨outputRegister position, state, buffer⟩ :
      Home).registers) : (file.reconcile b.template sampleRate false).values[register]? =
        file.values[register]? :=
    carried_register h ha hb hlayout
      (Template.persisted_of_slot ((hb.home_of_position hnew hhome).2.2.1 register hmem))
  refine ⟨(hlayout.type hold hnew).symm, ?output, ?state, ?line⟩
  case output =>
    simp only [held, Node.output, hhomes, hhome]
    exact hkept (List.mem_append_right _ (List.mem_singleton.2 rfl))
  case state =>
    simp only [held, hhomes, hhome, Option.map_some, Option.getD_some]
    exact List.map_congr_left fun register hmem => hkept (List.mem_append_left _ hmem)
  case line =>
    have hbuffers : old.buffer = new.buffer := by rw [Node.buffer, Node.buffer, hhomes]
    have hneed := hb.buffer_home (List.mem_of_getElem? hnew)
    have hneed' := ha.buffer_home (List.mem_of_getElem? hold)
    simp only [held, Held.initial, hbuffers] at hneed' ⊢
    generalize new.buffer = buffer at hneed hneed' ⊢
    generalize new.effect.bufferNeed? = need at hneed ⊢
    generalize old.effect.bufferNeed? = need' at hneed' ⊢
    cases hneed with
    | none => simp
    | some hseconds =>
        cases hneed' with
        | some hseconds' =>
            simp only [Option.bind_some, Option.map_some]
            rw [carried_buffer h ha hb hlayout hlater hseconds, hseconds']

/-- In a rack of another layout every node starts over. -/
theorem held_reset (hb : b.Built) (h : file.layoutDiffers b.template = true) {node : Node}
    (hnode : node ∈ b.nodes) :
    (file.reconcile b.template sampleRate fresh).held node = .initial node sampleRate := by
  obtain ⟨position, hposition⟩ := List.mem_iff_getElem?.1 hnode
  obtain ⟨state, buffer, hhome, -⟩ := (hb.placed position node hposition).home
  obtain ⟨-, hcount, hslots, -⟩ := hb.home_of_position hposition hhome
  have hzero {register : Nat} (hmem : register ∈ (⟨outputRegister position, state, buffer⟩ :
      Home).registers) :
      (file.reconcile b.template sampleRate fresh).values[register]? = some 0 := by
    rw [reset_values (by rw [h, Bool.true_or])]
    exact Template.value_of_slot (hslots register hmem)
  have hstate : state.map ((file.reconcile b.template sampleRate fresh).values[·]?) =
      List.replicate node.effect.type.stateCount (some 0) := by
    refine List.eq_replicate_iff.2 ⟨by rw [List.length_map, hcount], fun value hvalue => ?_⟩
    obtain ⟨register, hmem, rfl⟩ := List.mem_map.1 hvalue
    exact hzero (List.mem_append_left _ hmem)
  have hline : node.buffer.bind ((file.reconcile b.template sampleRate fresh).buffers[·]?) =
      node.effect.bufferNeed?.map fun seconds => .silent (samplesFor seconds sampleRate) := by
    rw [reset_buffers h]
    have hneed := hb.buffer_home hnode
    generalize node.buffer = buffer at hneed ⊢
    generalize node.effect.bufferNeed? = need at hneed ⊢
    cases hneed with
    | none => rfl
    | some hseconds => simp [newBuffers, hseconds]
  have houtput := hzero (List.mem_append_right state (List.mem_singleton.2 rfl))
  simp only [held, Held.initial, hline, Node.output, hhome, Option.map_some, Option.getD_some,
    Option.bind_some, hstate, houtput]

end RegisterFile

/-! ## Going on in the dataflow reading -/

namespace Rack

/-- The buffer of the node at a position, if it has one. -/
def lineAt (rack : Rack) (file : RegisterFile) (position : Nat) : Option DelayLine :=
  (rack.nodes[position]?.bind Node.buffer).bind (file.buffers[·]?)

/-- The dataflow reading of a voice whose registers hold some cells. -/
def resumed (rack : Rack) (file : RegisterFile) (cells : Nat → Cell) : Dataflow where
  cells position := { cells position with line := (rack.lineAt file position).getD .empty }
  rate := some file.sampleRate
  noise := file.noise

variable {rack : Rack} {file : RegisterFile} {cells : Nat → Cell}

/-- The registers of every node hold the state and the output of its cell. -/
def CellsHeld (rack : Rack) (file : RegisterFile) (cells : Nat → Cell) : Prop :=
  ∀ position node home, rack.nodes[position]? = some node → node.home = some home →
    List.Forall₂ file.Holds home.registers
      ((cells position).contents node.effect.type ++ [(cells position).output])

/-- A voice that tracks a rack, and whose registers hold some cells, can be played from there. -/
theorem running_resumed (hlaid : rack.LaidOut) (h : file.Tracks rack.template)
    (hcells : rack.CellsHeld file cells) : Running rack file (rack.resumed file cells) where
  version := h.version
  fingerprint := h.fingerprint
  rate := rfl
  noise := rfl
  registers := by
    refine ⟨h.size, h.constants, fun position node home hnode hhome => ?_⟩
    show List.Forall₂ _ _ (({ cells position with line := _ } : Cell).contents _ ++ _)
    rw [Cell.contents_with_line]
    exact hcells position node home hnode hhome
  lines := by
    intro position node index hnode hindex
    obtain ⟨seconds, hseconds⟩ : ∃ seconds, rack.template.bufferSeconds[index]? = some seconds := by
      have hmem : index ∈ rack.nodes.flatMap (·.buffer.toList) :=
        List.mem_flatMap.2 ⟨node, List.mem_of_getElem? hnode, by simp [hindex]⟩
      rw [hlaid.buffers, List.mem_range] at hmem
      exact ⟨_, Array.getElem?_eq_getElem hmem⟩
    have hlt : index < file.buffers.size := by
      have hsize : file.buffers.size = rack.template.bufferSeconds.size := by
        simpa using congrArg Array.size h.capacities
      exact hsize.symm ▸ (Array.getElem?_eq_some_iff.1 hseconds).1
    simp [resumed, lineAt, hnode, hindex, hlt]

/-- In a rack of the same layout, and without a fresh trigger, a voice holds the cells that it held. -/
theorem cells_carried {a b : Rack} (ha : a.Built) (hb : b.Built) (hlayout : a.SameLayout b)
    (htracks : file.Tracks a.template) (hcells : a.CellsHeld file cells) (sampleRate : Float32) :
    b.CellsHeld (file.reconcile b.template sampleRate false) cells := by
  intro position node home hnode hhome
  obtain ⟨other, hother, htype⟩ := hlayout.symm.node hnode
  have hhomes := ha.same_home hb.toLaidOut hlayout hother hnode
  have hheld := hcells position other home hother (hhomes.trans hhome)
  rw [htype, List.forall₂_iff_zip] at hheld
  refine List.forall₂_iff_zip.2 ⟨hheld.1, fun {register value} hmem => ?_⟩
  have hslot := (hb.home_of_position hnode hhome).2.2.1 register (List.of_mem_zip hmem).1
  exact (RegisterFile.carried_register htracks ha hb hlayout
    (Template.persisted_of_slot hslot)).trans (hheld.2 hmem)

/-- The cells that a voice held on one rack are held after it is brought in line with another, as
long as the layout stays; else, and at a fresh trigger, the voice holds initial cells. -/
theorem cells_held_reconcile {a b : Rack} (ha : a.Built) (hb : b.Built) (call : Call)
    (cells : Nat → Cell)
    (h : file.version = none ∨ file.Tracks a.template ∧ a.CellsHeld file cells) :
    b.CellsHeld (file.reconcile b.template call.sampleRate call.fresh) cells ∨
      b.CellsHeld (file.reconcile b.template call.sampleRate call.fresh) fun _ => .initial := by
  cases hreset : file.layoutDiffers b.template || call.fresh with
  | true =>
      refine .inr (registers_hold_initial hb.toLaidOut (RegisterFile.reset_values hreset) ?_).cells
      exact fun _ => Cell.restart_zeros _
  | false =>
      obtain ⟨hlayout, hfresh⟩ := Bool.or_eq_false_iff.1 hreset
      rcases h with hnone | ⟨htracks, hcells⟩
      · simp [RegisterFile.layoutDiffers, hnone] at hlayout
      rw [hfresh]
      exact .inl (cells_carried ha hb ((htracks.layout_differs_iff ha hb).1 hlayout) htracks hcells _)

/-- The memory of a node in the state that a voice goes on from is what its buffer holds. -/
theorem line_resumed {index : Nat} {node : Node} {line : DelayLine} {position : Nat}
    (hnode : rack.nodes[position]? = some node) (hindex : node.buffer = some index)
    (hline : file.buffers[index]? = some line) :
    ((rack.resumed file cells).cells position).line = line := by
  simp [resumed, lineAt, hnode, hindex, hline]

end Rack

end SynthRack
