import Mathlib
import SynthRack.Proofs.Rack.Fingerprint

/-!
# Racks of one layout

Two compiled racks are of one layout when their nodes have the same kinds in the same order and the
same registers are persisted. This is what a fingerprint compares (`same_layout_iff`), and it is
enough: the nodes at one position then have the same registers and the same buffer (`same_home`).
`persisted_eq` says what the persisted registers depend on: the kinds of the nodes, and which of their
parameters have a register to themselves.
-/

namespace SynthRack

/-- Lists cut into pieces of the same lengths have the same pieces. -/
theorem pieces_eq {α β γ : Type} {f : α → List γ} {g : β → List γ} {xs : List α} {ys : List β}
    (hlengths : List.Forall₂ (fun x y => (f x).length = (g y).length) xs ys)
    (h : xs.flatMap f = ys.flatMap g) : List.Forall₂ (fun x y => f x = g y) xs ys := by
  induction hlengths with
  | nil => exact .nil
  | cons hlength _ ih =>
      rw [List.flatMap_cons, List.flatMap_cons] at h
      obtain ⟨hfirst, hrest⟩ := List.append_inj h hlength
      exact .cons hfirst (ih hrest)

namespace Rack

/-- The racks have nodes of the same kinds in the same order, and the same registers persist. -/
structure SameLayout (a b : Rack) : Prop where
  types : a.nodes.map (·.effect.type) = b.nodes.map (·.effect.type)
  persisted : a.template.persisted = b.template.persisted

variable {a b : Rack}

/-- Which of two racks comes first does not matter to their layout. -/
theorem SameLayout.symm (h : a.SameLayout b) : b.SameLayout a := ⟨h.types.symm, h.persisted.symm⟩

/-- Racks of one layout have equally many registers. -/
theorem SameLayout.size (h : a.SameLayout b) : a.template.size = b.template.size := by
  simpa [Template.persisted, Template.size] using congrArg Array.size h.persisted

/-- Racks of one layout have equally many nodes. -/
theorem SameLayout.length (h : a.SameLayout b) : a.nodes.length = b.nodes.length := by
  simpa using congrArg List.length h.types

/-- Where one rack has a node, the other has one of the same kind. -/
theorem SameLayout.node (h : a.SameLayout b) {position : Nat} {x : Node}
    (hx : a.nodes[position]? = some x) :
    ∃ y, b.nodes[position]? = some y ∧ y.effect.type = x.effect.type := by
  have htype : (b.nodes.map (·.effect.type))[position]? = some x.effect.type := by
    rw [← h.types, List.getElem?_map, hx, Option.map_some]
  rw [List.getElem?_map] at htype
  exact Option.map_eq_some_iff.1 htype

/-- Racks of one layout have nodes of the same kind at each position. -/
theorem SameLayout.type (h : a.SameLayout b) {position : Nat} {x y : Node}
    (hx : a.nodes[position]? = some x) (hy : b.nodes[position]? = some y) :
    x.effect.type = y.effect.type := by
  obtain ⟨other, hother, htype⟩ := h.node hx
  obtain rfl := Option.some.inj (hy.symm.trans hother)
  exact htype.symm

/-- What follows from the kinds of the nodes holds between the nodes at each position. -/
theorem SameLayout.forall₂ (h : a.SameLayout b) {relation : Node → Node → Prop}
    (hrelation : ∀ x ∈ a.nodes, ∀ y ∈ b.nodes, x.effect.type = y.effect.type → relation x y) :
    List.Forall₂ relation a.nodes b.nodes := by
  refine List.forall₂_iff_get.2 ⟨h.length, fun position hx hy => ?_⟩
  exact hrelation _ (List.get_mem ..) _ (List.get_mem ..)
    (h.type (List.getElem?_eq_getElem hx) (List.getElem?_eq_getElem hy))

/-- The private registers of a placed node. -/
def privateRegisters (node : Node) : List Nat := (node.home.map (·.state)).getD []

namespace LaidOut

variable {rack : Rack}

/-- A node has as many private registers as its kind needs. -/
theorem length_private (h : rack.LaidOut) {node : Node} (hnode : node ∈ rack.nodes) :
    (privateRegisters node).length = node.effect.type.stateCount := by
  obtain ⟨position, hposition⟩ := List.mem_iff_getElem?.1 hnode
  obtain ⟨state, buffer, hhome, hcount, -⟩ := (h.placed position node hposition).home
  rw [privateRegisters, hhome]
  exact hcount

/-- Private registers are persisted. -/
theorem private_persisted (h : rack.LaidOut) {node : Node} (hnode : node ∈ rack.nodes)
    {register : Nat} (hmem : register ∈ privateRegisters node) :
    rack.template.persisted[register]? = some true := by
  obtain ⟨position, hposition⟩ := List.mem_iff_getElem?.1 hnode
  obtain ⟨state, buffer, hhome, -, hstate, -⟩ := (h.placed position node hposition).home
  rw [privateRegisters, hhome] at hmem
  exact Template.persisted_of_slot (hstate register hmem)

/-- Registers that hold constants are not persisted. -/
theorem own_not_persisted (h : rack.LaidOut) {node : Node} (hnode : node ∈ rack.nodes)
    {register : Nat} (hmem : register ∈ node.effect.params.filterMap Param.ownRegister?) :
    rack.template.persisted[register]? = some false := by
  obtain ⟨param, hparam, howner⟩ := List.mem_filterMap.1 hmem
  rcases h.own_or_shared hnode hparam with ⟨own, -, hown, value, hslot⟩ | ⟨hnone, -⟩
  · obtain rfl := Option.some.inj (hown.symm.trans howner)
    exact Template.persisted_of_slot hslot
  · cases hnone.symm.trans howner

/-- Behind the outputs the persisted registers are the private ones of the nodes. -/
theorem private_eq (h : rack.LaidOut) :
    rack.nodes.flatMap privateRegisters =
      (List.range' (outputRegister rack.nodes.length)
        (rack.template.size - outputRegister rack.nodes.length)).filter
          fun register => rack.template.persisted[register]? = some true := by
  rw [← h.owned, List.filter_flatMap]
  refine List.flatMap_congr fun node hnode => ?_
  have hkept : (privateRegisters node).filter
      (fun register => rack.template.persisted[register]? = some true) = privateRegisters node :=
    List.filter_eq_self.2 fun register hmem => decide_eq_true (h.private_persisted hnode hmem)
  have hdropped : (node.effect.params.filterMap Param.ownRegister?).filter
      (fun register => rack.template.persisted[register]? = some true) = [] := by
    refine List.filter_eq_nil_iff.2 fun register hmem hflag => ?_
    cases (h.own_not_persisted hnode hmem).symm.trans (of_decide_eq_true hflag)
  show _ = (privateRegisters node ++ node.effect.params.filterMap Param.ownRegister?).filter _
  rw [List.filter_append, hkept, hdropped, List.append_nil]

/-- Racks of one layout have the same private registers, node by node. -/
theorem same_private (ha : a.LaidOut) (hb : b.LaidOut) (h : a.SameLayout b) :
    List.Forall₂ (fun x y => privateRegisters x = privateRegisters y) a.nodes b.nodes := by
  refine pieces_eq (h.forall₂ fun x hx y hy htype => ?_) ?_
  · rw [ha.length_private hx, hb.length_private hy, htype]
  · rw [ha.private_eq, hb.private_eq, h.length, h.size, h.persisted]

/-- Racks of one layout have equally many buffers. -/
theorem same_buffer_count (ha : a.LaidOut) (hb : b.LaidOut) (h : a.SameLayout b) :
    a.template.bufferSeconds.size = b.template.bufferSeconds.size := by
  have hdelays := congrArg (List.countP (· = EffectType.delay)) h.types
  rw [List.countP_map, List.countP_map] at hdelays
  rw [ha.buffer_count, hb.buffer_count]
  exact hdelays

/-- Racks of one layout have the same buffers, node by node. -/
theorem same_buffer (ha : a.LaidOut) (hb : b.LaidOut) (h : a.SameLayout b) :
    List.Forall₂ (fun x y => x.buffer.toList = y.buffer.toList) a.nodes b.nodes := by
  refine pieces_eq (h.forall₂ fun x hx y hy htype => ?_) ?_
  · have hsome : x.buffer.isSome = y.buffer.isSome := by
      rw [Bool.eq_iff_iff, ha.buffer_is_some hx, hb.buffer_is_some hy, htype]
    rw [Option.length_toList, Option.length_toList, hsome]
  · rw [ha.buffers, hb.buffers, ha.same_buffer_count hb h]

/-- In racks of one layout the nodes at one position have the same registers and the same buffer. -/
theorem same_home (ha : a.LaidOut) (hb : b.LaidOut) (h : a.SameLayout b) {position : Nat}
    {x y : Node} (hx : a.nodes[position]? = some x) (hy : b.nodes[position]? = some y) :
    x.home = y.home := by
  obtain ⟨hltx, rfl⟩ := List.getElem?_eq_some_iff.1 hx
  obtain ⟨hlty, rfl⟩ := List.getElem?_eq_some_iff.1 hy
  have hstate := (ha.same_private hb h).get hltx hlty
  have hbuffer := congrArg List.head? ((ha.same_buffer hb h).get hltx hlty)
  obtain ⟨state, buffer, hhome, -⟩ := (ha.placed position _ hx).home
  obtain ⟨state', buffer', hhome', -⟩ := (hb.placed position _ hy).home
  simp only [List.get_eq_getElem, privateRegisters, Node.buffer, hhome, hhome', Option.map_some,
    Option.getD_some, Option.head?_toList] at hstate hbuffer
  rw [hhome, hhome', hstate, hbuffer]

end LaidOut

/-- Templates have one fingerprint and one size exactly when the racks are of one layout. -/
theorem same_layout_iff (ha : a.template.SealedFor (a.nodes.map (·.effect.type)))
    (hb : b.template.SealedFor (b.nodes.map (·.effect.type))) :
    a.template.fingerprint = b.template.fingerprint ∧ a.template.size = b.template.size ↔
      a.SameLayout b := by
  refine ⟨fun ⟨hfingerprint, hsize⟩ => ?_, fun h => ⟨?_, h.size⟩⟩
  · obtain ⟨htypes, hpersisted, -⟩ := layout_of_fingerprint ha hb hsize hfingerprint
    exact ⟨htypes, hpersisted⟩
  · have hflags (t : Template) :
        t.draft.slots.toList.map (fun slot => if slot.persisted then (1 : UInt8) else 0) =
          t.persisted.toList.map fun flag => if flag then 1 else 0 := by
      rw [Template.persisted, Array.toList_map, List.map_map]
      rfl
    have hsize : a.template.draft.slots.size = b.template.draft.slots.size := h.size
    have hbuffers : a.template.draft.bufferSeconds.size = b.template.draft.bufferSeconds.size := by
      show a.template.bufferSeconds.size = b.template.bufferSeconds.size
      rw [ha.buffers, hb.buffers, h.types]
    rw [ha.fingerprint, hb.fingerprint, layoutFingerprint, layoutFingerprint, hflags, hflags,
      h.types, h.persisted, hsize, hbuffers]

/-! ## What decides the layout -/

/-- Which of the registers that belong to a node are persisted: the private ones, and not those of its
parameters. -/
def ownedFlags (node : Node) : List Bool :=
  List.replicate node.effect.type.stateCount true ++
    List.replicate (node.effect.params.countP (·.binding.ownsRegister)) false

namespace LaidOut

variable {rack : Rack}

/-- As many parameters have a register to themselves as are bound to a constant or to nothing. -/
theorem length_own (h : rack.LaidOut) {node : Node} (hnode : node ∈ rack.nodes) :
    (node.effect.params.filterMap Param.ownRegister?).length =
      node.effect.params.countP (·.binding.ownsRegister) := by
  rw [List.length_filterMap_eq_countP]
  refine List.countP_congr fun param hparam => ?_
  obtain ⟨default, hp⟩ := Effect.mem_params_iff.1 hparam
  rcases Binding.own_or_shared default param.binding with ⟨value, hvalue⟩ | hshared
  · obtain ⟨register, -, howner, -⟩ := h.own_slot hnode hp hvalue
    rw [howner, Binding.owns_register_iff.2 ⟨value, hvalue⟩]
    rfl
  · simp [Param.ownRegister?, hshared]

/-- The flags of the registers that a node owns are those that its parameters call for. -/
theorem owned_flags (h : rack.LaidOut) {node : Node} (hnode : node ∈ rack.nodes) :
    node.ownedRegisters.map (rack.template.persisted[·]?) = (ownedFlags node).map some := by
  have hprivate : (privateRegisters node).map (rack.template.persisted[·]?) =
      List.replicate node.effect.type.stateCount (some true) := by
    refine List.eq_replicate_iff.2 ⟨by rw [List.length_map, h.length_private hnode], ?_⟩
    exact List.forall_mem_map.2 fun register hmem => h.private_persisted hnode hmem
  have hown : (node.effect.params.filterMap Param.ownRegister?).map
      (rack.template.persisted[·]?) =
      List.replicate (node.effect.params.countP (·.binding.ownsRegister)) (some false) := by
    refine List.eq_replicate_iff.2 ⟨by rw [List.length_map, h.length_own hnode], ?_⟩
    exact List.forall_mem_map.2 fun register hmem => h.own_not_persisted hnode hmem
  show (privateRegisters node ++ node.effect.params.filterMap Param.ownRegister?).map _ = _
  rw [List.map_append, hprivate, hown, ownedFlags, List.map_append, List.map_replicate,
    List.map_replicate]

/-- Behind the outputs, whether a register is persisted is up to the node that it belongs to. -/
theorem persisted_owned (h : rack.LaidOut) (place : Nat) :
    rack.template.persisted[outputRegister rack.nodes.length + place]? =
      (rack.nodes.flatMap ownedFlags)[place]? := by
  have hflags : (List.range' (outputRegister rack.nodes.length)
      (rack.template.size - outputRegister rack.nodes.length)).map
        (rack.template.persisted[·]?) = (rack.nodes.flatMap ownedFlags).map some := by
    rw [← h.owned, List.map_flatMap, List.map_flatMap]
    exact List.flatMap_congr fun node hnode => h.owned_flags hnode
  have hsize : rack.template.persisted.size = rack.template.size := by
    simp [Template.persisted, Template.size]
  have hlength := congrArg List.length hflags
  simp only [List.length_map, List.length_range'] at hlength
  by_cases hlt : place < (rack.nodes.flatMap ownedFlags).length
  · have hflag := congrArg (·[place]?) hflags
    simp only [List.getElem?_map] at hflag
    rw [List.getElem?_range' (hlength ▸ hlt), Nat.one_mul, Option.map_some,
      List.getElem?_eq_getElem hlt, Option.map_some] at hflag
    rw [Option.some.inj hflag, List.getElem?_eq_getElem hlt]
  · rw [List.getElem?_eq_none (by omega), Array.getElem?_eq_none (by omega)]

/-- The persisted registers of a rack: no inputs, all outputs, and of each node the private ones. -/
theorem persisted_eq (h : rack.LaidOut) :
    rack.template.persisted.toList = List.replicate Builtin.count false ++
      (List.replicate rack.nodes.length true ++ rack.nodes.flatMap ownedFlags) := by
  refine List.ext_getElem? fun register => ?_
  rw [Array.getElem?_toList]
  by_cases hinput : register < Builtin.count
  · obtain ⟨input, rfl⟩ : ∃ input : Builtin, input.register = register := by
      have hfour : register < 4 := hinput
      interval_cases register
      exacts [⟨.keyFrequency, rfl⟩, ⟨.signal, rfl⟩, ⟨.sampleDt, rfl⟩, ⟨.signalRaw, rfl⟩]
    rw [Template.persisted_of_slot (h.inputs input),
      List.getElem?_append_left (by simpa using hinput), List.getElem?_replicate, if_pos hinput]
  obtain ⟨position, rfl⟩ := Nat.exists_eq_add_of_le (Nat.le_of_not_lt hinput)
  rw [List.getElem?_append_right (by simp), List.length_replicate, Nat.add_sub_cancel_left]
  by_cases houtput : position < rack.nodes.length
  · have hslot := h.outputs position houtput
    rw [outputRegister] at hslot
    rw [Template.persisted_of_slot hslot, List.getElem?_append_left (by simpa using houtput),
      List.getElem?_replicate, if_pos houtput]
  · obtain ⟨place, rfl⟩ := Nat.exists_eq_add_of_le (Nat.le_of_not_lt houtput)
    rw [List.getElem?_append_right (by simp), List.length_replicate, Nat.add_sub_cancel_left,
      ← h.persisted_owned, outputRegister, Nat.add_assoc]

end LaidOut

/-- A rack that was laid out and whose template was sealed for its nodes. -/
structure Built (rack : Rack) : Prop extends rack.LaidOut where
  is_sealed : rack.template.SealedFor (rack.nodes.map (·.effect.type))

/-- A compiled rack is built. -/
theorem built_compile (rack : Rack) (version : Nat) : (rack.compile version).Built :=
  ⟨rack.laid_out_compile version, sealed_compile rack version⟩

/-- A built rack stays so with another cursor. -/
theorem Built.with_cursor (h : a.Built) (cursor : Option Nat) : { a with cursor }.Built :=
  ⟨h.toLaidOut.with_cursor cursor, h.is_sealed⟩

end Rack

end SynthRack
