import Mathlib
import SynthRack.Rack.Compile
import SynthRack.Proofs.Rack.DenseIds
import SynthRack.Proofs.Rack.Placement

/-!
# The layout of a compiled rack

`Rack.LaidOut` collects what compilation establishes about registers, buffers and IDs, in terms of
the compiled rack alone. `laid_out_compile` proves it for every rack. The rest of the module draws
the consequences that playing relies on: persisted registers of different nodes are different
registers, and no constant shares one with them.
-/

namespace SynthRack

/-- What is related is there on both sides or on neither. -/
theorem is_some_eq_of_rel {α β : Type} {relation : α → β → Prop} {a : Option α} {b : Option β}
    (h : Option.Rel relation a b) : a.isSome = b.isSome := by
  cases h <;> rfl

/-- Lists that agree entry by entry in some respect agree in it as a whole. -/
theorem map_eq_of_forall₂ {α β γ : Type} {f : α → γ} {g : β → γ} {xs : List α} {ys : List β}
    (h : List.Forall₂ (fun x y => f x = g y) xs ys) : xs.map f = ys.map g := by
  induction h with
  | nil => rfl
  | cons hhead _ ih => rw [List.map_cons, List.map_cons, hhead, ih]

/-- The registers that playing a node writes: its private registers and its output. -/
def Home.registers (home : Home) : List Nat := home.state ++ [home.output]

/-- A node owns the registers that its parameters have to themselves. -/
theorem Node.mem_owned_of_param {node : Node} {param : Param} {register : Nat}
    (hparam : param ∈ node.effect.params) (howner : param.ownRegister? = some register) :
    register ∈ node.ownedRegisters :=
  List.mem_append_right _ (List.mem_filterMap.2 ⟨param, hparam, howner⟩)

/-- Defaults depend on the form of an effect alone. -/
theorem Effect.defaults_of_form {P Q : Type} {e : Effect P} {d : Effect Q}
    (h : e.form = d.form) :
    e.withDefaults.params.map Prod.snd = d.withDefaults.params.map Prod.snd := by
  have hforget {R : Type} (c : Effect R) :
      c.form.withDefaults.params.map Prod.snd = c.withDefaults.params.map Prod.snd := by
    rw [form, with_defaults_map, params_map, List.map_map]
    rfl
  rw [← hforget e, ← hforget d, h]

/-- A placed parameter is what placement makes of it. -/
theorem ParamPlaced.self {positions : Array Nat} {final : Draft} {before : Param × Float32}
    {after : Param} (h : ParamPlaced positions final before after) :
    ParamPlaced positions final (after, before.2) after where
  binding := by
    show after.binding = after.binding.resolved positions before.2
    rw [h.binding, Binding.resolved_resolved]
  own := h.own
  shared := h.shared

/-- Parameters that were placed are placed as they are. -/
theorem params_placed_self {positions : Array Nat} {final : Draft}
    {befores : List (Param × Float32)} {afters : List Param}
    (h : List.Forall₂ (ParamPlaced positions final) befores afters) :
    List.Forall₂ (ParamPlaced positions final) (afters.zip (befores.map Prod.snd)) afters := by
  induction h with
  | nil => exact .nil
  | cons hparam _ ih => exact .cons hparam.self ih

/-- The defaults of a node stay where they were. -/
theorem NodePlaced.paired {positions : Array Nat} {final : Draft} {before : Node × Nat}
    {after : Node} (h : NodePlaced positions final before after) :
    after.effect.withDefaults.params =
      after.effect.params.zip (before.1.effect.withDefaults.params.map Prod.snd) := by
  rw [← Effect.defaults_of_form h.form]
  conv_rhs => rw [← Effect.map_fst_params_with_defaults after.effect]
  rw [List.zip_map', List.map_id']

/-- A placed node is what placement makes of it. -/
theorem NodePlaced.self {positions : Array Nat} {final : Draft} {before : Node × Nat} {after : Node}
    (h : NodePlaced positions final before after) :
    NodePlaced positions final (after, before.2) after where
  id := rfl
  toDelete := rfl
  enabled := rfl
  form := rfl
  params := by
    rw [h.paired]
    exact params_placed_self h.params
  home := by
    obtain ⟨state, buffer, hhome, hcount, hstate, hbuffer⟩ := h.home
    have htype : after.effect.type = before.1.effect.type := by
      rw [← Effect.type_form, h.form, Effect.type_form]
    exact ⟨state, buffer, hhome, htype ▸ hcount, hstate, hbuffer⟩

/-- The registers and buffers of a template as a finished draft. -/
def Template.draft (t : Template) : Draft := ⟨t.slots, t.bufferSeconds⟩

/-- The value of a register is the one in its slot. -/
theorem Template.value_of_slot {t : Template} {register : Nat} {slot : Slot}
    (h : t.slots[register]? = some slot) : t.values[register]? = some slot.initial := by
  rw [values, Array.getElem?_map, h, Option.map_some]

/-- The flag of a register is the one in its slot. -/
theorem Template.persisted_of_slot {t : Template} {register : Nat} {slot : Slot}
    (h : t.slots[register]? = some slot) : t.persisted[register]? = some slot.persisted := by
  rw [persisted, Array.getElem?_map, h, Option.map_some]

namespace Rack

/-- What a compiled rack guarantees. -/
structure LaidOut (rack : Rack) : Prop where
  dense : DenseIds (rack.nodes.map (·.id))
  positions : rack.positions = positionTable (rack.nodes.map (·.id))
  kept : ∀ node ∈ rack.nodes, node.toDelete = false
  placed : ∀ position node, rack.nodes[position]? = some node →
    NodePlaced rack.positions rack.template.draft (node, position) node
  inputs : ∀ input : Builtin, rack.template.slots[input.register]? = some ⟨0, false⟩
  outputs : ∀ position, position < rack.nodes.length →
    rack.template.slots[outputRegister position]? = some ⟨0, true⟩
  /-- Behind the inputs and the outputs every register belongs to one node. -/
  owned : rack.nodes.flatMap Node.ownedRegisters =
    List.range' (outputRegister rack.nodes.length)
      (rack.template.size - outputRegister rack.nodes.length)
  buffers : rack.nodes.flatMap (·.buffer.toList) = List.range rack.template.bufferSeconds.size

/-! ## IDs -/

/-- Assignment gives each node its ID and changes nothing else. -/
theorem identify_eq (rack : Rack) :
    rack.identify.nodes =
      (rack.nodes.zip (assignedIds (rack.nodes.map (·.id)))).map fun (node, id) =>
        { node with id } := by
  rw [identify, List.map_zip_eq_zipWith]
  rfl

/-- The IDs after assignment are the assigned ones. -/
theorem ids_identify (rack : Rack) :
    rack.identify.nodes.map (·.id) = assignedIds (rack.nodes.map (·.id)) := by
  rw [identify_eq, List.map_map]
  exact List.map_snd_zip (by rw [length_assigned_ids, List.length_map])

/-- After compaction every node has its position for its ID. -/
theorem ids_compact (rack : Rack) :
    rack.compact.nodes.map (·.id) = (List.range rack.survivors.length).map some := by
  refine List.ext_getElem (by simp [compact]) ?_
  intro position hleft hright
  simp [compact]

/-- The IDs of a settled rack are dense. -/
theorem ids_settle_dense (rack : Rack) : DenseIds (rack.settle.nodes.map (·.id)) := by
  show DenseIds ((if rack.identify.hasDeleted then rack.identify.compact
    else rack.identify).nodes.map (·.id))
  split
  case isTrue =>
    rw [ids_compact]
    exact .range _
  case isFalse =>
    rw [ids_identify]
    exact assigned_ids_dense _

/-- No node of a settled rack is to be deleted. -/
theorem kept_settle {rack : Rack} {node : Node} (h : node ∈ rack.settle.nodes) :
    node.toDelete = false := by
  change node ∈ (if rack.identify.hasDeleted then rack.identify.compact
    else rack.identify).nodes at h
  split at h
  case isTrue =>
    obtain ⟨position, hlt, rfl⟩ := List.mem_iff_getElem.1 h
    have hposition : position < rack.identify.survivors.length := by simpa [compact] using hlt
    have hmem := List.getElem_mem hposition
    simpa [compact, survivors] using (List.mem_filter.1 hmem).2
  case isFalse hnone =>
    simpa using (List.any_eq_false.1 (by simpa [hasDeleted] using hnone)) node h

/-! ## Allocation -/

/-- The nodes of a compiled rack are those of the settled one, placed. -/
theorem nodes_compile (rack : Rack) (version : Nat) :
    (rack.compile version).nodes =
      ((placeNodes rack.settle.positions rack.settle.nodes 0).run
        (.start rack.settle.nodes.length)).1 := rfl

/-- The draft of a compiled rack is what placing its nodes leaves. -/
theorem draft_compile (rack : Rack) (version : Nat) :
    (rack.compile version).template.draft =
      ((placeNodes rack.settle.positions rack.settle.nodes 0).run
        (.start rack.settle.nodes.length)).2 := rfl

/-- Every node that is settled is placed in the compiled rack, at its own position. -/
theorem placed_compile (rack : Rack) (version : Nat) :
    List.Forall₂ (NodePlaced rack.settle.positions (rack.compile version).template.draft)
      rack.settle.nodes.zipIdx (rack.compile version).nodes := by
  rw [draft_compile, nodes_compile]
  exact place_nodes_placed (.refl _)

/-- The node at a position of a compiled rack was settled there. -/
theorem placed_of_position {rack : Rack} {version position : Nat} {node : Node}
    (h : (rack.compile version).nodes[position]? = some node) :
    ∃ before, rack.settle.nodes[position]? = some before ∧
      NodePlaced rack.settle.positions (rack.compile version).template.draft (before, position)
        node := by
  obtain ⟨hlt, rfl⟩ := List.getElem?_eq_some_iff.1 h
  have hplaced := placed_compile rack version
  have hbefore : position < rack.settle.nodes.zipIdx.length := hplaced.length_eq ▸ hlt
  refine ⟨_, List.getElem?_eq_getElem (by simpa using hbefore), ?_⟩
  simpa using hplaced.get hbefore hlt

/-- Placing makes and drops no nodes. -/
theorem length_compile (rack : Rack) (version : Nat) :
    (rack.compile version).nodes.length = rack.settle.nodes.length := by
  rw [← (placed_compile rack version).length_eq, List.length_zipIdx]

/-- Placement leaves the IDs as they are. -/
theorem ids_compile (rack : Rack) (version : Nat) :
    (rack.compile version).nodes.map (·.id) = rack.settle.nodes.map (·.id) := by
  have hids : rack.settle.nodes.zipIdx.map (·.1.id) = (rack.compile version).nodes.map (·.id) :=
    map_eq_of_forall₂ ((placed_compile rack version).imp fun _ _ h => h.id.symm)
  rw [← hids]
  exact (List.map_map (l := rack.settle.nodes.zipIdx) (f := Prod.fst) (g := Node.id)).symm.trans
    (congrArg _ (List.zipIdx_map_fst ..))

/-- The inputs and the outputs come first in the template. -/
theorem start_extends (rack : Rack) (version : Nat) :
    (Draft.start rack.settle.nodes.length).Extends (rack.compile version).template.draft := by
  rw [draft_compile]
  exact place_nodes_extends _ _ _ _

/-- Compilation lays out every rack. -/
theorem laid_out_compile (rack : Rack) (version : Nat) : (rack.compile version).LaidOut where
  dense := by
    rw [ids_compile]
    exact ids_settle_dense rack
  positions := by
    rw [ids_compile]
    rfl
  kept := by
    intro node hnode
    obtain ⟨position, hnode⟩ := List.mem_iff_getElem?.1 hnode
    obtain ⟨before, hbefore, hplaced⟩ := placed_of_position hnode
    rw [hplaced.toDelete]
    exact kept_settle (List.mem_of_getElem? hbefore)
  placed := by
    intro position node hnode
    obtain ⟨before, -, hplaced⟩ := placed_of_position hnode
    exact hplaced.self
  inputs := by
    intro input
    refine (start_extends rack version).slot ?_
    have hlt : input.register < (Array.replicate Builtin.count (⟨0, false⟩ : Slot)).size := by
      rw [Array.size_replicate]
      exact input.register_lt
    rw [Draft.start, Array.getElem?_append_left hlt]
    rw [Array.getElem?_replicate, if_pos input.register_lt]
  outputs := by
    intro position hposition
    refine (start_extends rack version).slot ?_
    rw [length_compile] at hposition
    simp [Draft.start, outputRegister, hposition]
  owned := by
    have howned := owned_registers_place_nodes rack.settle.positions
      rack.settle.nodes 0 (.start rack.settle.nodes.length)
    rw [← nodes_compile rack version, ← draft_compile rack version] at howned
    simpa [Draft.start, length_compile, outputRegister, Template.draft, Template.size] using howned
  buffers := by
    have hbuffers := buffers_place_nodes rack.settle.positions
      rack.settle.nodes 0 (.start rack.settle.nodes.length)
    rw [← nodes_compile rack version, ← draft_compile rack version] at hbuffers
    simpa [Draft.start, List.range_eq_range', Template.draft] using hbuffers

/-! ## Registers apart -/

namespace LaidOut

variable {rack : Rack}

/-- The position a reference leads to is one of the list. -/
theorem position_lt (h : rack.LaidOut) {id position : Nat}
    (hid : rack.positions[id]? = some position) : position < rack.nodes.length := by
  rw [h.positions, position_table_eq_some_iff h.dense] at hid
  simpa using (List.getElem?_eq_some_iff.1 hid).1

/-- The ID that a reference names is that of the node at the position it leads to. -/
theorem id_of_position (h : rack.LaidOut) {id position : Nat} :
    rack.positions[id]? = some position ↔
      ∃ node, rack.nodes[position]? = some node ∧ node.id = some id := by
  rw [h.positions, position_table_eq_some_iff h.dense, List.getElem?_map, Option.map_eq_some_iff]

/-- Searching for the node with an ID leads to where the table of positions does. -/
theorem find_id (h : rack.LaidOut) {id position : Nat} (hid : rack.positions[id]? = some position) :
    rack.nodes.findIdx? (·.id == some id) = some position := by
  obtain ⟨node, hnode, hnodeId⟩ := h.id_of_position.1 hid
  obtain ⟨hlt, rfl⟩ := List.getElem?_eq_some_iff.1 hnode
  refine List.findIdx?_eq_some_iff_getElem.2 ⟨hlt, by simpa using hnodeId, ?_⟩
  intro q hq hqid
  have hq' : (rack.nodes.map (·.id))[q]? = some (some id) := by
    rw [List.getElem?_map, List.getElem?_eq_getElem (hq.trans hlt), Option.map_some,
      eq_of_beq hqid]
  have hposition : (rack.nodes.map (·.id))[position]? = some (some id) := by
    rw [List.getElem?_map, hnode, Option.map_some, hnodeId]
  exact Nat.ne_of_lt hq (h.dense.position_unique hq' hposition)

/-- No register is owned by two nodes, or twice by one. -/
theorem owned_nodup (h : rack.LaidOut) : (rack.nodes.flatMap Node.ownedRegisters).Nodup := by
  rw [h.owned]
  exact List.nodup_range'

/-- A node's own registers are behind the inputs and the outputs. -/
theorem owned_ge (h : rack.LaidOut) {node : Node} (hnode : node ∈ rack.nodes) {register : Nat}
    (hregister : register ∈ node.ownedRegisters) :
    outputRegister rack.nodes.length ≤ register := by
  have hmem : register ∈ rack.nodes.flatMap Node.ownedRegisters :=
    List.mem_flatMap.2 ⟨node, hnode, hregister⟩
  rw [h.owned] at hmem
  exact (List.mem_range'_1.1 hmem).1

/-- No two nodes own one register. -/
theorem owner_unique (h : rack.LaidOut) {p q : Nat} {a b : Node}
    (ha : rack.nodes[p]? = some a) (hb : rack.nodes[q]? = some b) {register : Nat}
    (hra : register ∈ a.ownedRegisters) (hrb : register ∈ b.ownedRegisters) : p = q := by
  obtain ⟨hp, rfl⟩ := List.getElem?_eq_some_iff.1 ha
  obtain ⟨hq, rfl⟩ := List.getElem?_eq_some_iff.1 hb
  -- The owned registers of all nodes, in one list, have no duplicates.
  have hdisjoint := List.pairwise_iff_getElem.1 (List.nodup_flatMap.1 h.owned_nodup).2
  rcases Nat.lt_trichotomy p q with hlt | heq | hgt
  · exact absurd hrb (hdisjoint p q hp hq hlt hra)
  · exact heq
  · exact absurd hra (hdisjoint q p hq hp hgt hrb)

/-- No two nodes have one buffer. -/
theorem buffer_unique (h : rack.LaidOut) {p q : Nat} {a b : Node}
    (ha : rack.nodes[p]? = some a) (hb : rack.nodes[q]? = some b) {index : Nat}
    (hba : a.buffer = some index) (hbb : b.buffer = some index) : p = q := by
  obtain ⟨hp, rfl⟩ := List.getElem?_eq_some_iff.1 ha
  obtain ⟨hq, rfl⟩ := List.getElem?_eq_some_iff.1 hb
  have hnodup : (rack.nodes.flatMap (·.buffer.toList)).Nodup := h.buffers ▸ List.nodup_range
  have hdisjoint := List.pairwise_iff_getElem.1 (List.nodup_flatMap.1 hnodup).2
  rcases Nat.lt_trichotomy p q with hlt | heq | hgt
  · exact absurd (by simp [hbb]) (hdisjoint p q hp hq hlt (a := index) (by simp [hba]))
  · exact heq
  · exact absurd (by simp [hba]) (hdisjoint q p hq hp hgt (a := index) (by simp [hbb]))

/-- A parameter of a laid out rack is placed. -/
theorem param_placed (h : rack.LaidOut) {node : Node} (hnode : node ∈ rack.nodes)
    {p : Param × Float32} (hp : p ∈ node.effect.withDefaults.params) :
    ParamPlaced rack.positions rack.template.draft p p.1 := by
  obtain ⟨position, hposition⟩ := List.mem_iff_getElem?.1 hnode
  have hplaced := (h.placed position node hposition).params
  rw [← Effect.map_fst_params_with_defaults node.effect, List.forall₂_map_right_iff,
    List.forall₂_same] at hplaced
  exact hplaced p hp

/-- A parameter bound to a constant or to nothing has a register to itself behind those of the inputs,
which holds the constant or the default. -/
theorem own_slot (h : rack.LaidOut) {node : Node} (hnode : node ∈ rack.nodes) {p : Param × Float32}
    (hp : p ∈ node.effect.withDefaults.params) {value : Float32}
    (hvalue : p.1.binding.ownValue? p.2 = some value) :
    ∃ register, p.1.register = some register ∧ p.1.ownRegister? = some register ∧
      Builtin.count ≤ register ∧ rack.template.slots[register]? = some ⟨value, false⟩ := by
  obtain ⟨register, hregister, hslot⟩ := (h.param_placed hnode hp).own value hvalue
  have howner : p.1.ownRegister? = some register := by
    rw [Param.ownRegister?, if_pos (Binding.owns_register_iff.2 ⟨value, hvalue⟩), hregister]
  have hparam : p.1 ∈ node.effect.params := Effect.mem_params_iff.2 ⟨p.2, hp⟩
  have hge := h.owned_ge hnode (Node.mem_owned_of_param hparam howner)
  exact ⟨register, hregister, howner, (Nat.le_add_right _ _).trans hge, hslot⟩

/-- The registers and the buffer of the node at a position. -/
theorem home_of_position (h : rack.LaidOut) {position : Nat} {node : Node} {home : Home}
    (hnode : rack.nodes[position]? = some node) (hhome : node.home = some home) :
    home.output = outputRegister position ∧ home.state.length = node.effect.type.stateCount ∧
      (∀ register ∈ home.registers, rack.template.slots[register]? = some ⟨0, true⟩) ∧
      home.registers.Nodup := by
  have hlt := (List.getElem?_eq_some_iff.1 hnode).1
  obtain ⟨state, buffer, hplaced, hcount, hstate, -⟩ := (h.placed position node hnode).home
  obtain rfl := Option.some.inj (hhome.symm.trans hplaced)
  have howned : node.ownedRegisters.Nodup :=
    (List.nodup_flatMap.1 h.owned_nodup).1 node (List.mem_of_getElem? hnode)
  rw [Node.ownedRegisters, hhome] at howned
  refine ⟨rfl, hcount, fun register hregister => ?_, ?_⟩
  · rcases List.mem_append.1 hregister with hmem | hmem
    · exact hstate register hmem
    · rw [List.mem_singleton.1 hmem]
      exact h.outputs position hlt
  · refine List.nodup_append.2 ⟨howned.of_append_left, by simp, ?_⟩
    intro register hmem other hother
    have howner : register ∈ node.ownedRegisters :=
      List.mem_append_left _ (by simpa [hhome] using hmem)
    have hge := h.owned_ge (List.mem_of_getElem? hnode) howner
    rw [List.mem_singleton.1 hother]
    simp only [outputRegister] at hge ⊢
    omega

/-- No two nodes share an output or a private register. -/
theorem registers_apart (h : rack.LaidOut) {p q : Nat} {a b : Node} {home other : Home}
    (ha : rack.nodes[p]? = some a) (hhome : a.home = some home)
    (hb : rack.nodes[q]? = some b) (hother : b.home = some other) (hne : p ≠ q) {register : Nat}
    (hregister : register ∈ home.registers) : register ∉ other.registers := by
  have hp := (List.getElem?_eq_some_iff.1 ha).1
  have hq := (List.getElem?_eq_some_iff.1 hb).1
  have howned : ∀ register ∈ home.state, register ∈ a.ownedRegisters := fun register hmem =>
    List.mem_append_left _ (by simpa [hhome] using hmem)
  have howned' : ∀ register ∈ other.state, register ∈ b.ownedRegisters := fun register hmem =>
    List.mem_append_left _ (by simpa [hother] using hmem)
  intro hmem
  simp only [Home.registers, List.mem_append, List.mem_singleton,
    (h.home_of_position ha hhome).1, (h.home_of_position hb hother).1] at hregister hmem
  rcases hregister with hregister | rfl <;> rcases hmem with hmem | hmem
  · exact hne (h.owner_unique ha hb (howned _ hregister) (howned' _ hmem))
  · have hge := h.owned_ge (List.mem_of_getElem? ha) (howned _ hregister)
    simp only [outputRegister] at hge hmem
    omega
  · have hge := h.owned_ge (List.mem_of_getElem? hb) (howned' _ hmem)
    simp only [outputRegister] at hge
    omega
  · simp only [outputRegister] at hmem
    omega

/-- A shared register is an input's or an output. -/
theorem shared_lt (h : rack.LaidOut) {binding : Binding} {register : Nat}
    (hshared : binding.sharedRegister? rack.positions = some register) :
    register < outputRegister rack.nodes.length := by
  cases binding with
  | builtin input =>
      obtain rfl := Option.some.inj hshared
      exact Nat.lt_add_right _ input.register_lt
  | node id =>
      obtain ⟨position, hid, rfl⟩ := Option.map_eq_some_iff.1 hshared
      exact Nat.add_lt_add_left (h.position_lt hid) _
  | _ => cases hshared

/-- A parameter has a register to itself, or that of an input or an output. -/
theorem own_or_shared (h : rack.LaidOut) {node : Node} (hnode : node ∈ rack.nodes) {param : Param}
    (hparam : param ∈ node.effect.params) :
    (∃ register, param.register = some register ∧ param.ownRegister? = some register ∧
      ∃ value, rack.template.slots[register]? = some ⟨value, false⟩) ∨
    (param.ownRegister? = none ∧
      ∀ register ∈ param.register, register < outputRegister rack.nodes.length) := by
  obtain ⟨default, hp⟩ := Effect.mem_params_iff.1 hparam
  rcases Binding.own_or_shared default param.binding with ⟨value, hvalue⟩ | hnone
  · obtain ⟨register, hregister, howner, -, hslot⟩ := h.own_slot hnode hp hvalue
    exact Or.inl ⟨register, hregister, howner, value, hslot⟩
  · refine Or.inr ⟨by simp [Param.ownRegister?, hnone], ?_⟩
    intro register hregister
    exact h.shared_lt (((h.param_placed hnode hp).shared hnone).symm.trans hregister)

/-- A parameter does not read its own node's private registers. -/
theorem param_apart (h : rack.LaidOut) {node : Node} (hnode : node ∈ rack.nodes) {home : Home}
    (hhome : node.home = some home) :
    ∀ p ∈ node.effect.params, ∀ register ∈ home.state, p.register ≠ some register := by
  intro p hp register hstate hregister
  obtain ⟨position, hposition⟩ := List.mem_iff_getElem?.1 hnode
  rcases h.own_or_shared hnode hp with ⟨own, hown, -, value, hslot⟩ | ⟨-, hshared⟩
  · obtain rfl := Option.some.inj (hown.symm.trans hregister)
    have hstateSlot := (h.home_of_position hposition hhome).2.2.1 own
      (List.mem_append_left _ hstate)
    cases hslot.symm.trans hstateSlot
  · have howner : register ∈ node.ownedRegisters :=
      List.mem_append_left _ (by simpa [hhome] using hstate)
    have hge := h.owned_ge hnode howner
    have hlt := hshared register hregister
    omega

/-- Where the cursor is set plays no part in the layout. -/
theorem with_cursor (h : rack.LaidOut) (cursor : Option Nat) : { rack with cursor }.LaidOut :=
  ⟨h.dense, h.positions, h.kept, h.placed, h.inputs, h.outputs, h.owned, h.buffers⟩

end LaidOut

end Rack

end SynthRack
