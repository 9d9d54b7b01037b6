import Mathlib
import SynthRack.Proofs.Rack.Layout
import SynthRack.Proofs.Signal.Duration

/-!
# Who owns a register

After compilation every register of the template has one `Owner`: an input, the output or a private
register of one node, or one parameter that is bound to a constant or to nothing. `Rack.OneOwner`
states it, together with what the other parameters read and how delays come by their buffers;
`one_owner_compile` proves it for every rack. It restates `Rack.LaidOut`, which lists the registers
of the nodes in order, register by register.
-/

namespace SynthRack

/-- What a register of a compiled rack can belong to. Positions count nodes from zero. -/
inductive Owner where
  | input (input : Builtin)
  /-- The last sample of a node. -/
  | output (position : Nat)
  /-- A private register of a node. -/
  | state (position index : Nat)
  /-- A parameter of a node, counted in the order of `Effect.params`. -/
  | parameter (position index : Nat)
  deriving DecidableEq

/-- Outputs and private registers outlive a compilation. -/
def Owner.persists : Owner → Bool
  | output _ | state _ _ => true
  | input _ | parameter _ _ => false

namespace Rack

/-- The register of an owner, if the rack has that owner. Parameters that read an input or a node
own nothing. -/
def registerOf (rack : Rack) : Owner → Option Nat
  | .input input => some input.register
  | .output position => rack.nodes[position]?.bind (·.output)
  | .state position index => rack.nodes[position]?.bind (·.state index)
  | .parameter position index =>
    rack.nodes[position]?.bind fun node => node.effect.params[index]?.bind (·.ownRegister?)

/-- Every register and every buffer belongs to one owner. -/
structure OneOwner (rack : Rack) : Prop where
  owner : ∀ register, register < rack.template.size →
    ∃! owner, rack.registerOf owner = some register
  /-- Owners have registers of the template; persisted are those of outputs and private state. -/
  slot : ∀ owner register, rack.registerOf owner = some register →
    ∃ initial, rack.template.slots[register]? = some ⟨initial, owner.persists⟩
  output : ∀ position, position < rack.nodes.length →
    rack.registerOf (.output position) = some (Builtin.count + position)
  state : ∀ position node, rack.nodes[position]? = some node → ∀ index,
    (rack.registerOf (.state position index)).isSome = true ↔ index < node.effect.type.stateCount
  /-- A parameter bound to a constant or to nothing owns a register, which holds the constant or the
  default. -/
  parameter : ∀ position node index param default value, rack.nodes[position]? = some node →
    node.effect.withDefaults.params[index]? = some (param, default) →
    param.binding.ownValue? default = some value →
    ∃ register, param.register = some register ∧
      rack.registerOf (.parameter position index) = some register ∧
      rack.template.slots[register]? = some ⟨value, false⟩
  builtin : ∀ node ∈ rack.nodes, ∀ param ∈ node.effect.params, ∀ input,
    param.binding = .builtin input → param.register = some input.register
  /-- A reference reads the output of the one node with its ID. -/
  reference : ∀ node ∈ rack.nodes, ∀ param ∈ node.effect.params, ∀ id,
    param.binding = .node id → ∃ position,
      (∀ place, (∃ other, rack.nodes[place]? = some other ∧ other.id = some id) ↔ place = position) ∧
      param.register = rack.registerOf (.output position)
  buffer : ∀ node ∈ rack.nodes, node.buffer.isSome = true ↔ node.effect.type = .delay
  buffersApart : ∀ (p q : Nat) (a b : Node) (index : Nat), rack.nodes[p]? = some a →
    rack.nodes[q]? = some b → a.buffer = some index → b.buffer = some index → p = q
  /-- The buffer of a delay is made for the duration that the delay asks for. -/
  bufferDuration : ∀ node ∈ rack.nodes, ∀ d index, node.effect = .delay d →
    node.buffer = some index → rack.template.bufferSeconds[index]? =
      some (bufferedSeconds (requestedSeconds d.seconds.binding))
  bufferCount : rack.template.bufferSeconds.size = rack.nodes.countP (·.effect.type = .delay)
  bufferBounds : ∀ seconds ∈ rack.template.bufferSeconds, 0 ≤ seconds ∧ seconds ≤ maxDelaySeconds
  /-- What is negative or no number needs no buffer. -/
  bufferZero : ∀ node ∈ rack.nodes, ∀ d value index, node.effect = .delay d →
    d.seconds.binding = .constant value → value < 0 ∨ value.isNaN = true →
    node.buffer = some index → rack.template.bufferSeconds[index]? = some 0

namespace LaidOut

variable {rack : Rack}

/-! ## Owners of registers -/

/-- The list of a node's own registers names each of them once. -/
theorem index_unique {α : Type} {f : α → Option Nat} {xs : List α} (h : (xs.filterMap f).Nodup)
    {i j register : Nat} (hi : xs[i]?.bind f = some register) (hj : xs[j]?.bind f = some register) :
    i = j := by
  obtain ⟨x, hx, hfx⟩ := Option.bind_eq_some_iff.1 hi
  obtain ⟨y, hy, hfy⟩ := Option.bind_eq_some_iff.1 hj
  obtain ⟨hilt, rfl⟩ := List.getElem?_eq_some_iff.1 hx
  obtain ⟨hjlt, rfl⟩ := List.getElem?_eq_some_iff.1 hy
  have hpairs := List.pairwise_iff_getElem.1 (List.pairwise_filterMap.1 h)
  rcases Nat.lt_trichotomy i j with hlt | heq | hgt
  · exact absurd rfl (hpairs i j hilt hjlt hlt register hfx register hfy)
  · exact heq
  · exact absurd rfl (hpairs j i hjlt hilt hgt register hfy register hfx)

/-- The output of a node is at the register that its position gives. -/
theorem output_of_position (h : rack.LaidOut) {position : Nat} (hlt : position < rack.nodes.length) :
    rack.registerOf (.output position) = some (outputRegister position) := by
  have hnode := List.getElem?_eq_getElem hlt
  obtain ⟨state, buffer, hhome, -⟩ := (h.placed position _ hnode).home
  rw [registerOf, hnode, Option.bind_some, Node.output, hhome, Option.map_some]

/-- A register of an output tells the position of the node. -/
theorem output_register (h : rack.LaidOut) {position register : Nat}
    (howner : rack.registerOf (.output position) = some register) :
    position < rack.nodes.length ∧ register = outputRegister position := by
  obtain ⟨node, hnode, -⟩ := Option.bind_eq_some_iff.1 howner
  have hlt := (List.getElem?_eq_some_iff.1 hnode).1
  exact ⟨hlt, Option.some.inj (howner.symm.trans (h.output_of_position hlt))⟩

/-- A private register is one of the home of its node. -/
theorem state_register {position index register : Nat}
    (howner : rack.registerOf (.state position index) = some register) :
    ∃ node home, rack.nodes[position]? = some node ∧ node.home = some home ∧
      home.state[index]? = some register := by
  obtain ⟨node, hnode, hstate⟩ := Option.bind_eq_some_iff.1 howner
  cases hhome : node.home with
  | none => simp [Node.state, hhome] at hstate
  | some home => exact ⟨node, home, hnode, hhome, by simpa [Node.state, hhome] using hstate⟩

/-- A register of a parameter is the one that the parameter has to itself. -/
theorem parameter_register {position index register : Nat}
    (howner : rack.registerOf (.parameter position index) = some register) :
    ∃ node param, rack.nodes[position]? = some node ∧ node.effect.params[index]? = some param ∧
      param.ownRegister? = some register := by
  obtain ⟨node, hnode, hparam⟩ := Option.bind_eq_some_iff.1 howner
  obtain ⟨param, hparam, hregister⟩ := Option.bind_eq_some_iff.1 hparam
  exact ⟨node, param, hnode, hparam, hregister⟩

/-- The node at a position owns the register, other than by its output. -/
def Inner (rack : Rack) (owner : Owner) (position register : Nat) : Prop :=
  ((∃ index, owner = .state position index) ∨ ∃ index, owner = .parameter position index) ∧
    ∃ node, rack.nodes[position]? = some node ∧ register ∈ node.ownedRegisters

/-- An owner is an input, an output, or within a node, and these are three stretches of registers. -/
theorem owner_cases (h : rack.LaidOut) {owner : Owner} {register : Nat}
    (howner : rack.registerOf owner = some register) :
    (register < Builtin.count ∧ ∃ input, owner = .input input ∧ register = input.register) ∨
    (∃ position, position < rack.nodes.length ∧ owner = .output position ∧
      register = Builtin.count + position) ∨
    (Builtin.count + rack.nodes.length ≤ register ∧
      ∃ position, Inner rack owner position register) := by
  have hinner {position : Nat} (hinner : Inner rack owner position register) :
      Builtin.count + rack.nodes.length ≤ register := by
    obtain ⟨-, node, hnode, hmem⟩ := hinner
    exact h.owned_ge (List.mem_of_getElem? hnode) hmem
  cases owner with
  | input input =>
      obtain rfl := Option.some.inj howner
      exact .inl ⟨input.register_lt, input, rfl, rfl⟩
  | output position =>
      obtain ⟨hlt, hregister⟩ := h.output_register howner
      exact .inr (.inl ⟨position, hlt, rfl, hregister⟩)
  | state position index =>
      obtain ⟨node, home, hnode, hhome, hstate⟩ := state_register howner
      have hmem : register ∈ node.ownedRegisters :=
        List.mem_append_left _ (by simpa [hhome] using List.mem_of_getElem? hstate)
      have hin : Inner rack _ position register := ⟨.inl ⟨index, rfl⟩, node, hnode, hmem⟩
      exact .inr (.inr ⟨hinner hin, position, hin⟩)
  | parameter position index =>
      obtain ⟨node, param, hnode, hparam, hregister⟩ := parameter_register howner
      have hmem := Node.mem_owned_of_param (List.mem_of_getElem? hparam) hregister
      have hin : Inner rack _ position register := ⟨.inr ⟨index, rfl⟩, node, hnode, hmem⟩
      exact .inr (.inr ⟨hinner hin, position, hin⟩)

/-- Within a node a register has one owner. -/
theorem inner_unique (h : rack.LaidOut) {a b : Owner} {position register : Nat}
    (ha : rack.registerOf a = some register) (hb : rack.registerOf b = some register)
    (hia : Inner rack a position register) (hib : Inner rack b position register) : a = b := by
  obtain ⟨hkindA, node, hnode, -⟩ := hia
  obtain ⟨hkindB, -⟩ := hib
  have howned : node.ownedRegisters.Nodup :=
    (List.nodup_flatMap.1 h.owned_nodup).1 node (List.mem_of_getElem? hnode)
  obtain ⟨hstates, hparams, happart⟩ := List.nodup_append.1 howned
  -- A private register is in the first part of the list, one of a parameter in the second.
  have hstate {index : Nat} (howner : rack.registerOf (.state position index) = some register) :
      ((node.home.map (·.state)).getD [])[index]? = some register := by
    obtain ⟨other, home, hother, hhome, hstate⟩ := state_register howner
    obtain rfl := Option.some.inj (hnode.symm.trans hother)
    simpa [hhome] using hstate
  have hparam {index : Nat} (howner : rack.registerOf (.parameter position index) = some register) :
      node.effect.params[index]?.bind (·.ownRegister?) = some register := by
    rwa [registerOf, hnode, Option.bind_some] at howner
  have hnever {i j : Nat} (hi : rack.registerOf (.state position i) = some register)
      (hj : rack.registerOf (.parameter position j) = some register) : False := by
    obtain ⟨param, hmem, hregister⟩ := Option.bind_eq_some_iff.1 (hparam hj)
    exact happart register (List.mem_of_getElem? (hstate hi)) register
      (List.mem_filterMap.2 ⟨param, List.mem_of_getElem? hmem, hregister⟩) rfl
  rcases hkindA with ⟨i, rfl⟩ | ⟨i, rfl⟩ <;> rcases hkindB with ⟨j, rfl⟩ | ⟨j, rfl⟩
  · have hlt := (List.getElem?_eq_some_iff.1 (hstate ha)).1
    rw [(List.getElem?_inj hlt hstates).1 ((hstate ha).trans (hstate hb).symm)]
  · exact absurd (hnever ha hb) id
  · exact absurd (hnever hb ha) id
  · rw [index_unique hparams (hparam ha) (hparam hb)]

/-- Two owners of one register are the same. -/
theorem owner_eq (h : rack.LaidOut) {a b : Owner} {register : Nat}
    (ha : rack.registerOf a = some register) (hb : rack.registerOf b = some register) : a = b := by
  rcases h.owner_cases ha with ⟨hi, i, rfl, hir⟩ | ⟨p, hp, rfl, hpr⟩ | ⟨hp, p, hip⟩ <;>
    rcases h.owner_cases hb with ⟨hj, j, rfl, hjr⟩ | ⟨q, hq, rfl, hqr⟩ | ⟨hq, q, hiq⟩
  case inl.inl =>
    have hij : i.register = j.register := hir.symm.trans hjr
    rw [Option.some.inj ((i.of_tag_register).symm.trans (hij ▸ j.of_tag_register))]
  case inr.inl.inr.inl =>
    rw [Nat.add_left_cancel (hpr.symm.trans hqr)]
  case inr.inr.inr.inr =>
    obtain ⟨-, node, hnode, hmem⟩ := id hip
    obtain ⟨-, other, hother, hmem'⟩ := id hiq
    obtain rfl := h.owner_unique hnode hother hmem hmem'
    exact h.inner_unique ha hb hip hiq
  all_goals omega

/-- Every register of the template has an owner. -/
theorem exists_owner (h : rack.LaidOut) {register : Nat} (hlt : register < rack.template.size) :
    ∃ owner, rack.registerOf owner = some register := by
  by_cases hinput : register < Builtin.count
  · obtain ⟨input, hregister⟩ : ∃ input : Builtin, input.register = register := by
      have hall : ∀ r < Builtin.count, ∃ input ∈ Builtin.all, input.register = r := by decide
      obtain ⟨input, -, hregister⟩ := hall register hinput
      exact ⟨input, hregister⟩
    exact ⟨.input input, congrArg some hregister⟩
  by_cases houtput : register < outputRegister rack.nodes.length
  · simp only [outputRegister] at houtput
    refine ⟨.output (register - Builtin.count), ?_⟩
    rw [h.output_of_position (by omega), outputRegister]
    congr 1
    omega
  -- What lies behind the outputs is in the list of the nodes' own registers.
  have hmem : register ∈ rack.nodes.flatMap Node.ownedRegisters := by
    rw [h.owned, List.mem_range'_1]
    omega
  obtain ⟨node, hnode, hmem⟩ := List.mem_flatMap.1 hmem
  obtain ⟨position, hposition⟩ := List.mem_iff_getElem?.1 hnode
  rcases List.mem_append.1 hmem with hstate | hparam
  · obtain ⟨index, hindex⟩ := List.mem_iff_getElem?.1 hstate
    refine ⟨.state position index, ?_⟩
    cases hhome : node.home with
    | none => simp [hhome] at hindex
    | some home => simpa [registerOf, hposition, Node.state, hhome] using hindex
  · obtain ⟨param, hparam, hregister⟩ := List.mem_filterMap.1 hparam
    obtain ⟨index, hindex⟩ := List.mem_iff_getElem?.1 hparam
    exact ⟨.parameter position index, by simp [registerOf, hposition, hindex, hregister]⟩

/-- The slot of an owner's register. -/
theorem slot_of_owner (h : rack.LaidOut) {owner : Owner} {register : Nat}
    (howner : rack.registerOf owner = some register) :
    ∃ initial, rack.template.slots[register]? = some ⟨initial, owner.persists⟩ := by
  cases owner with
  | input input =>
      obtain rfl := Option.some.inj howner
      exact ⟨0, h.inputs input⟩
  | output position =>
      obtain ⟨hlt, rfl⟩ := h.output_register howner
      exact ⟨0, h.outputs position hlt⟩
  | state position index =>
      obtain ⟨node, home, hnode, hhome, hstate⟩ := state_register howner
      have hslots := (h.home_of_position hnode hhome).2.2.1
      exact ⟨0, hslots register (List.mem_append_left _ (List.mem_of_getElem? hstate))⟩
  | parameter position index =>
      obtain ⟨node, param, hnode, hparam, hregister⟩ := parameter_register howner
      rcases h.own_or_shared (List.mem_of_getElem? hnode) (List.mem_of_getElem? hparam) with
        ⟨own, -, hown, value, hslot⟩ | ⟨hnone, -⟩
      · obtain rfl := Option.some.inj (hown.symm.trans hregister)
        exact ⟨value, hslot⟩
      · cases hnone.symm.trans hregister

/-- A node has as many private registers as its kind needs. -/
theorem state_is_some (h : rack.LaidOut) {position : Nat} {node : Node}
    (hnode : rack.nodes[position]? = some node) (index : Nat) :
    (rack.registerOf (.state position index)).isSome = true ↔
      index < node.effect.type.stateCount := by
  obtain ⟨state, buffer, hhome, hcount, -⟩ := (h.placed position node hnode).home
  simp [registerOf, hnode, Node.state, hhome, ← hcount]

/-! ## What parameters read -/

/-- A parameter that owns a register has it, with its value and not persisted. -/
theorem parameter_slot (h : rack.LaidOut) {position index : Nat} {node : Node} {param : Param}
    {default value : Float32} (hnode : rack.nodes[position]? = some node)
    (hparam : node.effect.withDefaults.params[index]? = some (param, default))
    (hvalue : param.binding.ownValue? default = some value) :
    ∃ register, param.register = some register ∧
      rack.registerOf (.parameter position index) = some register ∧
      rack.template.slots[register]? = some ⟨value, false⟩ := by
  obtain ⟨register, hregister, howner, -, hslot⟩ :=
    h.own_slot (List.mem_of_getElem? hnode) (List.mem_of_getElem? hparam) hvalue
  have hindex : node.effect.params[index]? = some param := by
    rw [← Effect.map_fst_params_with_defaults, List.getElem?_map, hparam, Option.map_some]
  refine ⟨register, hregister, ?_, hslot⟩
  rw [registerOf, hnode, Option.bind_some, hindex, Option.bind_some, howner]

/-- A parameter that is bound to an input reads the register of the input. -/
theorem builtin_register (h : rack.LaidOut) {node : Node} (hnode : node ∈ rack.nodes)
    {param : Param} (hparam : param ∈ node.effect.params) {input : Builtin}
    (hbinding : param.binding = .builtin input) : param.register = some input.register := by
  obtain ⟨default, hp⟩ := Effect.mem_params_iff.1 hparam
  have hshared := (h.param_placed hnode hp).shared
  rw [hbinding] at hshared
  exact hshared rfl

/-- A parameter that refers to a node reads the output of the one node with that ID. -/
theorem reference_register (h : rack.LaidOut) {node : Node} (hnode : node ∈ rack.nodes)
    {param : Param} (hparam : param ∈ node.effect.params) {id : Nat}
    (hbinding : param.binding = .node id) :
    ∃ position,
      (∀ place, (∃ other, rack.nodes[place]? = some other ∧ other.id = some id) ↔ place = position) ∧
      param.register = rack.registerOf (.output position) := by
  obtain ⟨default, hp⟩ := Effect.mem_params_iff.1 hparam
  obtain ⟨hresolved, -, hshared⟩ := h.param_placed hnode hp
  simp only [hbinding] at hresolved hshared
  have hlt : id < rack.positions.size := by
    by_contra hge
    simp [Binding.resolved, hge] at hresolved
  have hid : rack.positions[id]? = some rack.positions[id] := Array.getElem?_eq_getElem hlt
  refine ⟨rack.positions[id], fun place => ?_, ?_⟩
  · rw [← h.id_of_position, hid, Option.some.injEq, eq_comm]
  · rw [hshared rfl, Binding.sharedRegister?, hid, h.output_of_position (h.position_lt hid),
      Option.map_some]

/-! ## Buffers -/

/-- A node has a buffer exactly if it needs one, of the duration that it needs. -/
theorem buffer_home (h : rack.LaidOut) {node : Node} (hnode : node ∈ rack.nodes) :
    Option.Rel (fun index seconds => rack.template.bufferSeconds[index]? = some seconds)
      node.buffer node.effect.bufferNeed? := by
  obtain ⟨position, hposition⟩ := List.mem_iff_getElem?.1 hnode
  obtain ⟨state, buffer, hhome, -, -, hbuffer⟩ := (h.placed position node hposition).home
  rw [Node.buffer, hhome]
  exact hbuffer

/-- The delays have buffers, and no other nodes. -/
theorem buffer_is_some (h : rack.LaidOut) {node : Node} (hnode : node ∈ rack.nodes) :
    node.buffer.isSome = true ↔ node.effect.type = .delay := by
  rw [is_some_eq_of_rel (h.buffer_home hnode)]
  cases node.effect <;> simp [Effect.bufferNeed?, Effect.type]

/-- There are as many buffers as delays. -/
theorem buffer_count (h : rack.LaidOut) :
    rack.template.bufferSeconds.size = rack.nodes.countP (·.effect.type = .delay) := by
  have hlength := congrArg List.length h.buffers
  rw [List.length_range, ← List.filterMap_eq_flatMap_toList, List.length_filterMap_eq_countP]
    at hlength
  rw [← hlength]
  refine List.countP_congr fun node hnode => ?_
  simpa using h.buffer_is_some hnode

/-- Every duration is that of some delay's buffer. -/
theorem buffer_owner (h : rack.LaidOut) {index : Nat} {seconds : Float32}
    (hseconds : rack.template.bufferSeconds[index]? = some seconds) :
    ∃ requested, seconds = bufferedSeconds requested := by
  have hmem : index ∈ rack.nodes.flatMap (·.buffer.toList) := by
    rw [h.buffers, List.mem_range]
    exact (Array.getElem?_eq_some_iff.1 hseconds).1
  obtain ⟨node, hnode, hbuffer⟩ := List.mem_flatMap.1 hmem
  have hhome := h.buffer_home hnode
  rw [Option.mem_toList.1 hbuffer] at hhome
  cases heffect : node.effect with
  | delay d =>
      rw [heffect] at hhome
      cases hhome with
      | some hduration => exact ⟨_, Option.some.inj (hseconds.symm.trans hduration)⟩
  | _ =>
      rw [heffect] at hhome
      cases hhome

/-- The buffer of a delay is made for the duration that the delay asks for. -/
theorem buffer_duration (h : rack.LaidOut) {node : Node} (hnode : node ∈ rack.nodes)
    {d : Delay Param} {index : Nat} (hdelay : node.effect = .delay d)
    (hbuffer : node.buffer = some index) : rack.template.bufferSeconds[index]? =
      some (bufferedSeconds (requestedSeconds d.seconds.binding)) := by
  have hhome := h.buffer_home hnode
  rw [hbuffer, hdelay] at hhome
  cases hhome with
  | some hduration => exact hduration

end LaidOut

/-- After compilation every register of every rack has exactly one owner, and every buffer is that
of one delay. -/
theorem one_owner_compile (rack : Rack) (version : Nat) : (rack.compile version).OneOwner := by
  have h := rack.laid_out_compile version
  exact {
    owner := fun register hlt => by
      obtain ⟨owner, howner⟩ := h.exists_owner hlt
      exact ⟨owner, howner, fun other hother => h.owner_eq hother howner⟩
    slot := fun owner register => h.slot_of_owner
    output := fun position => h.output_of_position
    state := fun position node => h.state_is_some
    parameter := fun position node index param default value => h.parameter_slot
    builtin := fun node hnode param hparam input => h.builtin_register hnode hparam
    reference := fun node hnode param hparam id => h.reference_register hnode hparam
    buffer := fun node => h.buffer_is_some
    buffersApart := fun p q a b index ha hb hbufferA hbufferB =>
      h.buffer_unique ha hb hbufferA hbufferB
    bufferCount := h.buffer_count
    bufferBounds := fun seconds hmem => by
      obtain ⟨index, hindex⟩ := Array.mem_iff_getElem?.1 hmem
      obtain ⟨requested, rfl⟩ := h.buffer_owner hindex
      exact buffered_seconds_bounds requested
    bufferDuration := fun node hnode d index => h.buffer_duration hnode
    bufferZero := fun node hnode d value index hdelay hconstant hvalue hbuffer => by
      rw [h.buffer_duration hnode hdelay hbuffer, hconstant, requestedSeconds,
        buffered_seconds_eq_zero hvalue] }

end Rack

end SynthRack
