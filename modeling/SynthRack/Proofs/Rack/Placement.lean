import Mathlib
import SynthRack.Rack.Allocate
import SynthRack.Proofs.Rack.Traversal

/-!
# Where placement puts a node

`place` and `resolve` thread a draft of the template through the nodes. Here their results are said
without the draft: `ParamPlaced` and `NodePlaced` describe a placed parameter and a placed node in
terms of the finished template, and `place_nodes_placed` proves them for every node of a list. The
registers that placement hands out to nodes are consecutive (`owned_registers_place_nodes`), and so
are the buffers (`buffers_place_nodes`).
-/

namespace SynthRack

/-- The inputs have the first registers. -/
theorem Builtin.register_lt (input : Builtin) : input.register < Builtin.count := by
  cases input <;> decide

/-! ## Bindings once references are settled -/

namespace Binding

/-- The binding after placement: a reference to no node is the default. -/
def resolved (positions : Array Nat) (default : Float32) : Binding → Binding
  | node id => if id < positions.size then node id else constant default
  | other => other

/-- What the register holds that a parameter has to itself, if it has one. -/
def ownValue? (default : Float32) : Binding → Option Float32
  | unset => some default
  | constant value => some value
  | _ => none

/-- Whether a parameter has a register to itself. -/
def ownsRegister : Binding → Bool
  | unset | constant _ => true
  | _ => false

/-- The register a parameter shares with others, if it does. -/
def sharedRegister? (positions : Array Nat) : Binding → Option Nat
  | builtin input => some input.register
  | node id => positions[id]?.map outputRegister
  | _ => none

/-- A binding owns a register if there is something to hold in it. -/
theorem owns_register_iff {default : Float32} {b : Binding} :
    b.ownsRegister = true ↔ ∃ value, b.ownValue? default = some value := by
  cases b <;> simp [ownsRegister, ownValue?]

/-- A parameter has a register to itself or shares one. -/
theorem own_or_shared (default : Float32) (b : Binding) :
    (∃ value, b.ownValue? default = some value) ∨ b.ownsRegister = false := by
  cases b <;> simp [ownsRegister, ownValue?]

/-- A binding that owns no register has nothing to hold. -/
theorem own_value_eq_none {default : Float32} {b : Binding} (h : b.ownsRegister = false) :
    b.ownValue? default = none := by
  cases b <;> simp_all [ownsRegister, ownValue?]

/-- A binding that was resolved stays as it is. -/
theorem resolved_resolved (positions : Array Nat) (default : Float32) (b : Binding) :
    (b.resolved positions default).resolved positions default = b.resolved positions default := by
  cases b with
  | node id =>
      by_cases h : id < positions.size <;> simp [resolved, h]
  | _ => rfl

end Binding

/-- The register a placed parameter has to itself, if it has one. -/
def Param.ownRegister? (p : Param) : Option Nat :=
  if p.binding.ownsRegister then p.register else none

/-- The duration of the buffer an effect needs, if it needs one. -/
def Effect.bufferNeed? : Effect Param → Option Float32
  | .delay d => some (bufferedSeconds (requestedSeconds d.seconds.binding))
  | _ => none

/-- The registers that belong to a placed node alone, apart from its output. -/
def Node.ownedRegisters (node : Node) : List Nat :=
  (node.home.map (·.state)).getD [] ++ node.effect.params.filterMap Param.ownRegister?

/-! ## Drafts that grow -/

namespace Draft

/-- Running two steps of a draft is running the second on what the first leaves. -/
theorem run_bind {α β : Type} (step : StateM Draft α) (next : α → StateM Draft β) (draft : Draft) :
    (step >>= next).run draft = (next (step.run draft).1).run (step.run draft).2 := rfl

/-- A draft with more registers at its end. -/
def addSlots (draft : Draft) (slots : List Slot) : Draft :=
  { draft with slots := draft.slots ++ slots.toArray }

/-- Adding no registers changes nothing. -/
@[simp] theorem add_slots_nil (draft : Draft) : draft.addSlots [] = draft := by simp [addSlots]

/-- Registers that are added one after another are added together. -/
@[simp] theorem add_slots_add_slots (draft : Draft) (first second : List Slot) :
    (draft.addSlots first).addSlots second = draft.addSlots (first ++ second) := by
  simp [addSlots]

/-- Adding registers makes a draft larger by their number. -/
@[simp] theorem size_add_slots (draft : Draft) (slots : List Slot) :
    (draft.addSlots slots).slots.size = draft.slots.size + slots.length := by
  simp [addSlots]

/-- Adding registers leaves the buffers as they are. -/
theorem buffer_seconds_add_slots (draft : Draft) (slots : List Slot) :
    (draft.addSlots slots).bufferSeconds = draft.bufferSeconds := rfl

/-- A new register is the next one. -/
theorem run_slot (initial : Float32) (persisted : Bool) (draft : Draft) :
    (slot initial persisted).run draft =
      (draft.slots.size, draft.addSlots [⟨initial, persisted⟩]) := by
  simp [slot, addSlots, StateT.run]

/-- Private registers are the next ones, persisted and at zero. -/
theorem run_states (count : Nat) (draft : Draft) :
    (states count).run draft =
      (List.range' draft.slots.size count, draft.addSlots (List.replicate count ⟨0, true⟩)) := by
  induction count generalizing draft with
  | zero =>
      rw [List.range'_zero, List.replicate_zero, add_slots_nil]
      rfl
  | succ count ih =>
      have hrest := ih (draft.addSlots [⟨0, true⟩])
      rw [add_slots_add_slots, size_add_slots] at hrest
      rw [states, run_bind, run_slot, run_bind, hrest]
      rfl

/-- What a draft becomes keeps every register and buffer that it has. -/
structure Extends (before after : Draft) : Prop where
  slots : before.slots.toList <+: after.slots.toList
  buffers : before.bufferSeconds.toList <+: after.bufferSeconds.toList

namespace Extends

/-- A draft keeps what it has. -/
theorem refl (draft : Draft) : Extends draft draft := ⟨List.prefix_rfl, List.prefix_rfl⟩

/-- What is kept twice is kept. -/
theorem trans {a b c : Draft} (hab : Extends a b) (hbc : Extends b c) : Extends a c :=
  ⟨hab.slots.trans hbc.slots, hab.buffers.trans hbc.buffers⟩

/-- A draft that is added to does not get smaller. -/
theorem size_le {before after : Draft} (h : Extends before after) :
    before.slots.size ≤ after.slots.size ∧
      before.bufferSeconds.size ≤ after.bufferSeconds.size := by
  simpa only [Array.length_toList] using And.intro h.slots.length_le h.buffers.length_le

/-- A register stays where it is. -/
theorem slot {before after : Draft} (h : Extends before after) {register : Nat} {slot : Slot}
    (hslot : before.slots[register]? = some slot) : after.slots[register]? = some slot := by
  rw [← Array.getElem?_toList] at hslot ⊢
  obtain ⟨hlt, hvalue⟩ := List.getElem?_eq_some_iff.1 hslot
  exact hvalue ▸ List.prefix_iff_getElem?.1 h.slots register hlt

/-- A buffer stays where it is. -/
theorem buffer {before after : Draft} (h : Extends before after) {index : Nat} {seconds : Float32}
    (hseconds : before.bufferSeconds[index]? = some seconds) :
    after.bufferSeconds[index]? = some seconds := by
  rw [← Array.getElem?_toList] at hseconds ⊢
  obtain ⟨hlt, hvalue⟩ := List.getElem?_eq_some_iff.1 hseconds
  exact hvalue ▸ List.prefix_iff_getElem?.1 h.buffers index hlt

end Extends

end Draft

/-! ## Parameters -/

/-- Parameters after placement, when the registers from `next` on are free. -/
def resolvedParams (positions : Array Nat) : Nat → List (Param × Float32) → List Param
  | _, [] => []
  | next, (param, default) :: rest =>
    let binding := param.binding.resolved positions default
    if binding.ownsRegister then ⟨binding, some next⟩ :: resolvedParams positions (next + 1) rest
    else ⟨binding, binding.sharedRegister? positions⟩ :: resolvedParams positions next rest

/-- The contents of the registers that placed parameters have to themselves, in order. -/
def ownValues (positions : Array Nat) (params : List (Param × Float32)) : List Float32 :=
  params.filterMap fun (param, default) =>
    (param.binding.resolved positions default).ownValue? default

section Lists

variable {positions : Array Nat} {param : Param} {default value : Float32}

/-- A parameter that owns a register has its value in front of the others. -/
theorem own_values_cons_own
    (h : (param.binding.resolved positions default).ownValue? default = some value)
    (params : List (Param × Float32)) :
    ownValues positions ((param, default) :: params) = value :: ownValues positions params := by
  simp [ownValues, h]

/-- A parameter that owns no register adds no value. -/
theorem own_values_cons_shared
    (h : (param.binding.resolved positions default).ownsRegister = false)
    (params : List (Param × Float32)) :
    ownValues positions ((param, default) :: params) = ownValues positions params := by
  simp [ownValues, Binding.own_value_eq_none h]

/-- A parameter that owns a register takes the next one. -/
theorem resolved_params_cons_own
    (h : (param.binding.resolved positions default).ownValue? default = some value) (next : Nat)
    (params : List (Param × Float32)) :
    resolvedParams positions next ((param, default) :: params) =
      ⟨param.binding.resolved positions default, some next⟩ ::
        resolvedParams positions (next + 1) params := by
  simp [resolvedParams, Binding.owns_register_iff.2 ⟨value, h⟩]

/-- A parameter that owns no register takes the shared one and leaves the next one free. -/
theorem resolved_params_cons_shared
    (h : (param.binding.resolved positions default).ownsRegister = false) (next : Nat)
    (params : List (Param × Float32)) :
    resolvedParams positions next ((param, default) :: params) =
      ⟨param.binding.resolved positions default,
        (param.binding.resolved positions default).sharedRegister? positions⟩ ::
        resolvedParams positions next params := by
  simp [resolvedParams, h]

/-- The parameters' own registers are the next free ones, one after another. -/
theorem own_registers_resolved_params (positions : Array Nat) (params : List (Param × Float32))
    (next : Nat) :
    (resolvedParams positions next params).filterMap Param.ownRegister? =
      List.range' next (ownValues positions params).length := by
  induction params generalizing next with
  | nil => rfl
  | cons before params ih =>
      obtain ⟨param, default⟩ := before
      rcases Binding.own_or_shared default (param.binding.resolved positions default) with
        ⟨value, hvalue⟩ | hshared
      · have hown := Binding.owns_register_iff.2 ⟨value, hvalue⟩
        rw [resolved_params_cons_own hvalue, own_values_cons_own hvalue]
        simp [Param.ownRegister?, hown, ih, List.range'_succ]
      · rw [resolved_params_cons_shared hshared, own_values_cons_shared hshared]
        simp [Param.ownRegister?, hshared, ih]

end Lists

/-- A parameter, given with its default, and what placement makes of it. -/
structure ParamPlaced (positions : Array Nat) (final : Draft) (before : Param × Float32)
    (after : Param) : Prop where
  binding : after.binding = before.1.binding.resolved positions before.2
  /-- A constant is in the parameter's own register, which is not persisted. -/
  own : ∀ value, after.binding.ownValue? before.2 = some value →
    ∃ register, after.register = some register ∧ final.slots[register]? = some ⟨value, false⟩
  shared : after.binding.ownsRegister = false →
    after.register = after.binding.sharedRegister? positions

/-- Resolving a parameter that owns a register adds the register. -/
theorem run_resolve_own {positions : Array Nat} {param : Param} {default value : Float32}
    (h : (param.binding.resolved positions default).ownValue? default = some value)
    (draft : Draft) :
    (resolve positions param default).run draft =
      (⟨param.binding.resolved positions default, some draft.slots.size⟩,
        draft.addSlots [⟨value, false⟩]) := by
  have hslot (binding : Binding) (constant : Float32) :
      (do return (⟨binding, some (← Draft.slot constant false)⟩ : Param)).run draft =
        (⟨binding, some draft.slots.size⟩, draft.addSlots [⟨constant, false⟩]) := by
    rw [Draft.run_bind, Draft.run_slot]
    rfl
  obtain ⟨binding, register⟩ := param
  cases binding with
  | unset =>
      cases h
      exact hslot .unset default
  | constant value =>
      cases h
      exact hslot (.constant value) value
  | builtin input => cases h
  | node id =>
      by_cases hid : id < positions.size
      · simp [Binding.resolved, hid, Binding.ownValue?] at h
      · obtain rfl : default = value := by
          simpa [Binding.resolved, hid, Binding.ownValue?] using h
        have hnone : positions[id]? = none := by simpa using hid
        simp only [resolve, hnone, Binding.resolved, if_neg hid]
        exact hslot (.constant default) default

/-- Resolving a parameter that owns no register adds none. -/
theorem run_resolve_shared {positions : Array Nat} {param : Param} {default : Float32}
    (h : (param.binding.resolved positions default).ownsRegister = false) (draft : Draft) :
    (resolve positions param default).run draft =
      (⟨param.binding.resolved positions default,
        (param.binding.resolved positions default).sharedRegister? positions⟩, draft) := by
  obtain ⟨binding, register⟩ := param
  cases binding with
  | unset => simp [Binding.resolved, Binding.ownsRegister] at h
  | constant value => simp [Binding.resolved, Binding.ownsRegister] at h
  | builtin input => rfl
  | node id =>
      by_cases hid : id < positions.size
      · have hsome : positions[id]? = some positions[id] := Array.getElem?_eq_getElem hid
        simp only [resolve, hsome, Binding.resolved, if_pos hid, Binding.sharedRegister?]
        rfl
      · simp [Binding.resolved, hid, Binding.ownsRegister] at h

/-- Resolving parameters one after another, in terms of the lists that say what becomes of them. -/
theorem run_map_m_resolve (positions : Array Nat) (params : List (Param × Float32)) (draft : Draft) :
    (params.mapM fun (param, default) => resolve positions param default).run draft =
      (resolvedParams positions draft.slots.size params,
        draft.addSlots ((ownValues positions params).map (⟨·, false⟩))) := by
  induction params generalizing draft with
  | nil =>
      rw [ownValues, List.filterMap_nil, List.map_nil, Draft.add_slots_nil]
      rfl
  | cons before params ih =>
      obtain ⟨param, default⟩ := before
      rw [List.mapM_cons, Draft.run_bind]
      rcases Binding.own_or_shared default (param.binding.resolved positions default) with
        ⟨value, hvalue⟩ | hshared
      · have hrest := ih (draft.addSlots [⟨value, false⟩])
        rw [Draft.size_add_slots, Draft.add_slots_add_slots] at hrest
        rw [run_resolve_own hvalue, Draft.run_bind, hrest, resolved_params_cons_own hvalue,
          own_values_cons_own hvalue]
        rfl
      · rw [run_resolve_shared hshared, Draft.run_bind, ih draft,
          resolved_params_cons_shared hshared, own_values_cons_shared hshared]
        rfl

/-- Every parameter of a list is placed, and stays so while the draft grows. -/
theorem resolved_params_placed {positions : Array Nat} {params : List (Param × Float32)}
    {draft final : Draft}
    (hfinal : (draft.addSlots ((ownValues positions params).map (⟨·, false⟩))).Extends final) :
    List.Forall₂ (ParamPlaced positions final) params
      (resolvedParams positions draft.slots.size params) := by
  -- The draft grows as the list is placed, so it is generalised; `final` stays the same.
  induction params generalizing draft with
  | nil => exact .nil
  | cons before params ih =>
      obtain ⟨param, default⟩ := before
      rcases Binding.own_or_shared default (param.binding.resolved positions default) with
        ⟨value, hvalue⟩ | hshared
      · have hown := Binding.owns_register_iff.2 ⟨value, hvalue⟩
        rw [own_values_cons_own hvalue] at hfinal
        rw [resolved_params_cons_own hvalue]
        refine .cons ⟨rfl, fun other hother => ⟨_, rfl, ?_⟩, fun h => ?_⟩ ?_
        · obtain rfl := Option.some.inj (hvalue.symm.trans hother)
          exact hfinal.slot (by simp [Draft.addSlots])
        · cases hown.symm.trans h
        · have hrest : ((draft.addSlots [⟨value, false⟩]).addSlots
              ((ownValues positions params).map (⟨·, false⟩))).Extends final := by
            simpa using hfinal
          simpa using ih hrest
      · have hnone : (param.binding.resolved positions default).ownValue? default = none :=
          Binding.own_value_eq_none hshared
        rw [own_values_cons_shared hshared] at hfinal
        rw [resolved_params_cons_shared hshared]
        refine .cons ⟨rfl, fun other hother => ?_, fun _ => rfl⟩ (ih hfinal)
        cases hnone.symm.trans hother

/-! ## Nodes -/

/-- A node at a position of the list, and what placement makes of it. -/
structure NodePlaced (positions : Array Nat) (final : Draft) (before : Node × Nat)
    (after : Node) : Prop where
  id : after.id = before.1.id
  toDelete : after.toDelete = before.1.toDelete
  enabled : after.enabled = before.1.enabled
  form : after.effect.form = before.1.effect.form
  params : List.Forall₂ (ParamPlaced positions final) before.1.effect.withDefaults.params
    after.effect.params
  /-- The private registers are persisted and start from zero; a buffer has the duration that the
  effect needs. -/
  home : ∃ state buffer, after.home = some ⟨outputRegister before.2, state, buffer⟩ ∧
    state.length = before.1.effect.type.stateCount ∧
    (∀ register ∈ state, final.slots[register]? = some ⟨0, true⟩) ∧
    Option.Rel (fun index seconds => final.bufferSeconds[index]? = some seconds) buffer
      after.effect.bufferNeed?

/-- A delay takes the next buffer, and the other effects take none. -/
theorem run_place_buffer (effect : Effect Param) (draft : Draft) :
    (placeBuffer effect).run draft =
      (effect.bufferNeed?.map fun _ => draft.bufferSeconds.size,
        { draft with bufferSeconds := draft.bufferSeconds ++ effect.bufferNeed?.toArray }) := by
  cases effect <;> simp [placeBuffer, Effect.bufferNeed?] <;> rfl

/-- The effect of a node after placement, when the registers from `next` on are free. -/
def placedEffect (positions : Array Nat) (draft : Draft) (node : Node) : Effect Param :=
  ((node.effect.withDefaults.mapM fun (param, default) => resolve positions param default).run
    (draft.addSlots (List.replicate node.effect.type.stateCount ⟨0, true⟩))).1

/-- Placing changes the parameters of an effect alone. -/
theorem form_placed_effect (positions : Array Nat) (draft : Draft) (node : Node) :
    (placedEffect positions draft node).form = node.effect.form := by
  rw [placedEffect, Effect.form_map_m, Effect.form_with_defaults]

/-- The parameters of a placed effect are resolved behind the private registers of its node. -/
theorem params_placed_effect (positions : Array Nat) (draft : Draft) (node : Node) :
    (placedEffect positions draft node).params =
      resolvedParams positions (draft.slots.size + node.effect.type.stateCount)
        node.effect.withDefaults.params := by
  have hrun := congrArg Prod.fst (Effect.run_map_m
    (fun (param, default) => resolve positions param default) node.effect.withDefaults
    (draft.addSlots (List.replicate node.effect.type.stateCount ⟨0, true⟩)))
  rw [run_map_m_resolve, Draft.size_add_slots, List.length_replicate] at hrun
  exact hrun

/-- The registers that placing a node adds to a draft. -/
def nodeSlots (positions : Array Nat) (node : Node) : List Slot :=
  List.replicate node.effect.type.stateCount ⟨0, true⟩ ++
    (ownValues positions node.effect.withDefaults.params).map (⟨·, false⟩)

/-- What placing one node returns and adds. -/
theorem run_place (positions : Array Nat) (node : Node) (position : Nat) (draft : Draft) :
    let effect := placedEffect positions draft node
    (place positions node position).run draft =
      ({ node with
          effect
          home := some {
            output := outputRegister position
            state := List.range' draft.slots.size node.effect.type.stateCount
            buffer := effect.bufferNeed?.map fun _ => draft.bufferSeconds.size } },
        { slots := draft.slots ++ (nodeSlots positions node).toArray
          bufferSeconds := draft.bufferSeconds ++ effect.bufferNeed?.toArray }) := by
  intro effect
  have hrun := congrArg Prod.snd (Effect.run_map_m
    (fun (param, default) => resolve positions param default) node.effect.withDefaults
    (draft.addSlots (List.replicate node.effect.type.stateCount ⟨0, true⟩)))
  rw [run_map_m_resolve, Draft.add_slots_add_slots] at hrun
  rw [place, Draft.run_bind, Draft.run_states, Draft.run_bind, Draft.run_bind, run_place_buffer,
    hrun]
  rfl

/-- The register of an index past the end of a draft that was extended. -/
theorem slot_of_added {slots : Array Slot} {added : List Slot} {register : Nat}
    (h : slots.size ≤ register) :
    (slots ++ added.toArray)[register]? = added[register - slots.size]? := by
  rw [Array.getElem?_append_right h, List.getElem?_toArray]

/-- Placing a node only adds to the draft. -/
theorem place_extends (positions : Array Nat) (node : Node) (position : Nat) (draft : Draft) :
    draft.Extends ((place positions node position).run draft).2 := by
  rw [run_place]
  exact ⟨by simp, by simp⟩

/-- A node that was placed is placed in whatever the draft becomes. -/
theorem place_placed {positions : Array Nat} {node : Node} {position : Nat} {draft final : Draft}
    (hfinal : ((place positions node position).run draft).2.Extends final) :
    NodePlaced positions final (node, position) ((place positions node position).run draft).1 := by
  rw [run_place] at hfinal ⊢
  refine ⟨rfl, rfl, rfl, form_placed_effect positions draft node, ?params,
    _, _, rfl, List.length_range', ?state, ?buffer⟩
  case params =>
    show List.Forall₂ _ _ (placedEffect positions draft node).params
    have hsize : draft.slots.size + node.effect.type.stateCount =
        (draft.addSlots (List.replicate node.effect.type.stateCount ⟨0, true⟩)).slots.size := by
      rw [Draft.size_add_slots, List.length_replicate]
    rw [params_placed_effect, hsize]
    -- The private registers come before the parameters' own.
    apply resolved_params_placed
    rw [Draft.add_slots_add_slots]
    refine ⟨hfinal.slots, List.IsPrefix.trans ?_ hfinal.buffers⟩
    rw [Draft.buffer_seconds_add_slots, Array.toList_append]
    exact List.prefix_append ..
  case state =>
    intro register hregister
    obtain ⟨hlow, hhigh⟩ := List.mem_range'_1.1 hregister
    refine hfinal.slot ?_
    have hcount : register - draft.slots.size < node.effect.type.stateCount := by omega
    rw [slot_of_added hlow, nodeSlots, List.getElem?_append_left (by simpa using hcount)]
    simp [hcount]
  case buffer =>
    cases hneed : (placedEffect positions draft node).bufferNeed? with
    | none => exact .none
    | some seconds => exact .some (hfinal.buffer (by simp [hneed]))

/-- The registers that belong to a placed node are the next ones, one after another. -/
theorem owned_registers_place (positions : Array Nat) (node : Node) (position : Nat)
    (draft : Draft) :
    ((place positions node position).run draft).1.ownedRegisters =
      List.range' draft.slots.size (nodeSlots positions node).length := by
  rw [run_place]
  simp only [Node.ownedRegisters, Option.map_some, Option.getD_some, params_placed_effect,
    own_registers_resolved_params, nodeSlots, List.length_append, List.length_replicate,
    List.length_map]
  exact List.range'_append_1

/-- The nodes of a list, placed one after another from a position on. -/
def placeNodes (positions : Array Nat) (nodes : List Node) (start : Nat) : StateM Draft (List Node) :=
  (nodes.zipIdx start).mapM fun (node, position) => place positions node position

section Lists

variable (positions : Array Nat)

/-- Placing no nodes adds nothing. -/
theorem run_place_nodes_nil (start : Nat) (draft : Draft) :
    (placeNodes positions [] start).run draft = ([], draft) := rfl

/-- Nodes are placed one after another. -/
theorem run_place_nodes_cons (node : Node) (nodes : List Node) (start : Nat) (draft : Draft) :
    (placeNodes positions (node :: nodes) start).run draft =
      let first := (place positions node start).run draft
      let rest := (placeNodes positions nodes (start + 1)).run first.2
      (first.1 :: rest.1, rest.2) := by
  rw [placeNodes, List.zipIdx_cons, List.mapM_cons]
  rfl

/-- Placing nodes keeps the registers and buffers that are there. -/
theorem place_nodes_extends (nodes : List Node) (start : Nat) (draft : Draft) :
    draft.Extends ((placeNodes positions nodes start).run draft).2 := by
  induction nodes generalizing start draft with
  | nil => exact .refl draft
  | cons node nodes ih =>
      rw [run_place_nodes_cons]
      exact (place_extends positions node start draft).trans (ih _ _)

/-- Every node of a list is placed, at its own position. -/
theorem place_nodes_placed {positions : Array Nat} {nodes : List Node} {start : Nat} {draft final : Draft}
    (hfinal : ((placeNodes positions nodes start).run draft).2.Extends final) :
    List.Forall₂ (NodePlaced positions final) (nodes.zipIdx start)
      ((placeNodes positions nodes start).run draft).1 := by
  induction nodes generalizing start draft with
  | nil => exact .nil
  | cons node nodes ih =>
      rw [run_place_nodes_cons] at hfinal ⊢
      -- What is placed stays as it is, since the rest of the list only adds to the draft.
      refine .cons (place_placed ?_) (ih hfinal)
      exact (place_nodes_extends positions nodes (start + 1) _).trans hfinal

/-- Two stretches of numbers that meet are one. -/
theorem range_append_range {a b c : Nat} (hab : a ≤ b) (hbc : b ≤ c) :
    List.range' a (b - a) ++ List.range' b (c - b) = List.range' a (c - a) := by
  obtain ⟨m, rfl⟩ := Nat.exists_eq_add_of_le hab
  rw [Nat.add_sub_cancel_left, List.range'_append_1]
  congr 1
  omega

/-- The registers that placement adds are the ones that belong to the nodes, in order. -/
theorem owned_registers_place_nodes (nodes : List Node) (start : Nat) (draft : Draft) :
    ((placeNodes positions nodes start).run draft).1.flatMap Node.ownedRegisters =
      List.range' draft.slots.size
        (((placeNodes positions nodes start).run draft).2.slots.size - draft.slots.size) := by
  induction nodes generalizing start draft with
  | nil => simp [run_place_nodes_nil]
  | cons node nodes ih =>
      simp only [run_place_nodes_cons, List.flatMap_cons, owned_registers_place, ih]
      have hfirst := (place_extends positions node start draft).size_le
      have hrest := (place_nodes_extends positions nodes (start + 1)
        ((place positions node start).run draft).2).size_le
      have hadded : (nodeSlots positions node).length =
          ((place positions node start).run draft).2.slots.size - draft.slots.size := by
        simp [run_place]
      -- The first node's stretch ends where that of the rest begins.
      rw [hadded, range_append_range hfirst.1 hrest.1]

/-- The buffer of a placed node is the one that was added for it, if one was. -/
theorem buffer_place (node : Node) (position : Nat) (draft : Draft) :
    ((place positions node position).run draft).1.buffer.toList =
      List.range' draft.bufferSeconds.size
        (((place positions node position).run draft).2.bufferSeconds.size -
          draft.bufferSeconds.size) := by
  simp only [run_place, Node.buffer]
  cases (placedEffect positions draft node).bufferNeed? <;> simp

/-- The buffers that placement adds are the ones that the nodes have, in order. -/
theorem buffers_place_nodes (nodes : List Node) (start : Nat) (draft : Draft) :
    ((placeNodes positions nodes start).run draft).1.flatMap (·.buffer.toList) =
      List.range' draft.bufferSeconds.size
        (((placeNodes positions nodes start).run draft).2.bufferSeconds.size -
          draft.bufferSeconds.size) := by
  induction nodes generalizing start draft with
  | nil => simp [run_place_nodes_nil]
  | cons node nodes ih =>
      simp only [run_place_nodes_cons, List.flatMap_cons, buffer_place, ih]
      have hfirst := (place_extends positions node start draft).size_le
      have hrest := (place_nodes_extends positions nodes (start + 1)
        ((place positions node start).run draft).2).size_le
      exact range_append_range hfirst.2 hrest.2

end Lists

end SynthRack
