import Mathlib
import SynthRack.Proofs.Rack.Layout

/-!
# References survive renumbering

`references_compile` follows every parameter of every node that stays through ID assignment,
compaction and placement. A reference to a node that stays ends at that node, under its new ID and
at its output register. Any other reference ends at the parameter's default, in a register of its
own. Nothing else about the node changes.
-/

namespace SynthRack

namespace Rack

/-- The nodes that stay, each with the ID that assignment gives it before any node is removed. -/
def staying (rack : Rack) : List (Node × Option Nat) :=
  (rack.nodes.zip (rack.identify.nodes.map (·.id))).filter (! ·.1.toDelete)

/-- Every use of a register in a rack, counted as often as it occurs. -/
def registerUses (rack : Rack) : List Nat :=
  Builtin.all.map Builtin.register ++ rack.nodes.flatMap fun node =>
    node.output.toList ++ (node.home.map (·.state)).getD [] ++
      node.effect.params.filterMap (·.register)

end Rack

/-- What a parameter, given with its default, has become in a compiled rack. -/
structure ParamFollows (rack done : Rack) (before : Param × Float32) (after : Param) : Prop where
  /-- What is not a reference stays. -/
  kept : (∀ old, before.1.binding ≠ .node old) → after.binding = before.1.binding
  /-- A reference to a node that stays follows it. -/
  followed : ∀ (old place : Nat) (node : Node), before.1.binding = .node old →
    rack.staying[place]? = some (node, some old) →
    ∃ (target : Node) (new register : Nat), done.nodes[place]? = some target ∧ target.id = some new ∧
      target.output = some register ∧ after = ⟨.node new, some register⟩
  /-- Any other reference is the default, in a register that nothing else uses. -/
  demoted : ∀ old, before.1.binding = .node old → (∀ node, (node, some old) ∉ rack.staying) →
    ∃ register, after = ⟨.constant before.2, some register⟩ ∧
      done.template.slots[register]? = some ⟨before.2, false⟩ ∧
      done.registerUses.count register = 1

/-- What a node that stays has become in a compiled rack. -/
structure NodeFollows (rack done : Rack) (before : Node × Option Nat) (after : Node) : Prop where
  toDelete : after.toDelete = before.1.toDelete
  enabled : after.enabled = before.1.enabled
  form : after.effect.form = before.1.effect.form
  params : List.Forall₂ (ParamFollows rack done) before.1.effect.withDefaults.params
    after.effect.params

namespace Rack

/-! ## Settling -/

/-- A binding once deleted nodes are removed, if there are any. -/
def settledBinding (rack : Rack) (binding : Binding) (default : Float32) : Binding :=
  if rack.identify.hasDeleted then renumber rack.identify.survivors binding default else binding

/-- A node that stays, with its assigned ID, and what settling makes of it. -/
structure NodeSettled (rack : Rack) (before : Node × Option Nat) (after : Node) : Prop where
  toDelete : after.toDelete = before.1.toDelete
  enabled : after.enabled = before.1.enabled
  effect : after.effect = before.1.effect.withDefaults.map fun (param, default) =>
    { param with binding := rack.settledBinding param.binding default }

/-- The nodes that stay are the survivors. -/
theorem map_fst_staying (rack : Rack) : rack.staying.map Prod.fst = rack.survivors := by
  have hnodes : (rack.nodes.zip (rack.identify.nodes.map (·.id))).map Prod.fst = rack.nodes := by
    refine List.map_fst_zip (Nat.le_of_eq ?_)
    rw [ids_identify, length_assigned_ids, List.length_map]
  rw [staying, survivors]
  conv_rhs => rw [← hnodes]
  rw [List.filter_map]
  rfl

/-- The survivors after assignment have the IDs that assignment gives them. -/
theorem survivors_identify (rack : Rack) :
    rack.identify.survivors = rack.staying.map fun (node, id) => { node with id } := by
  rw [survivors, staying, ids_identify, identify_eq, List.filter_map]
  rfl

/-- Where a node is deleted, settling renumbers what is left. -/
theorem settle_of_deleted {rack : Rack} (h : rack.identify.hasDeleted = true) :
    rack.settle.nodes = rack.identify.compact.nodes := by
  simp [settle, h, locate]

/-- Where no node is deleted, settling only assigns IDs. -/
theorem settle_of_none_deleted {rack : Rack} (h : rack.identify.hasDeleted = false) :
    rack.settle.nodes = rack.identify.survivors := by
  have hkept : rack.identify.survivors = rack.identify.nodes := by
    refine List.filter_eq_self.2 ?_
    intro node hnode
    simpa using List.any_eq_false.1 h node hnode
  simp [settle, h, locate, hkept]

/-- Every node that stays is settled, in order. -/
theorem nodes_settled (rack : Rack) :
    List.Forall₂ (NodeSettled rack) rack.staying rack.settle.nodes := by
  cases hdeleted : rack.identify.hasDeleted with
  | true =>
      rw [settle_of_deleted hdeleted]
      refine List.forall₂_iff_get.2 ⟨by simp [compact, survivors_identify], ?_⟩
      intro place h₁ h₂
      exact ⟨by simp [compact, survivors_identify], by simp [compact, survivors_identify],
        by simp [compact, survivors_identify, settledBinding, hdeleted]⟩
  | false =>
      rw [settle_of_none_deleted hdeleted, survivors_identify, List.forall₂_map_right_iff]
      refine List.forall₂_same.2 fun before _ => ⟨rfl, rfl, ?_⟩
      simp [settledBinding, hdeleted]

/-- The IDs after assignment are dense. -/
theorem ids_identify_dense (rack : Rack) : DenseIds (rack.identify.nodes.map (·.id)) := by
  rw [ids_identify]
  exact assigned_ids_dense _

/-- Nodes that stay have different assigned IDs. -/
theorem ids_staying_nodup (rack : Rack) : (rack.staying.map Prod.snd).Nodup := by
  have hids : (rack.nodes.zip (rack.identify.nodes.map (·.id))).map Prod.snd =
      rack.identify.nodes.map (·.id) := by
    refine List.map_snd_zip ?_
    rw [ids_identify, length_assigned_ids, List.length_map]
  exact (hids ▸ rack.ids_identify_dense.nodup).sublist (List.filter_sublist.map Prod.snd)

/-- The new ID of the node that stays at a place. -/
theorem new_id_of_staying {rack : Rack} {place old : Nat} {node : Node}
    (h : rack.staying[place]? = some (node, some old)) :
    newId? rack.identify.survivors old = some place := by
  rw [newId?, survivors_identify, List.findIdx?_map, List.findIdx?_eq_some_iff_getElem]
  obtain ⟨hlt, hnode⟩ := List.getElem?_eq_some_iff.1 h
  refine ⟨hlt, by simp [hnode], ?_⟩
  intro other hother
  have hne := List.pairwise_iff_getElem.1 rack.ids_staying_nodup other place
    (by simp; omega) (by simpa using hlt) hother
  simpa [hnode] using hne

/-- An ID that no staying node has gets no new one. -/
theorem new_id_eq_none {rack : Rack} {old : Nat} (h : ∀ node, (node, some old) ∉ rack.staying) :
    newId? rack.identify.survivors old = none := by
  rw [newId?, survivors_identify, List.findIdx?_map, List.findIdx?_eq_none_iff]
  rintro ⟨node, id⟩ hmem
  simpa using fun hid : id = some old => h node (hid ▸ hmem)

/-- After settling, a reference to a node that stays names the node's ID of that moment. -/
theorem settled_binding_followed {rack : Rack} {place old : Nat} {node : Node}
    (h : rack.staying[place]? = some (node, some old)) (default : Float32) :
    ∃ new, rack.settledBinding (.node old) default = .node new ∧
      (rack.settle.nodes.map (·.id))[place]? = some (some new) := by
  cases hdeleted : rack.identify.hasDeleted with
  | true =>
      refine ⟨place, by simp [settledBinding, hdeleted, renumber, new_id_of_staying h], ?_⟩
      have hlt := (List.getElem?_eq_some_iff.1 h).1
      rw [settle_of_deleted hdeleted, ids_compact, survivors_identify]
      simp [hlt]
  | false =>
      refine ⟨old, by simp [settledBinding, hdeleted], ?_⟩
      rw [settle_of_none_deleted hdeleted, survivors_identify]
      simp [h]

/-- After settling, any other reference is the default, or placement will make it so. -/
theorem settled_binding_demoted {rack : Rack} {old : Nat}
    (h : ∀ node, (node, some old) ∉ rack.staying) (default : Float32) :
    (rack.settledBinding (.node old) default).resolved rack.settle.positions default =
      .constant default := by
  cases hdeleted : rack.identify.hasDeleted with
  | true => simp [settledBinding, hdeleted, renumber, new_id_eq_none h, Binding.resolved]
  | false =>
      -- With nothing deleted the reference is kept, but its ID is beyond all nodes.
      have hpositions : ¬old < rack.settle.positions.size := by
        intro hlt
        have hmem : some old ∈ rack.settle.nodes.map (·.id) :=
          (rack.ids_settle_dense.mem_iff old).2 (by simpa [settle, locate, positionTable] using hlt)
        rw [settle_of_none_deleted hdeleted, survivors_identify, List.map_map] at hmem
        obtain ⟨⟨node, id⟩, hstays, rfl⟩ := List.mem_map.1 hmem
        exact h node hstays
      simp [settledBinding, hdeleted, Binding.resolved, hpositions]

/-- A binding that refers to no node stays as it is. -/
theorem settled_binding_kept {rack : Rack} {binding : Binding} (h : ∀ old, binding ≠ .node old)
    (default : Float32) : rack.settledBinding binding default = binding := by
  cases binding with
  | node old => exact absurd rfl (h old)
  | _ => simp [settledBinding, renumber]

/-! ## Registers used once -/

/-- Behind the inputs and the outputs, a parameter uses a register only if it owns it. -/
theorem LaidOut.filter_register {rack : Rack} (h : rack.LaidOut) {node : Node}
    (hnode : node ∈ rack.nodes) {param : Param} (hparam : param ∈ node.effect.params) :
    (param.register.filter fun register => outputRegister rack.nodes.length ≤ register) =
      param.ownRegister? := by
  rcases h.own_or_shared hnode hparam with ⟨register, hregister, howner, -⟩ | ⟨howner, hshared⟩
  · have hge := h.owned_ge hnode (Node.mem_owned_of_param hparam howner)
    simp [howner, hregister, hge]
  · rw [howner, Option.filter_eq_none_iff]
    intro register hregister
    simpa using hshared register hregister

/-- Behind the inputs and the outputs, a node uses the registers that it owns. -/
theorem LaidOut.filter_uses {rack : Rack} (h : rack.LaidOut) {node : Node}
    (hnode : node ∈ rack.nodes) :
    (node.output.toList ++ (node.home.map (·.state)).getD [] ++
      node.effect.params.filterMap (·.register)).filter (outputRegister rack.nodes.length ≤ ·) =
      node.ownedRegisters := by
  obtain ⟨position, hposition⟩ := List.mem_iff_getElem?.1 hnode
  have hlt := (List.getElem?_eq_some_iff.1 hposition).1
  obtain ⟨state, buffer, hhome, -, -, -⟩ := (h.placed position node hposition).home
  have houtput : ¬outputRegister rack.nodes.length ≤ outputRegister position := by
    simp only [outputRegister]
    omega
  have hstate : state.filter (outputRegister rack.nodes.length ≤ ·) = state := by
    refine List.filter_eq_self.2 ?_
    intro register hregister
    simpa using h.owned_ge hnode (List.mem_append_left _ (by simpa [hhome] using hregister))
  have hparams : node.effect.params.filterMap (fun param => param.register.filter fun register =>
      decide (outputRegister rack.nodes.length ≤ register)) =
      node.effect.params.filterMap Param.ownRegister? :=
    List.filterMap_congr fun _ => h.filter_register hnode
  simp [Node.ownedRegisters, Node.output, hhome, List.filter_append, List.filter_filterMap,
    houtput, hstate, hparams]

/-- A register that a parameter owns is used nowhere else. -/
theorem LaidOut.count_register_uses {rack : Rack} (h : rack.LaidOut) {node : Node}
    (hnode : node ∈ rack.nodes) {register : Nat} (hregister : register ∈ node.ownedRegisters) :
    rack.registerUses.count register = 1 := by
  have hinputs : (Builtin.all.map Builtin.register).filter
      (outputRegister rack.nodes.length ≤ ·) = [] := by
    refine List.filter_eq_nil_iff.2 ?_
    intro register hregister
    obtain ⟨input, -, rfl⟩ := List.mem_map.1 hregister
    have hshared : (Binding.builtin input).sharedRegister? rack.positions = some input.register :=
      rfl
    simpa using h.shared_lt hshared
  -- Only registers behind the inputs and the outputs count, and there every use is an owner's.
  have huses : rack.registerUses.filter (outputRegister rack.nodes.length ≤ ·) =
      rack.nodes.flatMap Node.ownedRegisters := by
    rw [registerUses, List.filter_append, hinputs, List.nil_append, List.filter_flatMap]
    exact List.flatMap_congr fun _ => h.filter_uses
  have hge := h.owned_ge hnode hregister
  rw [← List.count_filter (p := (outputRegister rack.nodes.length ≤ ·)) (by simpa using hge), huses]
  exact List.count_eq_one_of_mem h.owned_nodup (List.mem_flatMap.2 ⟨node, hnode, hregister⟩)

/-! ## References -/

/-- A parameter follows, once its node is settled and placed. -/
theorem param_follows {rack : Rack} {version : Nat} {node : Node} {before : Param × Float32}
    {after : Param} (hnode : node ∈ (rack.compile version).nodes) (hafter : after ∈ node.effect.params)
    (hplaced : ParamPlaced rack.settle.positions (rack.compile version).template.draft
      ({ before.1 with binding := rack.settledBinding before.1.binding before.2 }, before.2) after) :
    ParamFollows rack (rack.compile version) before after where
  kept h := by
    rw [hplaced.binding]
    show (rack.settledBinding before.1.binding before.2).resolved _ _ = _
    rw [settled_binding_kept h]
    cases hbinding : before.1.binding with
    | node old => exact absurd hbinding (h old)
    | _ => rfl
  followed := by
    intro old place stayed hbinding hstays
    have hlaid := laid_out_compile rack version
    obtain ⟨new, hsettled, hnew⟩ := settled_binding_followed hstays before.2
    rw [← ids_compile rack version] at hnew
    -- The new ID leads to the same place, whose output the parameter reads.
    have hlookup : rack.settle.positions[new]? = some place :=
      hlaid.positions ▸ (position_table_eq_some_iff hlaid.dense).2 hnew
    rw [List.getElem?_map, Option.map_eq_some_iff] at hnew
    obtain ⟨target, htarget, hid⟩ := hnew
    obtain ⟨state, buffer, hhome, -⟩ := (hlaid.placed place target htarget).home
    have hafterBinding : after.binding = .node new := by
      rw [hplaced.binding]
      show (rack.settledBinding before.1.binding before.2).resolved _ _ = _
      rw [hbinding, hsettled, Binding.resolved, if_pos (Array.getElem?_eq_some_iff.1 hlookup).1]
    have hregister : after.register = some (outputRegister place) := by
      rw [hplaced.shared (by rw [hafterBinding]; rfl), hafterBinding, Binding.sharedRegister?,
        hlookup, Option.map_some]
    exact ⟨target, new, outputRegister place, htarget, hid, by rw [Node.output, hhome]; rfl,
      by rw [← hafterBinding, ← hregister]⟩
  demoted := by
    intro old hbinding hgone
    have hafterBinding : after.binding = .constant before.2 := by
      rw [hplaced.binding]
      show (rack.settledBinding before.1.binding before.2).resolved _ _ = _
      rw [hbinding, settled_binding_demoted hgone]
    obtain ⟨register, hregister, hslot⟩ :=
      hplaced.own before.2 (by rw [hafterBinding]; rfl)
    refine ⟨register, by rw [← hafterBinding, ← hregister], hslot, ?_⟩
    refine (laid_out_compile rack version).count_register_uses hnode
      (Node.mem_owned_of_param hafter ?_)
    rw [Param.ownRegister?, hafterBinding]
    exact hregister

/-- A node follows, once it is settled and placed. -/
theorem node_follows {rack : Rack} {version place : Nat} {before : Node × Option Nat}
    {settled after : Node} (hafter : after ∈ (rack.compile version).nodes)
    (hsettled : NodeSettled rack before settled)
    (hplaced : NodePlaced rack.settle.positions (rack.compile version).template.draft
      (settled, place) after) : NodeFollows rack (rack.compile version) before after where
  toDelete := hplaced.toDelete.trans hsettled.toDelete
  enabled := hplaced.enabled.trans hsettled.enabled
  form := by
    rw [hplaced.form, hsettled.effect, Effect.form_map, Effect.form_with_defaults]
  params := by
    have hparams := hplaced.params
    rw [hsettled.effect, Effect.with_defaults_map, Effect.params_map,
      Effect.with_defaults_with_defaults, Effect.params_map, List.map_map,
      List.forall₂_map_left_iff] at hparams
    refine List.forall₂_iff_get.2 ⟨hparams.length_eq, ?_⟩
    intro index h₁ h₂
    exact param_follows hafter (List.get_mem ..) (hparams.get h₁ h₂)

/-- The node at a place of a compiled rack follows the one that stays at that place. -/
theorem node_follows_at {rack : Rack} {version place : Nat} {before : Node × Option Nat}
    {after : Node} (hbefore : rack.staying[place]? = some before)
    (hafter : (rack.compile version).nodes[place]? = some after) :
    NodeFollows rack (rack.compile version) before after := by
  obtain ⟨settled, hsettled, hplaced⟩ := placed_of_position hafter
  obtain ⟨hlt, rfl⟩ := List.getElem?_eq_some_iff.1 hbefore
  obtain ⟨hlt', rfl⟩ := List.getElem?_eq_some_iff.1 hsettled
  exact node_follows (List.mem_of_getElem? hafter) ((nodes_settled rack).get hlt hlt') hplaced

/-- Compiling keeps the nodes that stay, in order, with their effects and their switches. -/
theorem survivors_compile (rack : Rack) (version : Nat) :
    List.Forall₂ (fun before after : Node => after.enabled = before.enabled ∧
      after.effect.form = before.effect.form) rack.survivors (rack.compile version).nodes := by
  rw [← map_fst_staying, List.forall₂_map_left_iff]
  refine List.forall₂_iff_get.2 ⟨by rw [(nodes_settled rack).length_eq, length_compile], ?_⟩
  intro place hbefore hafter
  have hfollows := node_follows_at (List.getElem?_eq_getElem hbefore)
    (List.getElem?_eq_getElem hafter)
  exact ⟨hfollows.enabled, hfollows.form⟩

/-- Compilation keeps the nodes that stay, in order, and what their parameters refer to. -/
theorem references_compile (rack : Rack) (version : Nat) :
    List.Forall₂ (NodeFollows rack (rack.compile version)) rack.staying
      (rack.compile version).nodes := by
  have hsettled := nodes_settled rack
  have hplaced := placed_compile rack version
  have hlength : rack.staying.length = (rack.compile version).nodes.length := by
    rw [hsettled.length_eq, length_compile]
  refine List.forall₂_iff_get.2 ⟨hlength, ?_⟩
  intro place hbefore hafter
  have hmiddle : place < rack.settle.nodes.length := hsettled.length_eq ▸ hbefore
  have hplaced : NodePlaced rack.settle.positions (rack.compile version).template.draft
      (rack.settle.nodes[place], place) (rack.compile version).nodes[place] := by
    simpa using hplaced.get (by simpa using hmiddle) hafter
  exact node_follows (List.get_mem ..) (hsettled.get hbefore hmiddle) hplaced

end Rack

end SynthRack
