import Mathlib
import SynthRack.Proofs.Rack.HotEdit
import SynthRack.Proofs.Rack.Numbering
import SynthRack.Proofs.Rack.Wiring

/-!
# Marking nodes and taking them out of the list

Nodes leave a compiled rack in two ways: they are marked and the next compilation removes them
(`markAll`), or they are taken out of the list before it (`takeOut`). Marked nodes leave with their
references resolved: every reference to a node that is still there leads to that node, every other
one to the default of its parameter. Nodes taken out leave gaps in the IDs, and assignment gives the
IDs that are free or too large to other nodes while references keep the old ones.
`taken_out_agrees_iff` says exactly when the two ways agree, and `taken_out_captured` shows a
reference to a node that is gone that another node captures.
-/

namespace SynthRack

namespace Rack

/-- The rack with the nodes at some positions marked for deletion. -/
def markAll (rack : Rack) (gone : Nat → Bool) : Rack :=
  { rack with
    nodes := rack.nodes.zipIdx.map fun (node, position) =>
      { node with toDelete := node.toDelete || gone position } }

/-- The rack with the nodes at some positions taken out of the list. -/
def takeOut (rack : Rack) (gone : Nat → Bool) : Rack :=
  { rack with
    nodes := (rack.nodes.zipIdx.filter fun (_, position) => !gone position).map Prod.fst }

variable {rack : Rack}

/-! ## The nodes that stay -/

/-- What stays of marked nodes is what is left when they are taken out. -/
theorem survivors_mark_all (hkept : ∀ node ∈ rack.nodes, node.toDelete = false)
    (gone : Nat → Bool) : (rack.markAll gone).survivors = (rack.takeOut gone).nodes := by
  have hentry : ∀ entry ∈ rack.nodes.zipIdx, entry.1.toDelete = false := by
    intro entry hentry
    obtain ⟨node, position⟩ := entry
    exact hkept node (List.fst_mem_of_mem_zipIdx hentry)
  rw [survivors, markAll, List.filter_map, takeOut]
  have hstay : rack.nodes.zipIdx.filter ((fun node : Node => !node.toDelete) ∘
      fun (node, position) => { node with toDelete := node.toDelete || gone position }) =
      rack.nodes.zipIdx.filter fun (_, position) => !gone position := by
    refine List.filter_congr fun entry hmem => ?_
    simp [hentry entry hmem]
  rw [hstay]
  refine List.map_congr_left fun entry hmem => ?_
  obtain ⟨hmem, hgone⟩ := List.mem_filter.1 hmem
  have hmark : (entry.1.toDelete || gone entry.2) = entry.1.toDelete := by
    rw [hentry entry hmem]
    simpa using hgone
  show { entry.1 with toDelete := entry.1.toDelete || gone entry.2 } = entry.1
  rw [hmark]

/-- Marking nodes keeps their IDs. -/
theorem ids_mark_all (rack : Rack) (gone : Nat → Bool) :
    (rack.markAll gone).nodes.map (·.id) = rack.nodes.map (·.id) := by
  rw [markAll, List.map_map]
  conv_rhs => rw [← List.zipIdx_map_fst (l := rack.nodes) (i := 0), List.map_map]
  rfl

/-- Taking nodes out leaves the others in their order. -/
theorem take_out_sublist (rack : Rack) (gone : Nat → Bool) :
    (rack.takeOut gone).nodes.Sublist rack.nodes := by
  conv_rhs => rw [← List.zipIdx_map_fst (l := rack.nodes) (i := 0)]
  exact List.filter_sublist.map Prod.fst

/-- With dense IDs, every node that stays is assigned its own. -/
theorem staying_of_dense (h : DenseIds (rack.nodes.map (·.id))) :
    rack.staying = rack.survivors.map fun node => (node, node.id) := by
  rw [staying, ids_identify, assigned_ids_eq_self h, ← List.map_prod_left_eq_zip, List.filter_map]
  rfl

/-- With nothing marked, every node stays. -/
theorem staying_of_none_deleted (h : ∀ node ∈ rack.nodes, node.toDelete = false) :
    rack.staying = rack.nodes.zip (assignedIds (rack.nodes.map (·.id))) := by
  rw [staying, ids_identify]
  refine List.filter_eq_self.2 ?_
  intro entry hentry
  obtain ⟨node, id⟩ := entry
  simpa using h node (List.of_mem_zip hentry).1

/-- Where no node is marked, all survive. -/
theorem survivors_of_none_deleted (h : ∀ node ∈ rack.nodes, node.toDelete = false) :
    rack.survivors = rack.nodes := by
  refine List.filter_eq_self.2 ?_
  intro node hnode
  simpa using h node hnode

/-! ## References -/

/-- An ID is not found if no node has it. -/
theorem find_id_eq_none_iff {ids : List (Option Nat)} {id : Nat} :
    ids.findIdx? (· == some id) = none ↔ some id ∉ ids := by
  rw [List.findIdx?_eq_none_iff]
  constructor
  · intro h hmem
    simpa using h _ hmem
  · intro h other hother
    refine beq_eq_false_iff_ne.2 ?_
    rintro rfl
    exact h hother

/-- An ID is found at a node that has it. -/
theorem find_id_eq_some {ids : List (Option Nat)} {id place : Nat}
    (h : ids.findIdx? (· == some id) = some place) : ids[place]? = some (some id) := by
  obtain ⟨hlt, hid, -⟩ := List.findIdx?_eq_some_iff_getElem.1 h
  rw [List.getElem?_eq_getElem hlt, eq_of_beq hid]

/-- Among different IDs, one in range is kept where it is. -/
theorem assigned_id_of_nodup {ids : List (Option Nat)} (hnodup : ids.Nodup) {id place : Nat}
    (hid : ids[place]? = some (some id)) (hlt : id < ids.length) :
    (assignedIds ids)[place]? = some (some id) := by
  obtain ⟨hplace, hget⟩ := List.getElem?_eq_some_iff.1 hid
  have hfirst : some id ∉ ids.take place := by
    rw [List.mem_take_iff_idxOf_lt (List.mem_of_getElem? hid), ← hget, hnodup.idxOf_getElem]
    exact Nat.lt_irrefl _
  rw [assigned_id_kept ⟨id, hlt, hid, hfirst⟩, hid]

/-- A reference leads to the same place by the old IDs and by the assigned ones, if and only if its
ID is in range exactly when a node has it. -/
theorem source_among_assigned_iff {ids : List (Option Nat)} (hnodup : ids.Nodup) (id : Nat)
    (default : Float32) :
    (Binding.node id).sourceAmong (assignedIds ids) default =
        (Binding.node id).sourceAmong ids default ↔ (id < ids.length ↔ some id ∈ ids) := by
  have hdense := assigned_ids_dense ids
  have hassigned : some id ∈ assignedIds ids ↔ id < ids.length := by
    rw [hdense.mem_iff, length_assigned_ids]
  rw [← hassigned, Binding.sourceAmong, Binding.sourceAmong]
  cases hnew : (assignedIds ids).findIdx? (· == some id) with
  | none =>
      have hmemNew := find_id_eq_none_iff.1 hnew
      cases hold : ids.findIdx? (· == some id) with
      | none => simp [hmemNew, find_id_eq_none_iff.1 hold]
      | some place => simp [hmemNew, List.mem_of_getElem? (find_id_eq_some hold)]
  | some place =>
      have hplace := find_id_eq_some hnew
      have hmemNew := List.mem_of_getElem? hplace
      cases hold : ids.findIdx? (· == some id) with
      | none => simp [hmemNew, find_id_eq_none_iff.1 hold]
      | some other =>
          have hother := find_id_eq_some hold
          have hkept := assigned_id_of_nodup hnodup hother (hassigned.1 hmemNew)
          obtain rfl := hdense.position_unique hplace hkept
          simp [hmemNew, List.mem_of_getElem? hother]

/-- The references of a rack are the IDs that its parameters are bound to. -/
theorem mem_references_iff {id : Nat} :
    id ∈ rack.references ↔
      ∃ node ∈ rack.nodes, ∃ param ∈ node.effect.params, param.binding = .node id := by
  simp only [references, Node.bindings, List.mem_flatMap, List.mem_filterMap, List.mem_map]
  constructor
  · rintro ⟨node, hnode, binding, ⟨param, hparam, rfl⟩, hid⟩
    refine ⟨node, hnode, param, hparam, ?_⟩
    cases hbinding : param.binding with
    | node other =>
        rw [hbinding] at hid
        rw [Option.some.inj hid]
    | _ =>
        rw [hbinding] at hid
        cases hid
  · rintro ⟨node, hnode, param, hparam, hbinding⟩
    exact ⟨node, hnode, param.binding, ⟨param, hparam, rfl⟩, by rw [hbinding]; rfl⟩

/-- An effect is wired alike by two lists of IDs if and only if each of its references leads to the
same place. -/
theorem wired_eq_iff {ids others : List (Option Nat)} {effect : Effect Param} :
    effect.wired ids = effect.wired others ↔
      ∀ p ∈ effect.withDefaults.params, ∀ id, p.1.binding = .node id →
        (Binding.node id).sourceAmong ids p.2 = (Binding.node id).sourceAmong others p.2 := by
  constructor
  · intro h p hp id hid
    have hparams := congrArg Effect.params h
    rw [Effect.wired, Effect.wired, Effect.params_map, Effect.params_map] at hparams
    exact hid ▸ List.map_inj_left.1 hparams p hp
  · intro h
    refine Effect.map_congr fun p hp => ?_
    show p.1.binding.sourceAmong ids p.2 = p.1.binding.sourceAmong others p.2
    cases hbinding : p.1.binding with
    | node id => exact h p hp id hbinding
    | _ => rfl

/-- All nodes are wired alike by the old IDs and by the assigned ones, if and only if every ID that
is referred to is in range exactly when a node has it. -/
theorem wired_assigned_iff (hnodup : (rack.nodes.map (·.id)).Nodup) :
    rack.nodes.map (·.effect.wired (assignedIds (rack.nodes.map (·.id)))) =
        rack.nodes.map (·.effect.wired (rack.nodes.map (·.id))) ↔
      ∀ id ∈ rack.references, id < rack.nodes.length ↔ some id ∈ rack.nodes.map (·.id) := by
  rw [List.map_inj_left]
  simp only [wired_eq_iff, source_among_assigned_iff hnodup, List.length_map]
  constructor
  · intro h id hid
    obtain ⟨node, hnode, param, hparam, hbinding⟩ := mem_references_iff.1 hid
    obtain ⟨default, hp⟩ := Effect.mem_params_iff.1 hparam
    exact h node hnode _ hp id hbinding
  · intro h node hnode p hp id hbinding
    have hparam : p.1 ∈ node.effect.params := Effect.mem_params_iff.2 ⟨p.2, hp⟩
    exact h id (mem_references_iff.2 ⟨node, hnode, p.1, hparam, hbinding⟩)

/-! ## Two ways to leave -/

/-- Marked nodes leave the others wired as they are in the list without them. -/
theorem wiring_mark_all (h : rack.LaidOut) (gone : Nat → Bool) (version : Nat) :
    ((rack.markAll gone).compile version).nodes.map ((rack.markAll gone).compile version).wiring =
      (rack.takeOut gone).nodes.map (rack.takeOut gone).wiring := by
  have hdense : DenseIds ((rack.markAll gone).nodes.map (·.id)) := by
    rw [ids_mark_all]
    exact h.dense
  rw [wiring_compile, staying_of_dense hdense, survivors_mark_all h.kept, List.map_map,
    List.map_map]
  exact List.map_congr_left fun node _ => ((rack.takeOut gone).wiring_eq node).symm

/-- With nothing marked, nodes are wired by the IDs that assignment gives. -/
theorem wiring_compile_of_none_deleted (h : ∀ node ∈ rack.nodes, node.toDelete = false)
    (version : Nat) :
    (rack.compile version).nodes.map (rack.compile version).wiring =
      rack.nodes.map (·.effect.wired (assignedIds (rack.nodes.map (·.id)))) := by
  have hlength : (assignedIds (rack.nodes.map (·.id))).length = rack.nodes.length := by
    rw [length_assigned_ids, List.length_map]
  rw [wiring_compile, staying_of_none_deleted h]
  generalize assignedIds (rack.nodes.map (·.id)) = ids at hlength ⊢
  have hnodes : (rack.nodes.zip ids).map Prod.fst = rack.nodes :=
    List.map_fst_zip (Nat.le_of_eq hlength.symm)
  rw [List.map_snd_zip (Nat.le_of_eq hlength)]
  conv_rhs => rw [← hnodes, List.map_map]
  rfl

/-- What a compiled rack has of its nodes apart from IDs, registers and parameters. -/
def outline (rack : Rack) : List (Bool × Effect Unit) :=
  rack.nodes.map fun node => (node.enabled, node.effect.form)

/-- The outline of a compiled rack is that of the survivors. -/
theorem outline_compile (rack : Rack) (version : Nat) :
    (rack.compile version).outline =
      rack.survivors.map fun node => (node.enabled, node.effect.form) := by
  refine (map_eq_of_forall₂ ((survivors_compile rack version).imp fun before after h => ?_)).symm
  rw [h.1, h.2]

/-- Nodes that are marked and nodes that are taken out leave the same list. Marked ones leave it with
every reference resolved: to the place of the node referred to, or to the default if that node is
gone. Nodes taken out leave the same wiring if and only if every reference to a node that is gone
names an ID beyond the count of those left, and every reference to a node that is left names one
below it. -/
theorem taken_out_agrees_iff (raw : Rack) (version : Nat) (gone : Nat → Bool) (soft hard : Nat) :
    let rack := raw.compile version
    let left := rack.takeOut gone
    let marked := (rack.markAll gone).compile soft
    let taken := left.compile hard
    marked.outline = left.outline ∧ taken.outline = left.outline ∧
      marked.nodes.map marked.wiring = left.nodes.map left.wiring ∧
      (taken.nodes.map taken.wiring = marked.nodes.map marked.wiring ↔
        ∀ id ∈ left.references, id < left.nodes.length ↔ some id ∈ left.nodes.map (·.id)) := by
  intro rack left marked taken
  have hlaid : rack.LaidOut := laid_out_compile raw version
  have hsublist : left.nodes.Sublist rack.nodes := rack.take_out_sublist gone
  have hkept : ∀ node ∈ left.nodes, node.toDelete = false := by
    intro node hnode
    exact hlaid.kept node (hsublist.subset hnode)
  have hmarked : marked.nodes.map marked.wiring = left.nodes.map left.wiring :=
    wiring_mark_all hlaid gone soft
  refine ⟨?_, ?_, hmarked, ?_⟩
  · rw [outline_compile, survivors_mark_all hlaid.kept]
    rfl
  · rw [outline_compile, survivors_of_none_deleted hkept]
    rfl
  · have hnodup : (left.nodes.map (·.id)).Nodup := hlaid.dense.nodup.sublist (hsublist.map _)
    have hold : left.nodes.map left.wiring =
        left.nodes.map (·.effect.wired (left.nodes.map (·.id))) :=
      List.map_congr_left fun node _ => left.wiring_eq node
    rw [hmarked, hold, wiring_compile_of_none_deleted hkept]
    exact wired_assigned_iff hnodup

/-- The first of three nodes leaves. The second one refers to the third and the third to the first.
Marked, the first leaves the one reference in place and the other as a default. Taken out, it leaves
the third node beyond the count, which is assigned the ID of the first: the reference to the third
is lost, and the reference to the first leads from the third node to itself. -/
theorem taken_out_captured :
    let rack := (((Rack.empty.push (.maths ⟨[]⟩)).push (.maths ⟨[[.node 2]]⟩)).push
      (.maths ⟨[[.node 0]]⟩)).compile 1
    let marked := (rack.markAll (· == 0)).compile 2
    let taken := (rack.takeOut (· == 0)).compile 3
    marked.nodes.map marked.wiring = [.maths ⟨[[.node 1]]⟩, .maths ⟨[[.constant 1]]⟩] ∧
      taken.nodes.map taken.wiring = [.maths ⟨[[.constant 1]]⟩, .maths ⟨[[.node 1]]⟩] := by
  decide +kernel

end Rack

end SynthRack
