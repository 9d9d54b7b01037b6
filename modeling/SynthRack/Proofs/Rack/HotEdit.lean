import Mathlib
import SynthRack.Proofs.Rack.Recompile
import SynthRack.Proofs.Rack.SameLayout

/-!
# Edits that keep the layout

A `HotEdit` leaves every node in its place, with its ID and its kind, and leaves it to every parameter
whether it has a register to itself: a constant or nothing stays a constant or nothing, an input or a
node stays an input or a node. Anything else can change. Compiling such an edit changes no more than
the edit did (`HotEdit.compile`), so edits can be chained (`HotEdited.direct`), and the layout is the
one of before (`HotEdit.same_layout`).
-/

namespace SynthRack

/-- The node that a binding refers to. -/
def Binding.reference? : Binding → Option Nat
  | node id => some id
  | _ => none

/-- The bindings of all parameters of a node. -/
def Node.bindings (node : Node) : List Binding := node.effect.params.map (·.binding)

namespace Rack

/-- For every node, which of its parameters have a register to themselves. -/
def ownership (rack : Rack) : List (List Bool) :=
  rack.nodes.map fun node => node.bindings.map (·.ownsRegister)

/-- The IDs that parameters refer to. -/
def references (rack : Rack) : List Nat :=
  rack.nodes.flatMap fun node => node.bindings.filterMap (·.reference?)

/-- The rack was edited, and the nodes, the kinds of bindings and what can be referred to stayed. -/
structure HotEdit (old edited : Rack) : Prop where
  ids : edited.nodes.map (·.id) = old.nodes.map (·.id)
  kept : ∀ node ∈ edited.nodes, node.toDelete = false
  types : edited.nodes.map (·.effect.type) = old.nodes.map (·.effect.type)
  ownership : edited.ownership = old.ownership
  /-- References lead to nodes that are there. -/
  references : ∀ id ∈ edited.references, some id ∈ old.nodes.map (·.id)

/-- Whether an edit keeps the layout can be checked. -/
theorem hot_edit_iff {old edited : Rack} :
    old.HotEdit edited ↔ edited.nodes.map (·.id) = old.nodes.map (·.id) ∧
      (∀ node ∈ edited.nodes, node.toDelete = false) ∧
      edited.nodes.map (·.effect.type) = old.nodes.map (·.effect.type) ∧
      edited.ownership = old.ownership ∧
      ∀ id ∈ edited.references, ∃ node ∈ old.nodes, node.id = some id :=
  ⟨fun h => ⟨h.ids, h.kept, h.types, h.ownership, fun id hid =>
      List.mem_map.1 (h.references id hid)⟩,
    fun ⟨hids, hkept, htypes, hownership, hreferences⟩ =>
      ⟨hids, hkept, htypes, hownership, fun id hid => List.mem_map.2 (hreferences id hid)⟩⟩

instance (old edited : Rack) : Decidable (old.HotEdit edited) :=
  decidable_of_iff _ hot_edit_iff.symm

/-- Hot edits one after another, each of them compiled before the next. -/
inductive HotEdited (old : Rack) : Rack → Prop where
  | edit {edited : Rack} (h : old.HotEdit edited) : HotEdited old edited
  | again {edited later : Rack} (version : Nat) (h : HotEdited old edited)
    (hlater : (edited.compile version).HotEdit later) : HotEdited old later

/-- The flags of a rack's own registers depend on the kinds of its nodes and on their bindings. -/
theorem flags_eq (rack : Rack) :
    rack.nodes.map ownedFlags =
      List.zipWith (fun type owned => List.replicate type.stateCount true ++
        List.replicate (owned.count true) false) (rack.nodes.map (·.effect.type)) rack.ownership := by
  rw [ownership, List.zipWith_map, List.zipWith_self]
  refine List.map_congr_left fun node _ => ?_
  have hcount : (node.bindings.map (·.ownsRegister)).count true =
      node.effect.params.countP (·.binding.ownsRegister) := by
    rw [Node.bindings, List.map_map, List.count, List.countP_map]
    exact List.countP_congr fun param _ => by simp
  rw [ownedFlags, hcount]

variable {a b c : Rack}

namespace HotEdit

/-- Two edits of this kind are one. -/
theorem trans (hab : a.HotEdit b) (hbc : b.HotEdit c) : a.HotEdit c where
  ids := hbc.ids.trans hab.ids
  kept := hbc.kept
  types := hbc.types.trans hab.types
  ownership := hbc.ownership.trans hab.ownership
  references id hid := hab.ids ▸ hbc.references id hid

/-- All nodes of the edit have their IDs and stay, so settling only locates them. -/
theorem settle (ha : a.LaidOut) (h : a.HotEdit b) : b.settle = b.locate := by
  refine settle_of_dense ?_ h.kept
  rw [h.ids]
  exact ha.dense

/-- Placement leaves the bindings of a node as they are when its references lead to nodes. -/
theorem bindings_placed {positions : Array Nat} {final : Draft} {before : Node × Nat} {after : Node}
    (h : NodePlaced positions final before after)
    (hreferences : ∀ binding ∈ before.1.bindings, ∀ id ∈ binding.reference?, id < positions.size) :
    before.1.bindings = after.bindings := by
  rw [Node.bindings, ← Effect.map_fst_params_with_defaults before.1.effect, List.map_map]
  refine map_eq_of_forall₂ (List.forall₂_iff_zip.2 ⟨h.params.length_eq, fun {p q} hmem => ?_⟩)
  have hparam : p.1 ∈ before.1.effect.params :=
    Effect.mem_params_iff.2 ⟨p.2, (List.of_mem_zip hmem).1⟩
  have hreference := hreferences p.1.binding (List.mem_map_of_mem hparam)
  rw [((List.forall₂_iff_zip.1 h.params).2 hmem).binding]
  cases hbinding : p.1.binding with
  | node id =>
      have hlt := hreference id (by rw [hbinding]; rfl)
      rw [Function.comp_apply, hbinding, Binding.resolved, if_pos hlt]
  | _ => exact hbinding

/-- Compiling an edit leaves the IDs, the kinds, the bindings and the switches of all nodes as they
are. -/
theorem compiled_nodes (ha : a.LaidOut) (h : a.HotEdit b) (version : Nat) :
    List.Forall₂ (fun before after : Node => before.id = after.id ∧
      before.effect.type = after.effect.type ∧ before.bindings = after.bindings ∧
      before.enabled = after.enabled) b.nodes (b.compile version).nodes := by
  have hsettled : b.settle.nodes = b.nodes := by rw [h.settle ha, locate]
  have hsize : b.settle.positions.size = (a.nodes.map (·.id)).length := by
    rw [h.settle ha, locate, positionTable, Array.size_map, Array.size_range, h.ids]
  have hplaced := placed_compile b version
  rw [hsettled] at hplaced
  rw [← List.zipIdx_map_fst (l := b.nodes) (i := 0), List.forall₂_map_left_iff]
  refine List.forall₂_iff_zip.2 ⟨hplaced.length_eq, fun {before after} hmem => ?_⟩
  have hnode := (List.forall₂_iff_zip.1 hplaced).2 hmem
  have hbefore : before.1 ∈ b.nodes := by
    rw [← List.zipIdx_map_fst (l := b.nodes) (i := 0)]
    exact List.mem_map_of_mem (List.of_mem_zip hmem).1
  refine ⟨hnode.id.symm, ?_, bindings_placed hnode fun binding hbinding id hid => ?_,
    hnode.enabled.symm⟩
  · rw [← Effect.type_form, ← hnode.form, Effect.type_form]
  · have hreference : id ∈ b.references :=
      List.mem_flatMap.2 ⟨before.1, hbefore, List.mem_filterMap.2 ⟨binding, hbinding, hid⟩⟩
    rw [hsize]
    exact (ha.dense.mem_iff id).1 (h.references id hreference)

/-- Compiling an edit changes no more than the edit did. -/
theorem compile (ha : a.LaidOut) (h : a.HotEdit b) (version : Nat) :
    a.HotEdit (b.compile version) := by
  have hcompiled := h.compiled_nodes ha version
  have hids := map_eq_of_forall₂ (hcompiled.imp fun _ _ hnode => hnode.1)
  have htypes := map_eq_of_forall₂ (hcompiled.imp fun _ _ hnode => hnode.2.1)
  have hbindings : b.nodes.map (·.bindings) = (b.compile version).nodes.map (·.bindings) :=
    map_eq_of_forall₂ (hcompiled.imp fun _ _ hnode => hnode.2.2.1)
  have hownership : b.ownership = (b.compile version).ownership := by
    have howns := congrArg (List.map (List.map Binding.ownsRegister)) hbindings
    rwa [List.map_map, List.map_map] at howns
  have hreferences : b.references = (b.compile version).references := by
    have hrefer := congrArg (List.flatMap (List.filterMap Binding.reference?)) hbindings
    rwa [List.flatMap_map, List.flatMap_map] at hrefer
  exact ⟨hids.symm.trans h.ids, (laid_out_compile b version).kept, htypes.symm.trans h.types,
    hownership.symm.trans h.ownership, hreferences ▸ h.references⟩

/-- Edits of this kind keep the layout. -/
theorem same_layout (ha : a.LaidOut) (hb : b.LaidOut) (h : a.HotEdit b) : a.SameLayout b where
  types := h.types.symm
  persisted := by
    have hlength : a.nodes.length = b.nodes.length := by
      simpa using congrArg List.length h.types.symm
    have hflags : a.nodes.map ownedFlags = b.nodes.map ownedFlags := by
      rw [flags_eq, flags_eq, h.types, h.ownership]
    refine Array.toList_inj.1 ?_
    rw [ha.persisted_eq, hb.persisted_eq, hlength, List.flatMap_def, List.flatMap_def, hflags]

end HotEdit

/-- A chain of hot edits is one hot edit. -/
theorem HotEdited.direct (ha : a.LaidOut) (h : a.HotEdited b) : a.HotEdit b := by
  induction h with
  | edit h => exact h
  | again version _ hlater ih => exact (ih.compile ha version).trans hlater

end Rack

end SynthRack
