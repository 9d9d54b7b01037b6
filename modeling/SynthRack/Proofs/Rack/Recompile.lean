import Mathlib
import SynthRack.Proofs.Rack.Layout

/-!
# Compiling a compiled rack

Placement sees nothing of a node but its form and its bindings once references are settled, so
nodes that agree in these are placed alike (`place_nodes_congr`). A compiled rack has dense IDs, no
deleted nodes and no dangling references; so when its registers are forgotten, compiling it again
finds them all where they were (`compile_uncompiled`).
-/

namespace SynthRack

/-- Two parameters, given with their defaults, that placement does not tell apart. -/
def ParamAlike (positions : Array Nat) (a b : Param × Float32) : Prop :=
  a.1.binding.resolved positions a.2 = b.1.binding.resolved positions b.2 ∧ a.2 = b.2

/-- Two nodes that placement does not tell apart. -/
structure NodeAlike (positions : Array Nat) (a b : Node) : Prop where
  id : a.id = b.id
  toDelete : a.toDelete = b.toDelete
  enabled : a.enabled = b.enabled
  form : a.effect.form = b.effect.form
  params : List.Forall₂ (ParamAlike positions) a.effect.withDefaults.params
    b.effect.withDefaults.params

section Lists

variable {positions : Array Nat}

/-- Parameters that placement does not tell apart are resolved alike. -/
theorem resolved_params_congr {as bs : List (Param × Float32)}
    (h : List.Forall₂ (ParamAlike positions) as bs) (next : Nat) :
    resolvedParams positions next as = resolvedParams positions next bs := by
  induction h generalizing next with
  | nil => rfl
  | @cons a b as bs hhead _ ih =>
      obtain ⟨a, default⟩ := a
      obtain ⟨b, other⟩ := b
      obtain ⟨hbinding, rfl⟩ : a.binding.resolved positions default =
        b.binding.resolved positions other ∧ default = other := hhead
      simp only [resolvedParams, hbinding, ih]

/-- Parameters that placement does not tell apart own the same values. -/
theorem own_values_congr {as bs : List (Param × Float32)}
    (h : List.Forall₂ (ParamAlike positions) as bs) :
    ownValues positions as = ownValues positions bs := by
  induction h with
  | nil => rfl
  | @cons a b as bs hhead _ ih =>
      obtain ⟨a, default⟩ := a
      obtain ⟨b, other⟩ := b
      obtain ⟨hbinding, rfl⟩ : a.binding.resolved positions default =
        b.binding.resolved positions other ∧ default = other := hhead
      unfold ownValues at ih ⊢
      simp only [List.filterMap_cons, hbinding, ih]

/-- Nodes that placement does not tell apart are of one kind. -/
theorem NodeAlike.type {a b : Node} (h : NodeAlike positions a b) :
    a.effect.type = b.effect.type := by
  rw [← Effect.type_form, h.form, Effect.type_form]

/-- Nodes that placement does not tell apart have one effect after it. -/
theorem placed_effect_congr {a b : Node} (h : NodeAlike positions a b) (draft : Draft) :
    placedEffect positions draft a = placedEffect positions draft b := by
  refine Effect.ext_form ?_ ?_
  · rw [form_placed_effect, form_placed_effect, h.form]
  · rw [params_placed_effect, params_placed_effect, h.type, resolved_params_congr h.params]

/-- Nodes that are alike are placed alike. -/
theorem place_congr {a b : Node} (h : NodeAlike positions a b) (position : Nat) (draft : Draft) :
    (place positions a position).run draft = (place positions b position).run draft := by
  have hslots : nodeSlots positions a = nodeSlots positions b := by
    unfold nodeSlots
    rw [h.type, own_values_congr h.params]
  rw [run_place, run_place]
  simp only [placed_effect_congr h, hslots, h.type, h.id, h.toDelete, h.enabled]

/-- Nodes that placement does not tell apart are placed alike. -/
theorem place_nodes_congr {as bs : List Node} (h : List.Forall₂ (NodeAlike positions) as bs)
    (start : Nat) (draft : Draft) :
    (placeNodes positions as start).run draft = (placeNodes positions bs start).run draft := by
  induction h generalizing start draft with
  | nil => rfl
  | cons hhead _ ih =>
      rw [run_place_nodes_cons, run_place_nodes_cons, place_congr hhead]
      simp only [ih]

end Lists

/-! ## Forgetting registers -/

/-- A node as if it was never compiled. -/
def Node.uncompiled (node : Node) : Node :=
  { node with home := none, effect := node.effect.map fun p => .ofBinding p.binding }

/-- A rack as if it was never compiled, with no cursor. -/
def Rack.uncompiled (rack : Rack) : Rack :=
  { Rack.empty with name := rack.name, nodes := rack.nodes.map .uncompiled }

/-- Placement does not tell parameters from what it has made of them. -/
theorem params_alike_of_placed {positions : Array Nat} {final : Draft}
    {befores : List (Param × Float32)} {afters : List Param}
    (h : List.Forall₂ (ParamPlaced positions final) befores afters) :
    List.Forall₂ (ParamAlike positions)
      ((afters.zip (befores.map Prod.snd)).map fun p => (.ofBinding p.1.binding, p.2)) befores := by
  induction h with
  | nil => exact .nil
  | @cons before after befores afters hparam _ ih =>
      refine .cons ⟨?_, rfl⟩ ih
      show after.binding.resolved positions before.2 = _
      rw [hparam.binding, Binding.resolved_resolved]

/-- Placement does not tell a placed node from what it was before. -/
theorem NodePlaced.alike {positions : Array Nat} {final : Draft} {before : Node × Nat}
    {after : Node} (h : NodePlaced positions final before after) :
    NodeAlike positions after.uncompiled before.1 where
  id := h.id
  toDelete := h.toDelete
  enabled := h.enabled
  form := by
    unfold Node.uncompiled
    rw [Effect.form_map, h.form]
  params := by
    unfold Node.uncompiled
    rw [Effect.with_defaults_map, Effect.params_map, h.paired]
    exact params_alike_of_placed h.params

namespace Rack

/-- Settling touches neither the name nor the cursor. -/
theorem settle_kept (rack : Rack) :
    rack.settle.name = rack.name ∧ rack.settle.cursor = rack.cursor := by
  unfold settle
  dsimp only
  cases rack.identify.hasDeleted <;> exact ⟨rfl, rfl⟩

/-- A compiled rack, field by field. -/
theorem compile_eq (rack : Rack) (version : Nat) :
    rack.compile version =
      let placed := (placeNodes rack.settle.positions rack.settle.nodes 0).run
        (.start rack.settle.nodes.length)
      { name := rack.name
        nodes := placed.1
        positions := rack.settle.positions
        template := {
          slots := placed.2.slots
          bufferSeconds := placed.2.bufferSeconds
          version
          fingerprint := layoutFingerprint (placed.1.map (·.effect.type)) placed.2 }
        cursor := rack.cursor.filter (· < placed.1.length) } := by
  rw [← rack.settle_kept.1, ← rack.settle_kept.2]
  rfl

variable {rack : Rack}

/-- Undoing a compilation keeps the IDs. -/
theorem ids_uncompiled (rack : Rack) :
    rack.uncompiled.nodes.map (·.id) = rack.nodes.map (·.id) := by
  unfold uncompiled
  rw [List.map_map]
  rfl

/-- Settling does nothing but locate the nodes of a rack that has all IDs and none to delete. -/
theorem settle_of_dense (hdense : DenseIds (rack.nodes.map (·.id)))
    (hkept : ∀ node ∈ rack.nodes, node.toDelete = false) : rack.settle = rack.locate := by
  have hids : rack.identify = rack := by
    have hnodes : List.zipWith (fun (node : Node) id => { node with id }) rack.nodes
        (rack.nodes.map (·.id)) = rack.nodes := by
      rw [List.zipWith_map_right, List.zipWith_self]
      exact List.map_id' _
    rw [identify, assigned_ids_eq_self hdense, hnodes]
  have hnone : rack.hasDeleted = false :=
    List.any_eq_false.2 fun node hnode => by simpa using hkept node hnode
  simp only [settle, hids, hnone]
  rfl

/-- Settling finds nothing to do in a rack that was laid out. -/
theorem LaidOut.settle_uncompiled (h : rack.LaidOut) :
    rack.uncompiled.settle = { rack.uncompiled with positions := rack.positions } := by
  have hdense : DenseIds (rack.uncompiled.nodes.map (·.id)) := by
    rw [ids_uncompiled]
    exact h.dense
  rw [settle_of_dense hdense, locate, ids_uncompiled, h.positions]
  intro node hnode
  obtain ⟨before, hbefore, rfl⟩ := List.mem_map.1 hnode
  exact h.kept before hbefore

/-- Compiling a compiled rack again, with its registers forgotten, changes nothing but the version
and the cursor. -/
theorem compile_uncompiled (rack : Rack) (version later : Nat) :
    (rack.compile version).uncompiled.compile later =
      { rack.compile version with
        template := { (rack.compile version).template with version := later }
        cursor := none } := by
  have hlaid := laid_out_compile rack version
  have halike : List.Forall₂ (NodeAlike rack.settle.positions)
      (rack.compile version).uncompiled.nodes rack.settle.nodes := by
    have hbefore : rack.settle.nodes = rack.settle.nodes.zipIdx.map Prod.fst :=
      (List.zipIdx_map_fst ..).symm
    rw [hbefore]
    refine List.forall₂_map_left_iff.2 (List.forall₂_map_right_iff.2 ?_)
    exact (placed_compile rack version).flip.imp fun _ _ h => h.alike
  have hrun := place_nodes_congr halike 0 (.start rack.settle.nodes.length)
  have hlength := halike.length_eq
  rw [compile_eq, hlaid.settle_uncompiled]
  have hpositions : (rack.compile version).positions = rack.settle.positions := rfl
  simp only [hpositions, hlength, hrun]
  rfl

end Rack

end SynthRack
