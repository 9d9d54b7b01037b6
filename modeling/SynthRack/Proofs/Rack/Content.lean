import Mathlib
import SynthRack.Document.Write
import SynthRack.Proofs.Rack.Recompile
import SynthRack.Proofs.Rack.References

/-!
# Compilation reads nothing but the content

The registers and buffers that earlier compilations left in the nodes of a rack, its table of
positions and its template are never read. Every pass of a compilation commutes with forgetting them
(`settle_nodes_uncompiled`, `place_nodes_uncompiled`). So racks of the same content compile to the same
(`SameContent.compile`), whatever they were before, and compiling a compiled rack once more finds
everything where it is (`compile_compile`).
-/

namespace SynthRack

namespace Node

/-- What was taken off a node cannot be taken off again. -/
theorem uncompiled_uncompiled (node : Node) : node.uncompiled.uncompiled = node.uncompiled := by
  simp [uncompiled, Param.ofBinding]

/-- Placement does not tell a node from what is left when its registers are forgotten. -/
theorem alike_uncompiled (positions : Array Nat) (node : Node) :
    NodeAlike positions node.uncompiled node where
  id := rfl
  toDelete := rfl
  enabled := rfl
  form := by
    unfold uncompiled
    rw [Effect.form_map]
  params := by
    unfold uncompiled
    rw [Effect.with_defaults_map, Effect.params_map, List.forall₂_map_left_iff]
    exact List.forall₂_same.2 fun p _ => ⟨rfl, rfl⟩

end Node

/-- Placing nodes does not depend on the registers that they had. -/
theorem place_nodes_uncompiled (positions : Array Nat) (nodes : List Node) (start : Nat)
    (draft : Draft) :
    (placeNodes positions (nodes.map .uncompiled) start).run draft =
      (placeNodes positions nodes start).run draft := by
  refine place_nodes_congr ?_ start draft
  rw [List.forall₂_map_left_iff]
  exact List.forall₂_same.2 fun node _ => node.alike_uncompiled positions

attribute [ext] Rack

namespace Rack

/-- The racks hold the same: IDs, flags, kinds, waveforms, comparisons and bindings agree node by node.
They can differ in their names and cursors and in everything that compilation wrote. -/
def SameContent (a b : Rack) : Prop := a.nodes.map Node.uncompiled = b.nodes.map Node.uncompiled

instance (a b : Rack) : Decidable (a.SameContent b) := inferInstanceAs (Decidable (_ = _))

/-! ## Settling -/

/-- Assigning IDs does not look at what compiling left in the nodes. -/
theorem identify_nodes_uncompiled (rack : Rack) :
    rack.uncompiled.identify.nodes = rack.identify.nodes.map .uncompiled := by
  have hnodes : rack.uncompiled.nodes = rack.nodes.map .uncompiled := rfl
  rw [identify_eq, identify_eq, ids_uncompiled, hnodes, List.zip_map_left, List.map_map, List.map_map]
  rfl

/-- Which nodes survive does not depend on what compiling left in them. -/
theorem survivors_of_uncompiled {rack erased : Rack}
    (h : erased.nodes = rack.nodes.map .uncompiled) :
    erased.survivors = rack.survivors.map .uncompiled := by
  rw [survivors, survivors, h, List.filter_map]
  rfl

/-- Renumbering looks for a node by its ID. -/
theorem renumber_uncompiled (survivors : List Node) (binding : Binding) (default : Float32) :
    renumber (survivors.map .uncompiled) binding default = renumber survivors binding default := by
  have hnew (id : Nat) : newId? (survivors.map .uncompiled) id = newId? survivors id := by
    rw [newId?, List.findIdx?_map]
    rfl
  cases binding <;> simp only [renumber, hnew]

/-- Renumbering does not look at what compiling left in the nodes. -/
theorem compact_nodes_uncompiled {rack erased : Rack}
    (h : erased.nodes = rack.nodes.map .uncompiled) :
    erased.compact.nodes = rack.compact.nodes.map .uncompiled := by
  simp only [compact, survivors_of_uncompiled h]
  refine List.ext_getElem (by simp) fun position hlt hlt' => ?_
  simp only [List.getElem_mapIdx, List.getElem_map, Node.uncompiled, Effect.with_defaults_map,
    Effect.map_map, renumber_uncompiled, Param.ofBinding]

/-- Settling commutes with forgetting registers. -/
theorem settle_nodes_uncompiled (rack : Rack) :
    rack.uncompiled.settle.nodes = rack.settle.nodes.map .uncompiled := by
  have hids := rack.identify_nodes_uncompiled
  have hdeleted : rack.uncompiled.identify.hasDeleted = rack.identify.hasDeleted := by
    rw [hasDeleted, hasDeleted, hids, List.any_map]
    rfl
  cases hany : rack.identify.hasDeleted with
  | true =>
      rw [settle_of_deleted hany, settle_of_deleted (hdeleted.trans hany),
        compact_nodes_uncompiled hids]
  | false =>
      rw [settle_of_none_deleted hany, settle_of_none_deleted (hdeleted.trans hany),
        survivors_of_uncompiled hids]

/-- Settling looks at nothing but the nodes. -/
theorem settle_nodes_congr {a b : Rack} (h : a.nodes = b.nodes) : a.settle.nodes = b.settle.nodes := by
  have hidentified : a.identify.nodes = b.identify.nodes := by
    rw [identify_eq, identify_eq, h]
  have hdeleted : a.identify.hasDeleted = b.identify.hasDeleted :=
    congrArg (List.any · _) hidentified
  have hsurvivors : a.identify.survivors = b.identify.survivors :=
    congrArg (List.filter _) hidentified
  cases hany : b.identify.hasDeleted with
  | true =>
      rw [settle_of_deleted hany, settle_of_deleted (hdeleted.trans hany), compact, compact,
        hsurvivors]
  | false =>
      rw [settle_of_none_deleted hany, settle_of_none_deleted (hdeleted.trans hany), hsurvivors]

/-- The positions of a settled rack are those of its IDs. -/
theorem positions_settle (rack : Rack) :
    rack.settle.positions = positionTable (rack.settle.nodes.map (·.id)) := rfl

/-! ## Compiling -/

/-- Racks of the same content compile to the same nodes, positions and templates, but for what their
versions are. -/
theorem SameContent.compile {a b : Rack} (h : a.SameContent b) (version other : Nat) :
    (a.compile version).nodes = (b.compile other).nodes ∧
      (a.compile version).positions = (b.compile other).positions ∧
      (a.compile version).template = { (b.compile other).template with version } := by
  have hsettled : a.settle.nodes.map Node.uncompiled = b.settle.nodes.map .uncompiled := by
    rw [← settle_nodes_uncompiled, ← settle_nodes_uncompiled]
    exact settle_nodes_congr h
  have hids : a.settle.nodes.map (·.id) = b.settle.nodes.map (·.id) := by
    simpa [Function.comp_def, Node.uncompiled] using congrArg (List.map (·.id)) hsettled
  have hlength : a.settle.nodes.length = b.settle.nodes.length := by
    simpa using congrArg List.length hsettled
  have hpositions : a.settle.positions = b.settle.positions := by
    rw [positions_settle, positions_settle, hids]
  have hplaced : (placeNodes a.settle.positions a.settle.nodes 0).run (.start a.settle.nodes.length) =
      (placeNodes b.settle.positions b.settle.nodes 0).run (.start b.settle.nodes.length) := by
    rw [← place_nodes_uncompiled, hsettled, place_nodes_uncompiled, hpositions, hlength]
  refine ⟨congrArg Prod.fst hplaced, hpositions, ?_⟩
  rw [compile_eq, compile_eq]
  simp only [hplaced]

/-- What a rack compiles to depends on its content alone, and so does the text it is written as, its
name given. -/
theorem same_content_compile {a b : Rack} (h : a.SameContent b) (version other : Nat) :
    (a.compile version).nodes = (b.compile other).nodes ∧
      (a.compile version).positions = (b.compile other).positions ∧
      (a.compile version).template = { (b.compile other).template with version } ∧
      (a.name = b.name → (a.serialize version).1 = (b.serialize other).1) := by
  obtain ⟨hnodes, hpositions, htemplate⟩ := h.compile version other
  refine ⟨hnodes, hpositions, htemplate, fun hname => ?_⟩
  have hnames : (a.compile version).name = (b.compile other).name := by
    rw [compile_eq, compile_eq, hname]
  simp only [serialize, toJson, hnodes, hnames]

/-- A rack that was never compiled, and one that was compiled with other nodes, whose nodes now bring
registers, buffers and positions from anywhere. -/
theorem same_content_compile_stale :
    let delay : Node := .ofEffect (.delay ⟨.node 4, .unset⟩)
    let sum : Node := { Node.ofEffect (.maths ⟨[[.node 0, .constant 2], []]⟩) with toDelete := true }
    let fresh : Rack := { Rack.empty with nodes := [delay, sum, .ofEffect (.new .switch)] }
    let stale (node : Node) : Node := { node with
      home := some ⟨70, [3, 4], some 9⟩
      effect := node.effect.map fun p => ⟨p.binding, some 99⟩ }
    let used : Rack := { Rack.empty with nodes := [.ofEffect (.new .biquad)] }
    let reused : Rack := { used.compile 7 with nodes := fresh.nodes.map stale }
    fresh.SameContent reused ∧ (fresh.compile 1).nodes = (reused.compile 8).nodes ∧
      (fresh.compile 1).template = { (reused.compile 8).template with version := 1 } ∧
      (fresh.serialize 1).1 = (reused.serialize 8).1 := by
  intro delay sum fresh stale used reused
  have hcontent : fresh.SameContent reused := by decide +kernel
  obtain ⟨hnodes, -, htemplate, htext⟩ := same_content_compile hcontent 1 8
  exact ⟨hcontent, hnodes, htemplate, htext rfl⟩

/-- Compiling a compiled rack again gives it another version and changes nothing else. -/
theorem compile_compile (rack : Rack) (version later : Nat) :
    (rack.compile version).compile later = { rack.compile version with
      template := { (rack.compile version).template with version := later } } := by
  have hcontent : (rack.compile version).SameContent (rack.compile version).uncompiled := by
    show _ = (List.map _ _).map _
    rw [List.map_map]
    exact List.map_congr_left fun node _ => node.uncompiled_uncompiled.symm
  obtain ⟨hnodes, hpositions, htemplate⟩ := hcontent.compile later later
  rw [compile_uncompiled] at hnodes hpositions htemplate
  -- The cursor was cut off at the number of nodes, which is the same.
  have hcut (rack : Rack) (version : Nat) : (rack.compile version).cursor =
      rack.cursor.filter (· < (rack.compile version).nodes.length) := by
    rw [compile_eq]
  have hcursor : ((rack.compile version).compile later).cursor = (rack.compile version).cursor := by
    rw [hcut, hnodes, hcut rack]
    cases rack.cursor with
    | none => rfl
    | some cursor =>
        by_cases hlt : cursor < (rack.compile version).nodes.length <;> simp [Option.filter, hlt]
  exact Rack.ext (by rw [compile_eq]) hnodes hpositions htemplate hcursor

end Rack

end SynthRack
