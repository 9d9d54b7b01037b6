import Mathlib
import SynthRack.Proofs.Rack.Recompile
import SynthRack.Proofs.Rack.References

/-!
# The IDs after a compilation

A position `KeepsId` when its ID is in range and no earlier position has it. Assignment leaves these
positions their IDs (`assigned_id_kept`) and hands the unused IDs to the others in ascending order
(`assigned_ids_filled`). `numbered_compile` says what a compilation makes of the IDs, the flags, the
table of positions and the cursor of any rack.
-/

namespace SynthRack

/-- The ID at the position is below the count, and no earlier position has it. -/
def KeepsId (ids : List (Option Nat)) (position : Nat) : Prop :=
  ∃ id < ids.length, ids[position]? = some (some id) ∧ some id ∉ ids.take position

instance (ids : List (Option Nat)) (position : Nat) : Decidable (KeepsId ids position) :=
  inferInstanceAs (Decidable (∃ id < ids.length, _))

/-- The IDs below the count that no position has, ascending. -/
def unusedIds (ids : List (Option Nat)) : List Nat :=
  (List.range ids.length).filter fun id => !ids.contains (some id)

/-! ## Kept IDs -/

/-- An ID is kept where it is in range, free, and has not come before. -/
theorem kept_id_iff {count : Nat} {taken : List Nat} {ids : List (Option Nat)} {position id : Nat} :
    (keptIds count taken ids)[position]? = some (some id) ↔
      ids[position]? = some (some id) ∧ (id < count ∧ id ∉ taken) ∧ some id ∉ ids.take position := by
  induction ids generalizing taken position with
  | nil => simp [keptIds]
  | cons first ids ih =>
      cases first with
      | none => cases position <;> simp [keptIds, ih]
      | some other =>
          rw [keptIds]
          split
          case isTrue hfresh =>
            cases position with
            | zero =>
                simp only [List.getElem?_cons_zero, List.take_zero, Option.some.injEq]
                constructor
                · rintro rfl
                  exact ⟨rfl, hfresh, List.not_mem_nil⟩
                · exact And.left
            | succ position =>
                simp only [List.getElem?_cons_succ, ih, List.take_succ_cons, List.mem_cons,
                  Option.some.injEq]
                tauto
          case isFalse htaken =>
            cases position with
            | zero =>
                simp only [List.getElem?_cons_zero, Option.some.injEq, reduceCtorEq, false_iff]
                rintro ⟨rfl, hfresh, -⟩
                exact htaken hfresh
            | succ position =>
                have hother : id < count ∧ id ∉ taken → id ≠ other := by
                  rintro hfresh rfl
                  exact htaken hfresh
                simp only [List.getElem?_cons_succ, ih, List.take_succ_cons, List.mem_cons,
                  Option.some.injEq]
                tauto

/-- An ID is kept somewhere if it is in range and stands somewhere. -/
theorem mem_kept_iff {count : Nat} {taken : List Nat} {ids : List (Option Nat)} {id : Nat} :
    some id ∈ keptIds count taken ids ↔ some id ∈ ids ∧ id < count ∧ id ∉ taken := by
  constructor
  · intro h
    obtain ⟨position, hposition⟩ := List.mem_iff_getElem?.1 h
    obtain ⟨hid, hfresh, -⟩ := kept_id_iff.1 hposition
    exact ⟨List.mem_of_getElem? hid, hfresh⟩
  · rintro ⟨hmem, hfresh⟩
    -- The first position that has it keeps it.
    have hfirst : some id ∉ ids.take (ids.idxOf (some id)) := by
      rw [List.mem_take_iff_idxOf_lt hmem]
      exact Nat.lt_irrefl _
    exact List.mem_of_getElem? (kept_id_iff.2 ⟨List.getElem?_idxOf hmem, hfresh, hfirst⟩)

/-- A position keeps its ID if the kept IDs have one there. -/
theorem keeps_id_iff {ids : List (Option Nat)} {position : Nat} :
    KeepsId ids position ↔ ∃ id, (keptIds ids.length [] ids)[position]? = some (some id) := by
  simp only [kept_id_iff, List.not_mem_nil, not_false_eq_true, and_true]
  constructor
  · rintro ⟨id, hlt, hid, hfirst⟩
    exact ⟨id, hid, hlt, hfirst⟩
  · rintro ⟨id, hid, hlt, hfirst⟩
    exact ⟨id, hlt, hid, hfirst⟩

/-- A position that does not keep its ID has none before filling. -/
theorem kept_eq_none_iff {ids : List (Option Nat)} {position : Nat} (h : position < ids.length) :
    (keptIds ids.length [] ids)[position]? = some none ↔ ¬ KeepsId ids position := by
  have hlt : position < (keptIds ids.length [] ids).length := by rwa [length_kept_ids]
  rw [keeps_id_iff, List.getElem?_eq_getElem hlt]
  cases (keptIds ids.length [] ids)[position] <;> simp

/-- The IDs that nobody keeps are those that nobody has. -/
theorem free_ids_eq (ids : List (Option Nat)) :
    freeIds ids.length (keptIds ids.length [] ids) = unusedIds ids := by
  refine List.filter_congr fun id hid => ?_
  have hlt : id < ids.length := List.mem_range.1 hid
  simp [mem_kept_iff, hlt]

/-! ## Filled IDs -/

/-- Filling up leaves the kept IDs where they are. -/
theorem fill_id_kept {free : List Nat} {kept : List (Option Nat)} {position id : Nat}
    (h : kept[position]? = some (some id)) : (fillIds free kept)[position]? = some (some id) := by
  induction kept generalizing free position with
  | nil => cases h
  | cons first kept ih =>
      cases position with
      | zero =>
          obtain rfl : first = some id := Option.some.inj h
          rfl
      | succ position =>
          rw [List.getElem?_cons_succ] at h
          cases first with
          | some other => exact ih h
          | none => cases free <;> exact ih h

/-- The positions without an ID receive the free ones in order. -/
theorem fill_ids_free {free : List Nat} {kept : List (Option Nat)}
    (hcount : free.length = (kept.filter Option.isNone).length) :
    ((List.range kept.length).filter fun position => kept[position]? = some none).map
        (fun position => (fillIds free kept)[position]?) =
      free.map fun id => some (some id) := by
  induction kept generalizing free with
  | nil =>
      obtain rfl : free = [] := List.length_eq_zero_iff.1 (by simpa using hcount)
      rfl
  | cons first kept ih =>
      rw [List.length_cons, List.range_succ_eq_map]
      cases first with
      | some id =>
          have hrest := @ih free (by simpa using hcount)
          simpa [List.filter_map, Function.comp_def, fillIds] using hrest
      | none =>
          cases free with
          | nil => simp at hcount
          | cons id free =>
              have hrest := @ih free (by simpa using hcount)
              simpa [List.filter_map, Function.comp_def, fillIds] using hrest

/-- A position that keeps its ID has it after assignment. -/
theorem assigned_id_kept {ids : List (Option Nat)} {position : Nat} (h : KeepsId ids position) :
    (assignedIds ids)[position]? = ids[position]? := by
  obtain ⟨id, hid⟩ := keeps_id_iff.1 h
  rw [assignedIds, fill_id_kept hid, (kept_id_iff.1 hid).1]

/-- The positions that keep no ID receive the unused ones, the smallest first. -/
theorem assigned_ids_filled (ids : List (Option Nat)) :
    ((List.range ids.length).filter fun position => ¬ KeepsId ids position).map
        (fun position => (assignedIds ids)[position]?) =
      (unusedIds ids).map fun id => some (some id) := by
  have hfilled := fill_ids_free (free_ids_count ids)
  rw [free_ids_eq, length_kept_ids] at hfilled
  have hpositions : (List.range ids.length).filter (fun position => ¬ KeepsId ids position) =
      (List.range ids.length).filter
        fun position => (keptIds ids.length [] ids)[position]? = some none := by
    refine List.filter_congr fun position hposition => ?_
    simp only [kept_eq_none_iff (List.mem_range.1 hposition)]
  rw [hpositions, assignedIds, free_ids_eq]
  exact hfilled

example : assignedIds [some 2, none, some 2, some 40] = [some 2, some 0, some 1, some 3] := by decide

namespace Rack

/-- What a compilation makes of IDs, flags, positions and cursor, whatever they were before. -/
structure Numbered (rack done : Rack) : Prop where
  /-- The nodes that are not marked remain. -/
  count : done.nodes.length = rack.survivors.length
  /-- Their IDs are the numbers below their count, in some order. -/
  dense : (done.nodes.map (·.id)).Perm ((List.range done.nodes.length).map some)
  unmarked : ∀ node ∈ done.nodes, node.toDelete = false
  /-- The table of positions is the inverse of the list of IDs. -/
  positions : ∀ id position, done.positionOf? id = some position ↔
    ∃ node, done.nodes[position]? = some node ∧ node.id = some id
  beyond : ∀ id, done.nodes.length ≤ id → done.positionOf? id = none
  /-- With nothing marked, a node keeps an ID in range that no earlier node has. -/
  kept : rack.hasDeleted = false → ∀ position, KeepsId (rack.nodes.map (·.id)) position →
    (done.nodes.map (·.id))[position]? = (rack.nodes.map (·.id))[position]?
  /-- With nothing marked, the other nodes receive the unused IDs, the smallest first. -/
  filled : rack.hasDeleted = false →
    ((List.range rack.nodes.length).filter fun position =>
        ¬ KeepsId (rack.nodes.map (·.id)) position).map
        (fun position => (done.nodes.map (·.id))[position]?) =
      (unusedIds (rack.nodes.map (·.id))).map fun id => some (some id)
  /-- Once a node is removed, every node has its position for its ID. -/
  renumbered : rack.hasDeleted = true →
    done.nodes.map (·.id) = (List.range done.nodes.length).map some
  cursor : done.cursor = rack.cursor.filter (· < done.nodes.length)

/-- Assignment changes no mark. -/
theorem has_deleted_identify (rack : Rack) : rack.identify.hasDeleted = rack.hasDeleted := by
  have hmarks : rack.identify.nodes.map (·.toDelete) = rack.nodes.map (·.toDelete) := by
    rw [identify_eq, List.map_map]
    show (rack.nodes.zip _).map (Node.toDelete ∘ Prod.fst) = _
    rw [← List.map_map, List.map_fst_zip]
    rw [length_assigned_ids, List.length_map]
  show rack.identify.nodes.any (id ∘ Node.toDelete) = rack.nodes.any (id ∘ Node.toDelete)
  rw [← List.any_map, hmarks, List.any_map]

/-- A compiled rack has as many nodes as survived. -/
theorem length_compile_survivors (rack : Rack) (version : Nat) :
    (rack.compile version).nodes.length = rack.survivors.length := by
  rw [length_compile, ← (nodes_settled rack).length_eq, ← map_fst_staying, List.length_map]

/-- With nothing marked, compilation leaves the assigned IDs. -/
theorem ids_compile_of_none_deleted {rack : Rack} (h : rack.hasDeleted = false) (version : Nat) :
    (rack.compile version).nodes.map (·.id) = assignedIds (rack.nodes.map (·.id)) := by
  have hdeleted : rack.identify.hasDeleted = false := rack.has_deleted_identify.trans h
  have hsettled : rack.settle.nodes = rack.identify.nodes := by
    simp [settle, hdeleted, locate]
  rw [ids_compile, hsettled, ids_identify]

/-- Where a node was deleted, the IDs of a compiled rack are the positions. -/
theorem ids_compile_of_deleted {rack : Rack} (h : rack.hasDeleted = true) (version : Nat) :
    (rack.compile version).nodes.map (·.id) =
      (List.range (rack.compile version).nodes.length).map some := by
  have hdeleted : rack.identify.hasDeleted = true := rack.has_deleted_identify.trans h
  have hsettled : rack.settle.nodes.length = rack.identify.survivors.length := by
    rw [settle_of_deleted hdeleted, compact, List.length_mapIdx]
  rw [ids_compile, length_compile, hsettled, settle_of_deleted hdeleted, ids_compact]

/-- Compilation numbers every rack. -/
theorem numbered_compile (rack : Rack) (version : Nat) : rack.Numbered (rack.compile version) where
  count := rack.length_compile_survivors version
  dense := by
    have hdense := (laid_out_compile rack version).dense
    rwa [DenseIds, List.length_map] at hdense
  unmarked := (laid_out_compile rack version).kept
  positions := by
    intro id position
    exact (laid_out_compile rack version).id_of_position
  beyond := by
    intro id hid
    have hlaid := laid_out_compile rack version
    cases hposition : (rack.compile version).positionOf? id with
    | none => rfl
    | some position =>
        obtain ⟨node, hnode, hnodeId⟩ := hlaid.id_of_position.1 hposition
        have hmem : some id ∈ (rack.compile version).nodes.map (·.id) :=
          List.mem_map.2 ⟨node, List.mem_of_getElem? hnode, hnodeId⟩
        have hlt := (hlaid.dense.mem_iff id).1 hmem
        rw [List.length_map] at hlt
        omega
  kept := by
    intro hdeleted position hkeeps
    rw [ids_compile_of_none_deleted hdeleted]
    exact assigned_id_kept hkeeps
  filled := by
    intro hdeleted
    have hfilled := assigned_ids_filled (rack.nodes.map (·.id))
    rw [List.length_map] at hfilled
    rw [ids_compile_of_none_deleted hdeleted]
    exact hfilled
  renumbered := by
    intro hdeleted
    exact ids_compile_of_deleted hdeleted version
  cursor := by
    rw [compile_eq]

end Rack

end SynthRack
