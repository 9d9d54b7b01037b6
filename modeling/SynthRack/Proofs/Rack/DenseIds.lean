import Mathlib
import SynthRack.Rack.Identify

/-!
# IDs after assignment

`DenseIds` says that a list of IDs is some order of the numbers below its length. Assignment always
arrives there (`assigned_ids_dense`), and does nothing to a list that is there already
(`assigned_ids_eq_self`). For dense IDs the table of positions is the inverse of the list
(`position_table_eq_some_iff`).
-/

namespace SynthRack

/-- Every node has an ID, no two the same, and the IDs are the numbers below their count. -/
def DenseIds (ids : List (Option Nat)) : Prop := ids.Perm ((List.range ids.length).map some)

namespace DenseIds

variable {ids : List (Option Nat)}

/-- Dense IDs are different. -/
theorem nodup (h : DenseIds ids) : ids.Nodup :=
  h.nodup_iff.2 (List.nodup_range.map (Option.some_injective _))

/-- The dense IDs are the numbers below their count. -/
theorem mem_iff (h : DenseIds ids) (id : Nat) : some id ∈ ids ↔ id < ids.length := by
  rw [List.Perm.mem_iff h]
  simp

/-- No node is without an ID. -/
theorem none_not_mem (h : DenseIds ids) : none ∉ ids := by
  rw [List.Perm.mem_iff h]
  simp

/-- The numbers in dense IDs are different. -/
theorem reduce_option_nodup (h : DenseIds ids) : ids.reduceOption.Nodup := by
  have hrange : ((List.range ids.length).map some).reduceOption = List.range ids.length := by
    simp [List.reduceOption]
  have hperm : ids.reduceOption.Perm (List.range ids.length) := hrange ▸ List.Perm.filterMap id h
  exact hperm.nodup_iff.2 List.nodup_range

/-- Two positions with one ID are one position. -/
theorem position_unique (h : DenseIds ids) {p q : Nat} {id : Option Nat}
    (hp : ids[p]? = some id) (hq : ids[q]? = some id) : p = q := by
  obtain ⟨hlt, hid⟩ := List.getElem?_eq_some_iff.1 hp
  exact (List.getElem?_inj hlt h.nodup).1 (hp.trans hq.symm)

/-- The numbers in ascending order are dense IDs. -/
theorem range (count : Nat) : DenseIds ((List.range count).map some) := by
  simp [DenseIds]

end DenseIds

/-! ## Assignment -/

/-- Every node has an entry among the kept IDs. -/
theorem length_kept_ids (count : Nat) (taken : List Nat) (ids : List (Option Nat)) :
    (keptIds count taken ids).length = ids.length := by
  induction ids generalizing taken with
  | nil => rfl
  | cons id ids ih =>
      cases id with
      | none => simp [keptIds, ih]
      | some id =>
          simp only [keptIds]
          split <;> simp [ih]

/-- A kept ID is in range and was not taken before. -/
theorem kept_ids_fresh {count : Nat} {taken : List Nat} {ids : List (Option Nat)} {id : Nat}
    (h : some id ∈ keptIds count taken ids) : id < count ∧ id ∉ taken := by
  induction ids generalizing taken with
  | nil => simp [keptIds] at h
  | cons first ids ih =>
      cases first with
      | none => exact ih (by simpa [keptIds] using h)
      | some other =>
          simp only [keptIds] at h
          split at h
          case isTrue hfresh =>
            rcases List.mem_cons.1 h with hhead | htail
            · obtain rfl := Option.some.inj hhead
              exact hfresh
            · exact ⟨(ih htail).1, fun hmem => (ih htail).2 (List.mem_cons_of_mem _ hmem)⟩
          case isFalse => exact ih (by simpa using h)

/-- The kept IDs are different. -/
theorem kept_ids_nodup (count : Nat) (taken : List Nat) (ids : List (Option Nat)) :
    (keptIds count taken ids).reduceOption.Nodup := by
  induction ids generalizing taken with
  | nil => simp [keptIds]
  | cons first ids ih =>
      cases first with
      | none => simpa [keptIds] using ih taken
      | some id =>
          simp only [keptIds]
          split
          case isTrue =>
            rw [List.reduceOption_cons_of_some, List.nodup_cons]
            refine ⟨fun hmem => ?_, ih _⟩
            exact (kept_ids_fresh (List.reduceOption_mem_iff.1 hmem)).2 (List.mem_cons_self ..)
          case isFalse => simpa using ih taken

/-- IDs that are in range, apart, and not taken are all kept. -/
theorem kept_ids_eq_self {count : Nat} {taken : List Nat} {ids : List (Option Nat)}
    (hnone : none ∉ ids) (hnodup : ids.Nodup)
    (hfresh : ∀ id, some id ∈ ids → id < count ∧ id ∉ taken) : keptIds count taken ids = ids := by
  induction ids generalizing taken with
  | nil => rfl
  | cons first ids ih =>
      obtain ⟨id, rfl⟩ : ∃ id, first = some id := by
        cases first with
        | none => simp at hnone
        | some id => exact ⟨id, rfl⟩
      rw [List.nodup_cons] at hnodup
      rw [keptIds, if_pos (hfresh id (List.mem_cons_self ..))]
      rw [ih (fun h => hnone (List.mem_cons_of_mem _ h)) hnodup.2]
      intro other hother
      have hrest := hfresh other (List.mem_cons_of_mem _ hother)
      refine ⟨hrest.1, ?_⟩
      intro hmem
      rcases List.mem_cons.1 hmem with rfl | htaken
      · exact hnodup.1 hother
      · exact hrest.2 htaken

/-- Together with the free IDs, the kept ones are all IDs. -/
theorem kept_append_free_perm (ids : List (Option Nat)) :
    ((keptIds ids.length [] ids).reduceOption ++
      freeIds ids.length (keptIds ids.length [] ids)).Perm (List.range ids.length) := by
  have hdisjoint : ∀ id ∈ (keptIds ids.length [] ids).reduceOption,
      id ∉ freeIds ids.length (keptIds ids.length [] ids) := by
    intro id hkept hfree
    simp only [freeIds, List.mem_filter, decide_eq_true_eq] at hfree
    exact hfree.2 (List.reduceOption_mem_iff.1 hkept)
  refine (List.perm_ext_iff_of_nodup ?_ List.nodup_range).2 ?_
  · refine (kept_ids_nodup _ _ _).append (List.nodup_range.filter _) ?_
    intro id
    exact hdisjoint id
  · intro id
    simp only [List.mem_append, List.reduceOption_mem_iff, freeIds, List.mem_filter, List.mem_range,
      decide_eq_true_eq]
    constructor
    · rintro (hkept | hfree)
      · exact (kept_ids_fresh hkept).1
      · exact hfree.1
    · intro hlt
      by_cases hkept : some id ∈ keptIds ids.length [] ids
      · exact Or.inl hkept
      · exact Or.inr ⟨hlt, hkept⟩

/-- With one free ID for every node that keeps none, filling uses up exactly the free IDs. -/
theorem fill_ids_perm {free : List Nat} {kept : List (Option Nat)}
    (hcount : free.length = (kept.filter Option.isNone).length) :
    (fillIds free kept).Perm ((kept.reduceOption ++ free).map some) := by
  induction kept generalizing free with
  | nil =>
      obtain rfl : free = [] := List.length_eq_zero_iff.1 (by simpa using hcount)
      simp [fillIds]
  | cons first kept ih =>
      cases first with
      | some id => simpa [fillIds] using ih (by simpa using hcount)
      | none =>
          cases free with
          | nil => simp at hcount
          | cons id free =>
              have hrest : (fillIds free kept).Perm ((kept.reduceOption ++ free).map some) :=
                ih (by simpa using hcount)
              refine ((hrest.cons (some id)).trans ?_)
              have hmiddle : (kept.reduceOption ++ id :: free).Perm
                  (id :: (kept.reduceOption ++ free)) := List.perm_middle
              simpa using hmiddle.symm.map some

/-- As many IDs are free as nodes keep none. -/
theorem free_ids_count (ids : List (Option Nat)) :
    (freeIds ids.length (keptIds ids.length [] ids)).length =
      ((keptIds ids.length [] ids).filter Option.isNone).length := by
  have hlength := (kept_append_free_perm ids).length_eq
  have hkept := List.length_eq_reduceOption_length_add_filter_none
    (l := keptIds ids.length [] ids)
  rw [List.length_append, List.length_range] at hlength
  rw [length_kept_ids] at hkept
  omega

/-- After assignment the IDs are dense, whatever they were before. -/
theorem assigned_ids_dense (ids : List (Option Nat)) : DenseIds (assignedIds ids) := by
  have hassigned : (assignedIds ids).Perm ((List.range ids.length).map some) :=
    (fill_ids_perm (free_ids_count ids)).trans ((kept_append_free_perm ids).map some)
  have hsize : (assignedIds ids).length = ids.length := by simpa using hassigned.length_eq
  rwa [DenseIds, hsize]

/-- Every node has an entry among the assigned IDs. -/
theorem length_assigned_ids (ids : List (Option Nat)) : (assignedIds ids).length = ids.length := by
  have hkept := length_kept_ids ids.length [] ids
  have hfill (free : List Nat) (kept : List (Option Nat)) :
      (fillIds free kept).length = kept.length := by
    induction kept generalizing free with
    | nil => cases free <;> rfl
    | cons id kept ih => cases id <;> cases free <;> simp [fillIds, ih]
  rw [assignedIds, hfill, hkept]

/-- Nodes that keep their IDs receive none. -/
theorem fill_ids_eq_self {kept : List (Option Nat)} (h : none ∉ kept) (free : List Nat) :
    fillIds free kept = kept := by
  induction kept with
  | nil => cases free <;> rfl
  | cons id kept ih =>
      cases id with
      | none => simp at h
      | some id => simp [fillIds, ih fun hmem => h (List.mem_cons_of_mem _ hmem)]

/-- Dense IDs stay as they are. -/
theorem assigned_ids_eq_self {ids : List (Option Nat)} (h : DenseIds ids) :
    assignedIds ids = ids := by
  have hkept : keptIds ids.length [] ids = ids :=
    kept_ids_eq_self h.none_not_mem h.nodup fun id hid => ⟨(h.mem_iff id).1 hid, by simp⟩
  rw [assignedIds, hkept, fill_ids_eq_self h.none_not_mem]

/-! ## Positions -/

/-- The table of positions knows exactly the IDs in use, and where their nodes are. -/
theorem position_table_eq_some_iff {ids : List (Option Nat)} (h : DenseIds ids)
    {id position : Nat} :
    (positionTable ids)[id]? = some position ↔ ids[position]? = some (some id) := by
  have hfind : id < ids.length → ids[ids.idxOf (some id)]? = some (some id) := fun hlt =>
    List.getElem?_idxOf ((h.mem_iff id).2 hlt)
  constructor
  · intro hlookup
    obtain ⟨hlt, hvalue⟩ := Array.getElem?_eq_some_iff.1 hlookup
    obtain rfl : ids.idxOf (some id) = position := by simpa [positionTable] using hvalue
    exact hfind (by simpa [positionTable] using hlt)
  · intro hid
    have hlt : id < ids.length := (h.mem_iff id).1 (List.mem_of_getElem? hid)
    obtain rfl := h.position_unique (hfind hlt) hid
    simp [positionTable, hlt]

end SynthRack
