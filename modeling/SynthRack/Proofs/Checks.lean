import Mathlib
import SynthRack.Play.Fault

/-!
# Checked operations

Compiling and playing index tables, copy slices and divide. Each of these is only defined under a
condition, and here it is an operation that fails with a `Violation` when the condition does not
hold. A computation written with checked operations that succeeds on every input has met all
conditions.
-/

namespace SynthRack

/-- A condition that did not hold. -/
inductive Violation where
  /-- A table was used past its end. -/
  | index (index size : Nat)
  /-- After assignment some ID belonged to no node. -/
  | sparseIds
  /-- A slice was copied onto one of another length. -/
  | copy (target source : Nat)
  /-- A remainder of division by zero. -/
  | remainder
  /-- What playing reports itself. -/
  | fault (fault : Fault)
  deriving DecidableEq

/-- A computation that checks its conditions. -/
abbrev Checked := Except Violation

namespace Checked

variable {α β : Type}

/-- Reads an entry of a table. -/
def lookUp (table : Array α) (index : Nat) : Checked α :=
  match table[index]? with
  | some entry => .ok entry
  | none => .error (.index index table.size)

/-- Writes an entry of a table. -/
def store (table : Array α) (index : Nat) (entry : α) : Checked (Array α) :=
  if h : index < table.size then .ok (table.set index entry)
  else .error (.index index table.size)

/-- Writes entries of a table one after another. -/
def storeAll (table : Array α) : List (Nat × α) → Checked (Array α)
  | [] => .ok table
  | (index, entry) :: rest => do
    let table ← store table index entry
    storeAll table rest

/-- Copies a slice onto another. -/
def copySlice (target source : Array α) : Checked (Array α) :=
  if target.size = source.size then .ok source else .error (.copy target.size source.size)

/-- The remainder of a division. -/
def remainder (dividend divisor : Nat) : Checked Nat :=
  if divisor = 0 then .error .remainder else .ok (dividend % divisor)

/-- After a step that succeeds, the next one goes on from its result. -/
@[simp] theorem ok_bind (a : α) (next : α → Checked β) : (.ok a >>= next) = next a := rfl

/-- Reading succeeds at the places that the table has. -/
theorem look_up_eq_ok {table : Array α} {index : Nat} {entry : α} :
    lookUp table index = .ok entry ↔ table[index]? = some entry := by
  unfold lookUp
  cases table[index]? <;> simp

/-- Writing within the table succeeds. -/
theorem store_ok {table : Array α} {index : Nat} (h : index < table.size) (entry : α) :
    store table index entry = .ok (table.set index entry) := dif_pos h

/-- Entries written at different indices, all of the table, are there afterwards; the others are
as they were. -/
theorem store_all_ok (table : Array α) (entries : List (Nat × α))
    (hlt : ∀ index ∈ entries.map Prod.fst, index < table.size)
    (hnodup : (entries.map Prod.fst).Nodup) :
    ∃ after, storeAll table entries = .ok after ∧ after.size = table.size ∧
      (∀ index entry, (index, entry) ∈ entries → after[index]? = some entry) ∧
      ∀ index, index ∉ entries.map Prod.fst → after[index]? = table[index]? := by
  induction entries generalizing table with
  | nil => exact ⟨table, rfl, rfl, by simp, by simp⟩
  | cons first entries ih =>
      obtain ⟨index, entry⟩ := first
      simp only [List.map_cons, List.forall_mem_cons, List.nodup_cons] at hlt hnodup
      obtain ⟨after, hafter, hsize, hentries, hothers⟩ :=
        ih (table.set index entry hlt.1) (by simpa using hlt.2) hnodup.2
      refine ⟨after, ?_, by simpa using hsize, ?_, ?_⟩
      · rw [storeAll, store_ok hlt.1]
        exact hafter
      · intro other value hmem
        rcases List.mem_cons.1 hmem with heq | hrest
        · cases heq
          rw [hothers index hnodup.1, Array.getElem?_set_self]
        · exact hentries other value hrest
      · intro other hother
        simp only [List.map_cons, List.mem_cons, not_or] at hother
        rw [hothers other hother.2, Array.getElem?_set_ne _ (Ne.symm hother.1)]

/-- A list of checked steps, each of which succeeds. -/
theorem map_m_ok {f : α → Checked β} {as : List α} (bs : List β)
    (h : List.Forall₂ (fun a b => f a = .ok b) as bs) : as.mapM f = .ok bs := by
  induction h with
  | nil => rfl
  | cons hfirst _ ih =>
      rw [List.mapM_cons, hfirst, ih]
      rfl

/-- Copying between slices of one length succeeds. -/
theorem copy_slice_ok {target source : Array α} (h : target.size = source.size) :
    copySlice target source = .ok source := if_pos h

/-- Dividing by anything but zero succeeds. -/
theorem remainder_ok {divisor : Nat} (h : divisor ≠ 0) (dividend : Nat) :
    remainder dividend divisor = .ok (dividend % divisor) := if_neg h

end Checked

end SynthRack
