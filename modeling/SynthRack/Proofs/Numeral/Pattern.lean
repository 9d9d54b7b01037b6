import Mathlib
import SynthRack.Numeral.Binary

/-!
# Bit patterns of finite numbers

`Canonical s e` says that a format has the number `s * 2 ^ e` with `e` as the exponent of its last
place, and `pattern s e` is the pattern of that number without its sign. Reading a pattern and
finding it from what was read are inverse: `read_pattern` and `pattern_of_read`.
-/

namespace SynthRack

namespace Format

variable {f : Format} {s : Nat} {e : Int}

/-- The format has the number `s * 2 ^ e`, and its last place has the exponent `e`. -/
structure Canonical (f : Format) (s : Nat) (e : Int) : Prop where
  least : f.leastExponent ≤ e
  size : s < 2 ^ (f.fractionBits + 1)
  /-- Only at the least exponent a significand may start with zeros. -/
  small : s < 2 ^ f.fractionBits → e = f.leastExponent
  finite : e - f.leastExponent + 2 < 2 ^ f.exponentBits

/-- The bits of the number `s * 2 ^ e` behind the sign. -/
def pattern (f : Format) (s : Nat) (e : Int) : Nat :=
  (e - f.leastExponent).toNat * 2 ^ f.fractionBits + s

/-- The sign bit of a number. -/
def signBits (f : Format) (negative : Bool) : Nat := if negative then f.signMask else 0

/-- The sign bit stands in front of the exponent and the fraction. -/
theorem sign_mask_eq (f : Format) :
    f.signMask = 2 ^ f.exponentBits * 2 ^ f.fractionBits := by
  simp [signMask, pow_add]

/-- A pattern is its sign, its exponent field and its fraction. -/
theorem read_fields {negative : Bool} {field fraction : Nat} (hfield : field < 2 ^ f.exponentBits)
    (hfraction : fraction < 2 ^ f.fractionBits) :
    f.read (f.signBits negative + field * 2 ^ f.fractionBits + fraction) =
      if field = f.specialField then
        if fraction = 0 then .infinite negative else .nan
      else if field = 0 then .finite negative fraction f.leastExponent
      else .finite negative (2 ^ f.fractionBits + fraction)
        (f.leastExponent + (field - 1 : Nat)) := by
  have hpos : 0 < 2 ^ f.fractionBits := by positivity
  have hsign : f.signBits negative = (if negative then 2 ^ f.exponentBits else 0) *
      2 ^ f.fractionBits := by
    unfold signBits
    cases negative <;> simp [sign_mask_eq]
  have hbits : f.signBits negative + field * 2 ^ f.fractionBits + fraction =
      fraction + 2 ^ f.fractionBits * ((if negative then 2 ^ f.exponentBits else 0) + field) := by
    rw [hsign]
    ring
  have hmod : (f.signBits negative + field * 2 ^ f.fractionBits + fraction) %
      2 ^ f.fractionBits = fraction := by
    rw [hbits, Nat.add_mul_mod_self_left, Nat.mod_eq_of_lt hfraction]
  have hdiv : (f.signBits negative + field * 2 ^ f.fractionBits + fraction) /
      2 ^ f.fractionBits % 2 ^ f.exponentBits = field := by
    rw [hbits, Nat.add_mul_div_left _ _ hpos, Nat.div_eq_of_lt hfraction, Nat.zero_add]
    cases negative <;> simp [Nat.mod_eq_of_lt hfield]
  have hsize : field * 2 ^ f.fractionBits + fraction < f.signMask := by
    rw [sign_mask_eq]
    calc field * 2 ^ f.fractionBits + fraction
        < (field + 1) * 2 ^ f.fractionBits := by rw [add_one_mul]; omega
      _ ≤ 2 ^ f.exponentBits * 2 ^ f.fractionBits := Nat.mul_le_mul_right _ hfield
  have hnegative : decide (f.signMask ≤
      f.signBits negative + field * 2 ^ f.fractionBits + fraction) = negative := by
    unfold signBits
    cases negative <;> simp <;> omega
  unfold read
  simp only [Nat.pow_eq, hmod, hdiv, hnegative]

/-- Every pattern has a sign, an exponent field and a fraction. -/
theorem exists_fields {bits : Nat} (hbits : bits < 2 * f.signMask) :
    ∃ negative field fraction, field < 2 ^ f.exponentBits ∧ fraction < 2 ^ f.fractionBits ∧
      bits = f.signBits negative + field * 2 ^ f.fractionBits + fraction := by
  have hpos : 0 < 2 ^ f.fractionBits := by positivity
  -- The sign is the highest bit.
  have hsplit : ∃ negative size, size < f.signMask ∧ bits = f.signBits negative + size := by
    by_cases hlt : bits < f.signMask
    · exact ⟨false, bits, hlt, by simp [signBits]⟩
    · exact ⟨true, bits - f.signMask, by omega, by simp [signBits]; omega⟩
  obtain ⟨negative, size, hsize, rfl⟩ := hsplit
  refine ⟨negative, size / 2 ^ f.fractionBits, size % 2 ^ f.fractionBits, ?_,
    Nat.mod_lt _ hpos, ?_⟩
  · rw [Nat.div_lt_iff_lt_mul hpos, ← sign_mask_eq]
    exact hsize
  · rw [add_assoc, Nat.div_add_mod']

namespace Canonical

/-- Above the least exponent a significand has all its bits. -/
theorem full (h : f.Canonical s e) (hlt : f.leastExponent < e) : 2 ^ f.fractionBits ≤ s := by
  by_contra hless
  exact hlt.ne' (h.small (Nat.lt_of_not_le hless))

/-- The leading bit of a canonical significand goes into the exponent field. -/
theorem fields (h : f.Canonical s e) :
    ∃ field fraction, field + 1 < 2 ^ f.exponentBits ∧ fraction < 2 ^ f.fractionBits ∧
      f.pattern s e = field * 2 ^ f.fractionBits + fraction ∧
      (field = 0 ∧ fraction = s ∧ e = f.leastExponent ∨
        field ≠ 0 ∧ 2 ^ f.fractionBits + fraction = s ∧
          e = f.leastExponent + (field - 1 : Nat)) := by
  have hleast := h.least
  have hsize := h.size
  have hfinite : (e - f.leastExponent).toNat + 2 < 2 ^ f.exponentBits := by
    have hcast : ((e - f.leastExponent).toNat : Int) + 2 < (2 ^ f.exponentBits : Nat) := by
      have hlt := h.finite
      push_cast
      omega
    omega
  unfold pattern
  rw [pow_succ] at hsize
  by_cases hs : s < 2 ^ f.fractionBits
  · obtain rfl := h.small hs
    refine ⟨0, s, by omega, hs, by simp, Or.inl ⟨rfl, rfl, rfl⟩⟩
  · refine ⟨(e - f.leastExponent).toNat + 1, s - 2 ^ f.fractionBits, by omega, by omega, ?_,
      Or.inr ⟨by omega, by omega, by omega⟩⟩
    rw [add_one_mul]
    omega

/-- The pattern of a number is read as that number. -/
theorem read_pattern (h : f.Canonical s e) (negative : Bool) :
    f.read (f.signBits negative + f.pattern s e) = .finite negative s e := by
  obtain ⟨field, fraction, hfield, hfraction, hpattern, hparts⟩ := h.fields
  have hspecial : field ≠ f.specialField := by
    unfold specialField
    rw [Nat.pow_eq]
    omega
  rw [hpattern, ← add_assoc, read_fields (by omega) hfraction, if_neg hspecial]
  rcases hparts with ⟨rfl, rfl, rfl⟩ | ⟨hfield, rfl, rfl⟩
  · rw [if_pos rfl]
  · rw [if_neg hfield]

/-- The bits behind the sign leave the sign bit alone. -/
theorem pattern_lt (h : f.Canonical s e) : f.pattern s e < f.signMask := by
  obtain ⟨field, fraction, hfield, hfraction, hpattern, -⟩ := h.fields
  rw [hpattern, sign_mask_eq]
  calc field * 2 ^ f.fractionBits + fraction
      < (field + 1) * 2 ^ f.fractionBits := by rw [add_one_mul]; omega
    _ ≤ 2 ^ f.exponentBits * 2 ^ f.fractionBits := Nat.mul_le_mul_right _ (by omega)

end Canonical

/-- What is read as a finite number is the pattern of a canonical one. -/
theorem pattern_of_read {bits : Nat} {negative : Bool} (hwide : 2 ≤ f.exponentBits)
    (hbits : bits < 2 * f.signMask) (hread : f.read bits = .finite negative s e) :
    f.Canonical s e ∧ bits = f.signBits negative + f.pattern s e := by
  obtain ⟨sign, field, fraction, hfield, hfraction, rfl⟩ := exists_fields hbits
  have hmany : 2 ^ 2 ≤ 2 ^ f.exponentBits := Nat.pow_le_pow_right (by omega) hwide
  rw [read_fields hfield hfraction] at hread
  by_cases hspecial : field = f.specialField
  · rw [if_pos hspecial] at hread
    split at hread <;> cases hread
  rw [if_neg hspecial] at hread
  unfold specialField at hspecial
  rw [Nat.pow_eq] at hspecial
  by_cases hzero : field = 0
  · rw [if_pos hzero] at hread
    cases hread
    refine ⟨⟨le_refl _, ?_, fun _ => rfl, ?_⟩, ?_⟩
    · rw [pow_succ]
      omega
    · have hcast : ((2 ^ 2 : Nat) : Int) ≤ (2 ^ f.exponentBits : Nat) := Int.ofNat_le.2 hmany
      push_cast at hcast
      omega
    · simp [pattern, hzero]
  · rw [if_neg hzero] at hread
    cases hread
    refine ⟨⟨by omega, ?_, fun hlt => ?_, ?_⟩, ?_⟩
    · rw [pow_succ]
      omega
    · omega
    · have hcast : ((field + 1 : Nat) : Int) < (2 ^ f.exponentBits : Nat) :=
        Int.ofNat_lt.2 (by omega)
      push_cast at hcast
      omega
    · have hplaces : (f.leastExponent + (field - 1 : Nat) - f.leastExponent).toNat = field - 1 := by
        omega
      have hfields : (field - 1 + 1) * 2 ^ f.fractionBits = field * 2 ^ f.fractionBits := by
        rw [Nat.sub_add_cancel (by omega)]
      rw [add_one_mul] at hfields
      unfold pattern
      rw [hplaces]
      omega

end Format

end SynthRack
