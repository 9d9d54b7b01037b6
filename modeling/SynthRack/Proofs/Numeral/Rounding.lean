import Mathlib
import SynthRack.Proofs.Numeral.Pattern

/-!
# Rounding to a format

`Format.roundSize` chooses the exponent of the last place and rounds the significand to it. Its
result is said here over the rationals: a number well within the range of the format is rounded to
one that differs by half a last place at most (`round_near`), and a number much nearer to a number
of the format than to any other is rounded to that one (`round_eq_of_near`).
-/

namespace SynthRack

/-! ## Powers of two -/

/-- Powers of two are positive. -/
theorem two_zpow_pos (e : Int) : (0 : Rat) < 2 ^ e := zpow_pos two_pos e

/-- Powers of two grow with their exponents. -/
theorem two_zpow_le {a b : Int} (h : a ≤ b) : (2 : Rat) ^ a ≤ 2 ^ b :=
  zpow_le_zpow_right₀ one_le_two h

/-- Adding exponents multiplies powers of two. -/
theorem two_zpow_add (a b : Int) : (2 : Rat) ^ (a + b) = 2 ^ a * 2 ^ b := zpow_add₀ two_ne_zero a b

/-- The larger power of two has the larger exponent. -/
theorem lt_of_two_zpow_lt {a b : Int} (h : (2 : Rat) ^ a < 2 ^ b) : a < b :=
  (zpow_lt_zpow_iff_right₀ one_lt_two).1 h

/-- A power of two with a natural exponent is a natural number. -/
theorem two_zpow_to_nat {e : Int} (h : 0 ≤ e) : ((2 ^ e.toNat : Nat) : Rat) = 2 ^ e := by
  rw [Nat.cast_pow, ← zpow_natCast, Int.toNat_of_nonneg h]
  rfl

/-- A number with places behind the point, as a quotient. -/
theorem mul_two_zpow_of_nonpos (m : Nat) {e : Int} (h : e ≤ 0) :
    (m : Rat) * 2 ^ e = m / (2 ^ (-e).toNat : Nat) := by
  rw [two_zpow_to_nat (by omega), zpow_neg, div_inv_eq_mul]

/-- A number lies between the power of two of its leading bit and the next. -/
theorem log_bounds {m : Nat} (hm : 0 < m) (e : Int) :
    (2 : Rat) ^ (e + m.log2) ≤ m * 2 ^ e ∧ (m : Rat) * 2 ^ e < 2 ^ (e + m.log2 + 1) := by
  have hlow : ((2 ^ m.log2 : Nat) : Rat) ≤ m := Nat.cast_le.2 (Nat.log2_self_le hm.ne')
  have hhigh : (m : Rat) < (2 ^ (m.log2 + 1) : Nat) := Nat.cast_lt.2 Nat.lt_log2_self
  have hpos := two_zpow_pos e
  have hpower : (2 : Rat) ^ (e + m.log2) = 2 ^ e * 2 ^ m.log2 := by
    rw [two_zpow_add, zpow_natCast]
  push_cast [pow_succ] at hlow hhigh
  constructor
  · rw [hpower]
    nlinarith
  · rw [two_zpow_add, hpower, zpow_one]
    nlinarith

/-- The leading bit of a number below a power of two stands below it. -/
theorem lead_lt {m : Nat} {e bound : Int} (hm : 0 < m) (h : (m : Rat) * 2 ^ e < 2 ^ bound) :
    e + m.log2 < bound := lt_of_two_zpow_lt ((log_bounds hm e).1.trans_lt h)

/-- The leading bit of a number that reaches a power of two stands there or above. -/
theorem le_lead {m : Nat} {e bound : Int} (hm : 0 < m) (h : 2 ^ bound ≤ (m : Rat) * 2 ^ e) :
    bound ≤ e + m.log2 := Int.lt_add_one_iff.1 (lt_of_two_zpow_lt (h.trans_lt (log_bounds hm e).2))

/-! ## Relative errors -/

/-- `x` is off `y` by the part `2 ^ -bits` of `y` at most. -/
def Near (x y : Rat) (bits : Nat) : Prop := |x - y| ≤ y / 2 ^ bits

namespace Near

variable {x y z w : Rat} {bits fewer : Nat}

/-- What is near by many bits is near by fewer. -/
theorem mono (h : Near x y bits) (hy : 0 ≤ y) (hle : fewer ≤ bits) : Near x y fewer :=
  le_trans h (div_le_div_of_nonneg_left hy (by positivity)
    (pow_le_pow_right₀ one_le_two hle))

/-- A number near a positive one is between its half and its double. -/
theorem bounds (h : Near x y (bits + 1)) (hy : 0 < y) : y / 2 ≤ x ∧ x ≤ 2 * y := by
  obtain ⟨hlow, hhigh⟩ := abs_le.1 (h.mono hy.le (Nat.le_add_left 1 bits))
  rw [pow_one] at hlow hhigh
  constructor <;> linarith

/-- Two errors in a row add up, and a bit is lost. -/
theorem trans (h : Near x y (bits + 2)) (h' : Near y z (bits + 1)) (hz : 0 < z) :
    Near x z bits := by
  obtain ⟨-, hy⟩ := h'.bounds hz
  have hpow : (0 : Rat) < 2 ^ bits := by positivity
  have hfirst : |x - y| ≤ z / 2 ^ bits / 2 := by
    refine le_trans h ?_
    rw [div_div, div_le_div_iff₀ (by positivity) (by positivity), pow_add]
    nlinarith
  have hsecond : |y - z| ≤ z / 2 ^ bits / 2 := by
    rw [div_div, ← pow_succ]
    exact h'
  calc |x - z| ≤ |x - y| + |y - z| := abs_sub_le x y z
    _ ≤ z / 2 ^ bits := by linarith

/-- A common factor changes no relative error. -/
theorem mul_right (h : Near x y bits) (hz : 0 ≤ z) : Near (x * z) (y * z) bits := by
  unfold Near
  rw [← sub_mul, abs_mul, abs_of_nonneg hz, mul_div_right_comm]
  exact mul_le_mul_of_nonneg_right h hz

/-- The relative errors of two factors add up, and a bit is lost. -/
theorem mul (h : Near x y (bits + 2)) (h' : Near z w (bits + 1)) (hy : 0 < y) (hw : 0 < w) :
    Near (x * z) (y * w) bits := by
  obtain ⟨hzlow, hzhigh⟩ := h'.bounds hw
  have hz : 0 < z := lt_of_lt_of_le (half_pos hw) hzlow
  have hsecond : Near (y * z) (y * w) (bits + 1) := by
    rw [mul_comm y, mul_comm y]
    exact h'.mul_right hy.le
  exact (h.mul_right hz.le).trans hsecond (mul_pos hy hw)

/-- Inverting keeps a relative error but for a bit. -/
theorem inv (h : Near x y (bits + 1)) (hy : 0 < y) : Near x⁻¹ y⁻¹ bits := by
  obtain ⟨hlow, -⟩ := h.bounds hy
  have hx : 0 < x := lt_of_lt_of_le (half_pos hy) hlow
  have hpow : (0 : Rat) < 2 ^ bits := by positivity
  unfold Near
  rw [inv_sub_inv hx.ne' hy.ne', abs_div, abs_of_pos (mul_pos hx hy), abs_sub_comm,
    div_le_iff₀ (mul_pos hx hy)]
  refine le_trans h ?_
  rw [inv_eq_one_div, div_div, div_mul_eq_mul_div, one_mul, div_le_div_iff₀ (by positivity)
    (by positivity), pow_succ]
  nlinarith [mul_pos hy hpow]

end Near

namespace Format

variable {f : Format}

/-! ## Rounding a significand -/

/-- Rounding is off by half a place at most. -/
theorem round_shift_bounds (n places : Nat) :
    2 * (roundShift n places * 2 ^ places) ≤ 2 * n + 2 ^ places ∧
      2 * n ≤ 2 * (roundShift n places * 2 ^ places) + 2 ^ places := by
  have hsplit := Nat.div_add_mod' n (2 ^ places)
  have hrest := Nat.mod_lt n (Nat.two_pow_pos places)
  unfold roundShift
  simp only [Nat.pow_eq]
  generalize n / 2 ^ places = quotient at hsplit ⊢
  generalize n % 2 ^ places = rest at hsplit hrest ⊢
  by_cases hlow : 2 * rest < 2 ^ places
  · rw [if_pos hlow]
    omega
  by_cases hhigh : 2 ^ places < 2 * rest
  · rw [if_neg hlow, if_pos hhigh, add_one_mul]
    omega
  · rw [if_neg hlow, if_neg hhigh, add_mul]
    rcases Nat.mod_two_eq_zero_or_one quotient with hparity | hparity <;> rw [hparity] <;> omega

/-- What is nearer to a number of places than half a place is rounded to it. -/
theorem round_shift_eq {n places target : Nat}
    (hlow : 2 * (target * 2 ^ places) < 2 * n + 2 ^ places)
    (hhigh : 2 * n < 2 * (target * 2 ^ places) + 2 ^ places) : roundShift n places = target := by
  obtain ⟨hle, hge⟩ := round_shift_bounds n places
  have hpos : 0 < 2 ^ places := Nat.two_pow_pos places
  by_contra hne
  rcases Nat.lt_or_gt_of_ne hne with hlt | hgt
  · have hstep : (roundShift n places + 1) * 2 ^ places ≤ target * 2 ^ places :=
      Nat.mul_le_mul_right _ hlt
    rw [add_one_mul] at hstep
    omega
  · have hstep : (target + 1) * 2 ^ places ≤ roundShift n places * 2 ^ places :=
      Nat.mul_le_mul_right _ hgt
    rw [add_one_mul] at hstep
    omega

/-! ## Rounding a number -/

/-- The exponent of the last place that a number is rounded to. -/
def lastPlace (f : Format) (m : Nat) (e : Int) : Int :=
  max f.leastExponent (e + m.log2 - f.fractionBits)

/-- The significand that a number is rounded to at its last place. -/
def scaled (f : Format) (m : Nat) (e : Int) : Nat :=
  if f.lastPlace m e ≤ e then m * 2 ^ (e - f.lastPlace m e).toNat
  else roundShift m (f.lastPlace m e - e).toNat

/-- The pattern of a rounded number is its last place and its significand, at most infinity. -/
theorem round_size_eq {m : Nat} (hm : 0 < m) (e : Int) :
    f.roundSize m e = min f.infinity
      ((f.lastPlace m e - f.leastExponent).toNat * 2 ^ f.fractionBits + f.scaled m e) := by
  unfold roundSize
  rw [if_neg hm.ne']
  rfl

/-- Where no rounding is needed, the significand keeps the number. -/
theorem scaled_exact {m : Nat} {e : Int} (h : f.lastPlace m e ≤ e) :
    (f.scaled m e : Rat) * 2 ^ f.lastPlace m e = m * 2 ^ e := by
  unfold scaled
  rw [if_pos h, Nat.cast_mul, two_zpow_to_nat (by omega), mul_assoc, ← two_zpow_add,
    sub_add_cancel]

/-- Where the last place is higher, the significand is rounded by the places between. -/
theorem scaled_rounded {m : Nat} {e : Int} (h : ¬f.lastPlace m e ≤ e) :
    ∃ places : Nat, f.scaled m e = roundShift m places ∧
      (2 : Rat) ^ f.lastPlace m e = (2 ^ places : Nat) * 2 ^ e := by
  refine ⟨(f.lastPlace m e - e).toNat, if_neg h, ?_⟩
  rw [two_zpow_to_nat (by omega), ← two_zpow_add, sub_add_cancel]

/-- Rounding to the last place is off by half of it at most. -/
theorem scaled_near (m : Nat) (e : Int) :
    |(f.scaled m e : Rat) * 2 ^ f.lastPlace m e - m * 2 ^ e| ≤ 2 ^ f.lastPlace m e / 2 := by
  by_cases h : f.lastPlace m e ≤ e
  · rw [scaled_exact h, sub_self, abs_zero]
    exact (half_pos (two_zpow_pos _)).le
  · obtain ⟨places, hscaled, hpower⟩ := scaled_rounded h
    obtain ⟨hle, hge⟩ := round_shift_bounds m places
    rw [← hscaled] at hle hge
    have hpos := two_zpow_pos e
    have hle : 2 * ((f.scaled m e : Rat) * (2 ^ places : Nat)) ≤ 2 * m + (2 ^ places : Nat) := by
      exact_mod_cast hle
    have hge : 2 * (m : Rat) ≤ 2 * (f.scaled m e * (2 ^ places : Nat)) + (2 ^ places : Nat) := by
      exact_mod_cast hge
    rw [hpower, abs_le]
    generalize ((2 ^ places : Nat) : Rat) = unit at hle hge ⊢
    constructor <;> nlinarith

/-- The only number of places within half a place is the one that is rounded to. -/
theorem scaled_eq {m target : Nat} {e : Int}
    (h : |(m : Rat) * 2 ^ e - target * 2 ^ f.lastPlace m e| < 2 ^ f.lastPlace m e / 2) :
    f.scaled m e = target := by
  by_cases hlast : f.lastPlace m e ≤ e
  · rw [← scaled_exact hlast, ← sub_mul, abs_mul, abs_of_pos (two_zpow_pos _)] at h
    have hpos := two_zpow_pos (f.lastPlace m e)
    have hclose : |(f.scaled m e : Rat) - target| < 1 := by nlinarith
    rw [← Int.cast_natCast, ← Int.cast_natCast (n := target), ← Int.cast_sub, ← Int.cast_abs,
      ← Int.cast_one, Int.cast_lt, Int.abs_lt_one_iff] at hclose
    omega
  · obtain ⟨places, hscaled, hpower⟩ := scaled_rounded hlast
    have hpos := two_zpow_pos e
    rw [hpower, abs_lt] at h
    obtain ⟨hlow, hhigh⟩ := h
    rw [hscaled]
    refine round_shift_eq ?_ ?_
    · have hcast : 2 * ((target : Rat) * (2 ^ places : Nat)) < 2 * m + (2 ^ places : Nat) := by
        generalize ((2 ^ places : Nat) : Rat) = unit at hlow hhigh ⊢
        nlinarith
      exact_mod_cast hcast
    · have hcast : 2 * (m : Rat) < 2 * (target * (2 ^ places : Nat)) + (2 ^ places : Nat) := by
        generalize ((2 ^ places : Nat) : Rat) = unit at hlow hhigh ⊢
        nlinarith
      exact_mod_cast hcast

/-- No pattern of a finite number reaches infinity. -/
theorem Canonical.pattern_lt_infinity {s : Nat} {e : Int} (h : f.Canonical s e) :
    f.pattern s e < f.infinity := by
  obtain ⟨field, fraction, hfield, hfraction, hpattern, -⟩ := h.fields
  have hspecial : field + 1 ≤ f.specialField := by
    unfold specialField
    rw [Nat.pow_eq]
    omega
  have hnext : (field + 1) * 2 ^ f.fractionBits ≤ f.infinity := Nat.mul_le_mul_right _ hspecial
  rw [add_one_mul] at hnext
  omega

/-- Of two numbers of a format, the one with the higher last place is larger. -/
theorem Canonical.lt_of_exponent_lt {s t : Nat} {e d : Int} (h : f.Canonical s e)
    (h' : f.Canonical t d) (hlt : e < d) : (s : Rat) * 2 ^ e < t * 2 ^ d := by
  have hfull : 2 ^ f.fractionBits ≤ t := h'.full (h.least.trans_lt hlt)
  have hbelow : (s : Rat) < 2 ^ f.fractionBits * 2 := by exact_mod_cast h.size
  have habove : (2 : Rat) ^ f.fractionBits ≤ t := by exact_mod_cast hfull
  calc (s : Rat) * 2 ^ e < 2 ^ f.fractionBits * 2 * 2 ^ e :=
        mul_lt_mul_of_pos_right hbelow (two_zpow_pos e)
    _ = 2 ^ f.fractionBits * 2 ^ (e + 1) := by
        rw [two_zpow_add, zpow_one]
        ring
    _ ≤ t * 2 ^ d := mul_le_mul habove (two_zpow_le (by omega)) (two_zpow_pos _).le (by positivity)

/-- Numbers of a format are ordered by their last places, then by their significands. -/
theorem Canonical.compare_eq_lt_iff {s t : Nat} {e d : Int} (h : f.Canonical s e)
    (h' : f.Canonical t d) :
    (compare e d).then (compare s t) = .lt ↔ (s : Rat) * 2 ^ e < t * 2 ^ d := by
  rw [Ordering.then_eq_lt, Int.compare_eq_lt, Int.compare_eq_eq, Nat.compare_eq_lt]
  rcases lt_trichotomy e d with hlt | rfl | hgt
  · simp [hlt, h.lt_of_exponent_lt h' hlt]
  · simp [two_zpow_pos]
  · simp [hgt.ne', hgt.le.not_gt, (h'.lt_of_exponent_lt h hgt).le.not_gt]

/-- Patterns are in the order of the numbers they stand for. -/
theorem Canonical.le_of_pattern_le {s t : Nat} {e d : Int} (h : f.Canonical s e)
    (h' : f.Canonical t d) (hle : f.pattern s e ≤ f.pattern t d) :
    (s : Rat) * 2 ^ e ≤ t * 2 ^ d := by
  rcases lt_trichotomy e d with hlt | rfl | hgt
  · exact (h.lt_of_exponent_lt h' hlt).le
  · exact mul_le_mul_of_nonneg_right (Nat.cast_le.2 (Nat.le_of_add_le_add_left hle))
      (two_zpow_pos e).le
  · -- A higher last place makes the larger pattern.
    exfalso
    have hleast := h'.least
    have hsize := h'.size
    have hfull : 2 ^ f.fractionBits ≤ s := h.full (hleast.trans_lt hgt)
    have hplaces : ((d - f.leastExponent).toNat + 1) * 2 ^ f.fractionBits ≤
        (e - f.leastExponent).toNat * 2 ^ f.fractionBits := Nat.mul_le_mul_right _ (by omega)
    unfold pattern at hle
    rw [pow_succ] at hsize
    rw [add_one_mul] at hplaces
    omega

/-- A significand of all places and one more is that of the next exponent. -/
theorem pattern_carry {e : Int} (h : f.leastExponent ≤ e) :
    (e - f.leastExponent).toNat * 2 ^ f.fractionBits + 2 ^ (f.fractionBits + 1) =
      f.pattern (2 ^ f.fractionBits) (e + 1) := by
  have hplaces : (e + 1 - f.leastExponent).toNat = (e - f.leastExponent).toNat + 1 := by omega
  unfold pattern
  rw [hplaces, pow_succ]
  ring

/-- A number that is neither too small for all the bits of the format nor too large for it. -/
structure InRange (f : Format) (v : Rat) : Prop where
  low : (2 : Rat) ^ (f.leastExponent + f.fractionBits) ≤ v
  high : v < 2 ^ (f.leastExponent + f.fractionBits + 2 ^ f.exponentBits - 3)

/-- Rounding gives one bit too many at most, and then no others. -/
theorem scaled_le {m : Nat} (hm : 0 < m) (e : Int) : f.scaled m e ≤ 2 ^ (f.fractionBits + 1) := by
  obtain ⟨-, hnext⟩ := log_bounds hm e
  obtain ⟨-, hge⟩ := abs_le.1 (scaled_near (f := f) m e)
  have hpos := two_zpow_pos (f.lastPlace m e)
  have hunit : (2 : Rat) ^ (e + m.log2 + 1) ≤ 2 ^ (f.fractionBits + 1) * 2 ^ f.lastPlace m e := by
    rw [← zpow_natCast, ← two_zpow_add]
    refine two_zpow_le ?_
    unfold lastPlace
    push_cast
    omega
  have hcast : (f.scaled m e : Rat) < (2 ^ (f.fractionBits + 1) : Nat) + 1 := by
    push_cast
    nlinarith
  exact Nat.lt_succ_iff.1 (by exact_mod_cast hcast)

/-- Unless the last place is kept from falling, rounding gives all the bits. -/
theorem le_scaled {m : Nat} (hm : 0 < m) {e : Int}
    (hlast : f.lastPlace m e = e + m.log2 - f.fractionBits) : 2 ^ f.fractionBits ≤ f.scaled m e := by
  obtain ⟨hbinade, -⟩ := log_bounds hm e
  obtain ⟨hle, -⟩ := abs_le.1 (scaled_near (f := f) m e)
  have hpos := two_zpow_pos (f.lastPlace m e)
  have hunit : (2 : Rat) ^ (e + m.log2) = 2 ^ f.fractionBits * 2 ^ f.lastPlace m e := by
    rw [hlast, ← zpow_natCast, ← two_zpow_add]
    congr 1
    omega
  rw [hunit] at hbinade
  have hcast : ((2 ^ f.fractionBits : Nat) : Rat) < f.scaled m e + 1 := by
    push_cast
    nlinarith
  exact Nat.lt_succ_iff.1 (by exact_mod_cast hcast)

/-- A significand short of bits has its last place at the least exponent. -/
theorem last_place_of_scaled_lt {m : Nat} {e : Int} (hm : 0 < m)
    (h : f.scaled m e < 2 ^ f.fractionBits) : f.lastPlace m e = f.leastExponent := by
  by_contra hne
  refine absurd h (Nat.not_lt.2 (le_scaled hm ?_))
  unfold lastPlace at hne ⊢
  omega

/-- A number in range is rounded to all the bits of the format, or to the first significand that
has one more. -/
theorem scaled_fits {m : Nat} {e : Int} (hm : 0 < m) (h : f.InRange (m * 2 ^ e)) :
    (f.lastPlace m e = e + m.log2 - f.fractionBits ∧ f.leastExponent ≤ f.lastPlace m e ∧
        f.lastPlace m e - f.leastExponent + 3 < 2 ^ f.exponentBits) ∧
      2 ^ f.fractionBits ≤ f.scaled m e ∧ f.scaled m e ≤ 2 ^ (f.fractionBits + 1) := by
  have hleast := le_lead hm h.low
  have hgreatest := lead_lt hm h.high
  have hlast : f.lastPlace m e = e + m.log2 - f.fractionBits := by
    unfold lastPlace
    omega
  exact ⟨⟨hlast, by omega, by omega⟩, le_scaled hm hlast, scaled_le hm e⟩

/-- Rounding keeps the order of numbers: of two in the same binade the half places keep them apart,
and else the carry of the smaller one stays below the leading bit of the larger one. -/
theorem round_size_mono {m n : Nat} {e d : Int} (hm : 0 < m) (hn : 0 < n)
    (h : (m : Rat) * 2 ^ e < n * 2 ^ d) : f.roundSize m e ≤ f.roundSize n d := by
  have hlog : e + m.log2 < d + n.log2 + 1 := lead_lt hm (h.trans (log_bounds hn d).2)
  have hlast : f.lastPlace m e ≤ f.lastPlace n d := by
    unfold lastPlace
    omega
  rw [round_size_eq hm, round_size_eq hn]
  refine min_le_min_left _ ?_
  rcases hlast.eq_or_lt with hsame | hbelow
  · have hpos := two_zpow_pos (f.lastPlace n d)
    obtain ⟨-, habove⟩ := abs_le.1 (scaled_near (f := f) m e)
    obtain ⟨hunder, -⟩ := abs_le.1 (scaled_near (f := f) n d)
    rw [hsame] at habove ⊢
    have hcast : (f.scaled m e : Rat) < f.scaled n d + 1 := by nlinarith
    have hscaled : f.scaled m e ≤ f.scaled n d := Nat.lt_succ_iff.1 (by exact_mod_cast hcast)
    omega
  · have hleast : f.leastExponent ≤ f.lastPlace m e := le_max_left ..
    have hplace : f.lastPlace n d = d + n.log2 - f.fractionBits := by
      unfold lastPlace at hbelow hleast ⊢
      omega
    have hplaces : (f.lastPlace m e - f.leastExponent).toNat + 1 ≤
        (f.lastPlace n d - f.leastExponent).toNat := by omega
    calc (f.lastPlace m e - f.leastExponent).toNat * 2 ^ f.fractionBits + f.scaled m e
        ≤ (f.lastPlace m e - f.leastExponent).toNat * 2 ^ f.fractionBits +
            2 ^ (f.fractionBits + 1) := Nat.add_le_add_left (scaled_le hm e) _
      _ = ((f.lastPlace m e - f.leastExponent).toNat + 1) * 2 ^ f.fractionBits +
            2 ^ f.fractionBits := by ring
      _ ≤ (f.lastPlace n d - f.leastExponent).toNat * 2 ^ f.fractionBits + f.scaled n d :=
        Nat.add_le_add (Nat.mul_le_mul_right _ hplaces) (le_scaled hn hplace)

/-- A number in range is rounded to a number of the format with all its bits, off by half a last
place at most. -/
theorem round_near {m : Nat} {e : Int} (hm : 0 < m) (h : f.InRange (m * 2 ^ e)) :
    ∃ s last, f.Canonical s last ∧ 2 ^ f.fractionBits ≤ s ∧ f.roundSize m e = f.pattern s last ∧
      Near (s * 2 ^ last) (m * 2 ^ e) (f.fractionBits + 1) := by
  obtain ⟨⟨hlast, hleast, hgreatest⟩, hlarge, hsmall⟩ := scaled_fits hm h
  have hbound : Near (f.scaled m e * 2 ^ f.lastPlace m e) (m * 2 ^ e) (f.fractionBits + 1) := by
    have hbinade : 2 ^ f.fractionBits * 2 ^ f.lastPlace m e ≤ (m : Rat) * 2 ^ e := by
      have hunit : (2 : Rat) ^ (e + m.log2) = 2 ^ f.fractionBits * 2 ^ f.lastPlace m e := by
        rw [hlast, ← zpow_natCast, ← two_zpow_add]
        congr 1
        omega
      rw [← hunit]
      exact (log_bounds hm e).1
    refine (scaled_near m e).trans ?_
    rw [le_div_iff₀ (by positivity), pow_succ]
    linarith
  rw [round_size_eq hm]
  rcases Nat.lt_or_eq_of_le hsmall with hlt | heq
  · have hcanonical : f.Canonical (f.scaled m e) (f.lastPlace m e) :=
      ⟨by omega, hlt, by omega, by omega⟩
    exact ⟨_, _, hcanonical, hlarge, min_eq_right hcanonical.pattern_lt_infinity.le, hbound⟩
  · have hcanonical : f.Canonical (2 ^ f.fractionBits) (f.lastPlace m e + 1) :=
      ⟨by omega, Nat.pow_lt_pow_right (by omega) (by omega), by omega, by omega⟩
    refine ⟨_, _, hcanonical, le_refl _, ?_, ?_⟩
    · rw [heq, pattern_carry (by omega)]
      exact min_eq_right hcanonical.pattern_lt_infinity.le
    · have hvalue : ((2 ^ f.fractionBits : Nat) : Rat) * 2 ^ (f.lastPlace m e + 1) =
          f.scaled m e * 2 ^ f.lastPlace m e := by
        rw [heq, two_zpow_add]
        push_cast
        ring
      rw [hvalue]
      exact hbound

/-- A number below the reach of a last place is rounded to that place or a lower one. -/
theorem last_place_le {m : Nat} {e last : Int} (hm : 0 < m) (hleast : f.leastExponent ≤ last)
    (h : (m : Rat) * 2 ^ e < 2 ^ f.fractionBits * 2 ^ (last + 1)) : f.lastPlace m e ≤ last := by
  rw [← zpow_natCast, ← two_zpow_add] at h
  have hlead := lead_lt hm h
  unfold lastPlace
  omega

/-- A number that fills the significand at a last place is rounded to that place or a higher one. -/
theorem le_last_place {m : Nat} {e last : Int} (hm : 0 < m)
    (h : 2 ^ f.fractionBits * 2 ^ last ≤ (m : Rat) * 2 ^ e) : last ≤ f.lastPlace m e := by
  rw [← zpow_natCast, ← two_zpow_add] at h
  have hlead := le_lead hm h
  unfold lastPlace
  omega

/-- Near a number of the format, the last place is that number's, or the one below where the
places are finer. -/
theorem last_place_of_near {m s : Nat} {e last : Int} (hm : 0 < m) (h : f.Canonical s last)
    (hnear : |(m : Rat) * 2 ^ e - s * 2 ^ last| < 2 ^ last / 4) :
    f.lastPlace m e = last ∨ f.lastPlace m e + 1 = last ∧ s = 2 ^ f.fractionBits := by
  obtain ⟨hlow, hhigh⟩ := abs_lt.1 hnear
  have hpos := two_zpow_pos last
  have hone : (1 : Rat) ≤ 2 ^ f.fractionBits := one_le_pow₀ one_le_two
  have habove : f.lastPlace m e ≤ last := by
    have hsize : (s : Rat) + 1 ≤ 2 ^ f.fractionBits * 2 := by exact_mod_cast h.size
    refine last_place_le hm h.least ?_
    rw [two_zpow_add, zpow_one]
    nlinarith
  -- At the least exponent the last place can fall no further.
  rcases h.least.eq_or_lt with hend | hgt
  · exact Or.inl (habove.antisymm (hend ▸ le_max_left ..))
  by_cases hs : s = 2 ^ f.fractionBits
  · have hbelow : last - 1 ≤ f.lastPlace m e := by
      have hcast : (s : Rat) = 2 ^ f.fractionBits := by exact_mod_cast hs
      refine le_last_place hm ?_
      rw [zpow_sub_one₀ two_ne_zero]
      rw [hcast] at hlow
      nlinarith
    omega
  -- A larger significand has its leading bit in the number as well.
  · have hmore : (2 : Rat) ^ f.fractionBits + 1 ≤ s := by
      exact_mod_cast Nat.lt_of_le_of_ne (h.full hgt) (Ne.symm hs)
    have hbelow : last ≤ f.lastPlace m e := by
      refine le_last_place hm ?_
      nlinarith
    exact Or.inl (habove.antisymm hbelow)

/-- What is much nearer to a number of the format than to any other is rounded to it. -/
theorem round_eq_of_near {m s : Nat} {e last : Int} (hm : 0 < m) (h : f.Canonical s last)
    (hnear : |(m : Rat) * 2 ^ e - s * 2 ^ last| < 2 ^ last / 4) :
    f.roundSize m e = f.pattern s last := by
  have hpos := two_zpow_pos last
  have hfits := min_eq_right h.pattern_lt_infinity.le
  rw [round_size_eq hm]
  rcases last_place_of_near hm h hnear with hlast | ⟨hlast, hs⟩
  -- Either the places are those of the number, or twice as fine below a power of two.
  · have hscaled : f.scaled m e = s := by
      refine scaled_eq ?_
      rw [hlast]
      linarith
    rw [hscaled, hlast]
    exact hfits
  · have hhalf : (2 : Rat) ^ last = 2 * 2 ^ f.lastPlace m e := by
      rw [← hlast, two_zpow_add, zpow_one, mul_comm]
    have hscaled : f.scaled m e = 2 ^ (f.fractionBits + 1) := by
      refine scaled_eq ?_
      rw [hhalf, hs] at hnear
      push_cast at hnear ⊢
      rw [pow_succ]
      calc |(m : Rat) * 2 ^ e - 2 ^ f.fractionBits * 2 * 2 ^ f.lastPlace m e|
          = |(m : Rat) * 2 ^ e - 2 ^ f.fractionBits * (2 * 2 ^ f.lastPlace m e)| := by
            rw [mul_assoc]
        _ < 2 * 2 ^ f.lastPlace m e / 4 := hnear
        _ = 2 ^ f.lastPlace m e / 2 := by ring
    have hleast : f.leastExponent ≤ f.lastPlace m e := le_max_left ..
    rw [hscaled, pattern_carry hleast, hlast, ← hs]
    exact hfits

/-- A number of the format is rounded to its own pattern. -/
theorem round_of_eq {m s : Nat} {e last : Int} (hm : 0 < m) (h : f.Canonical s last)
    (heq : (m : Rat) * 2 ^ e = s * 2 ^ last) : f.roundSize m e = f.pattern s last := by
  refine round_eq_of_near hm h ?_
  rw [heq, sub_self, abs_zero]
  exact div_pos (two_zpow_pos last) four_pos

/-- Rounding does not get below a number of the format. -/
theorem pattern_le_round {m s : Nat} {e last : Int} (hs : 0 < s) (h : f.Canonical s last)
    (hm : 0 < m) (hle : (s : Rat) * 2 ^ last ≤ m * 2 ^ e) : f.pattern s last ≤ f.roundSize m e := by
  rcases hle.lt_or_eq with hlt | heq
  · rw [← round_of_eq hs h rfl]
    exact round_size_mono hs hm hlt
  · exact (round_of_eq hm h heq.symm).ge

/-- Rounding does not get above a number of the format. -/
theorem round_le_pattern {m s : Nat} {e last : Int} (hm : 0 < m) (hs : 0 < s)
    (h : f.Canonical s last) (hle : (m : Rat) * 2 ^ e ≤ s * 2 ^ last) :
    f.roundSize m e ≤ f.pattern s last := by
  rcases hle.lt_or_eq with hlt | heq
  · rw [← round_of_eq hs h rfl]
    exact round_size_mono hm hs hlt
  · exact (round_of_eq hm h heq).le

end Format

end SynthRack
