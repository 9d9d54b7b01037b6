import Mathlib
import SynthRack.Proofs.Numeral.Rounding

/-!
# Arithmetic of the built-in numbers

The built-in floating-point types have a model of their own, which packs and unpacks bit vectors
and rounds with a round bit and a sticky bit. Here it is led back to `Format`: a bit vector is
unpacked to what `Format.read` says (`read_unpack`), and its rounding packs the pattern that
`Format.round` finds (`pack_round_with_accuracy`).
-/

namespace SynthRack

open Float.Model (UnpackedFloat)
open Float.Model.UnpackedFloat

namespace Format

/-- The format that a built-in format describes. -/
def ofSpec (spec : Float.Model.Format) : Format :=
  ⟨spec.mantissaBitsWithoutImplicit, spec.exponentBits⟩

/-- Whether a sign is the negative one. -/
def isNegative : Sign → Bool
  | .negative => true
  | .positive => false

/-- What an unpacked number stands for. -/
def unpackedReading (f : Format) : UnpackedFloat → Reading
  | .notANumber => .nan
  | .infinity sign => .infinite (isNegative sign)
  | .zero sign => .finite (isNegative sign) 0 f.leastExponent
  | .finite sign m e _ => .finite (isNegative sign) m e

variable {spec : Float.Model.Format}

/-! ## Packing -/

/-- Bits in front count by the power of two that the bits behind them leave. -/
theorem to_nat_append {w v : Nat} (x : BitVec w) (y : BitVec v) :
    (x ++ y).toNat = x.toNat * 2 ^ v + y.toNat := by
  rw [BitVec.toNat_append, ← Nat.shiftLeft_add_eq_or_of_lt y.isLt, Nat.shiftLeft_eq]

/-- The parts of a bit pattern stand side by side: sign, exponent and fraction. -/
theorem to_nat_pack_components (sign : Sign) (exponent : BitVec spec.exponentBits)
    (mantissa : BitVec spec.mantissaBitsWithoutImplicit) :
    (packComponents spec sign exponent mantissa).toNat = (ofSpec spec).signBits (isNegative sign) +
      exponent.toNat * 2 ^ (ofSpec spec).fractionBits + mantissa.toNat := by
  have hsign : sign.toBitVec.toNat * 2 ^ spec.exponentBits * 2 ^ (ofSpec spec).fractionBits =
      (ofSpec spec).signBits (isNegative sign) := by
    unfold signBits
    rw [sign_mask_eq]
    cases sign <;> simp [Sign.toBitVec, isNegative, ofSpec]
  unfold packComponents
  rw [to_nat_append, to_nat_append, add_mul, ← hsign]
  rfl

/-- The least exponent is that of a number whose exponent field is one. -/
theorem least_exponent_of_spec (spec : Float.Model.Format) :
    (ofSpec spec).leastExponent =
      1 - ((spec.exponentBias : Int) + spec.mantissaBitsWithoutImplicit) := by
  have hpos : 1 ≤ 2 ^ (spec.exponentBits - 1) := Nat.one_le_two_pow
  unfold leastExponent Float.Model.Format.exponentBias ofSpec
  rw [Nat.pow_eq]
  dsimp only
  generalize 2 ^ (spec.exponentBits - 1) = power at hpos ⊢
  omega

/-- A bit vector is unpacked to what its pattern stands for. -/
theorem read_unpack (bits : BitVec spec.numBits) :
    (ofSpec spec).read bits.toNat = unpackedReading (ofSpec spec) (unpack spec bits) := by
  have hparts := packComponents_unpackSign_unpackExponent_unpackMantissa bits
  have hpattern := to_nat_pack_components (Sign.ofBitVec (unpackSign bits)) (unpackExponent bits)
    (unpackMantissa bits)
  rw [hparts] at hpattern
  rw [hpattern, read_fields (unpackExponent bits).isLt (unpackMantissa bits).isLt]
  have hspecial : unpackExponent bits = -1#_ ↔
      (unpackExponent bits).toNat = (ofSpec spec).specialField := by
    rw [← BitVec.toNat_inj, BitVec.neg_one_eq_allOnes, BitVec.toNat_allOnes]
    rfl
  have hzero : unpackExponent bits = 0#_ ↔ (unpackExponent bits).toNat = 0 := by
    rw [← BitVec.toNat_inj, BitVec.toNat_ofNat, Nat.zero_mod]
  have hfraction : unpackMantissa bits = 0#_ ↔ (unpackMantissa bits).toNat = 0 := by
    rw [← BitVec.toNat_inj, BitVec.toNat_ofNat, Nat.zero_mod]
  have hleast := least_exponent_of_spec spec
  unfold unpack
  dsimp only
  by_cases hs : unpackExponent bits = -1#_
  · rw [if_pos hs, if_pos (hspecial.1 hs)]
    by_cases hf : unpackMantissa bits = 0#_
    · rw [if_pos hf, if_pos (hfraction.1 hf)]
      rfl
    · rw [if_neg hf, if_neg (mt hfraction.2 hf)]
      rfl
  rw [if_neg hs, if_neg (mt hspecial.2 hs)]
  by_cases hz : unpackExponent bits = 0#_
  · rw [if_pos hz, if_pos (hzero.1 hz)]
    by_cases hf : unpackMantissa bits = 0#_
    · rw [dif_pos hf, hfraction.1 hf]
      rfl
    · rw [dif_neg hf, unpackedReading, hleast, hzero.1 hz]
      congr 1
      omega
  · have hpos : (unpackExponent bits).toNat ≠ 0 := mt hzero.2 hz
    rw [if_neg hz, if_neg hpos, unpackedReading, to_nat_append, hleast]
    congr 1
    · simp [ofSpec]
    · omega

/-- Packing loses nothing of what was unpacked. -/
theorem unpack_pack_unpack (hwide : 2 ≤ spec.exponentBits) (bits : BitVec spec.numBits) :
    unpack spec (pack spec (unpack spec bits)) = unpack spec bits := by
  rw [pack_unpack bits hwide]
  by_cases hnan : isNaNBits bits = true
  · rw [if_pos hnan, unpack_packedNaN]
    simp only [isNaNBits, decide_eq_true_eq] at hnan
    simp [unpack, hnan]
  · rw [if_neg hnan]

/-- The sign, the exponent and the significand of a canonical number pack to its pattern. -/
theorem to_nat_pack_finite {sign : Sign} {m : Nat} {e : Int} (hm : 0 < m)
    (h : (ofSpec spec).Canonical m e) :
    (pack spec (.finite sign m e hm)).toNat =
      (ofSpec spec).signBits (isNegative sign) + (ofSpec spec).pattern m e := by
  have hleast := least_exponent_of_spec spec
  have hbelow := h.least
  have hfinite : (e - (ofSpec spec).leastExponent).toNat + 2 < 2 ^ spec.exponentBits := by
    have hcast : ((e - (ofSpec spec).leastExponent).toNat : Int) + 2 <
        (2 ^ spec.exponentBits : Nat) := by
      have hlt : e - (ofSpec spec).leastExponent + 2 < 2 ^ spec.exponentBits := h.finite
      push_cast
      omega
    omega
  have hbiased : (e + spec.exponentBias + spec.mantissaBitsWithoutImplicit).toNat =
      (e - (ofSpec spec).leastExponent).toNat + 1 := by omega
  have hsize : m < 2 ^ (spec.mantissaBitsWithoutImplicit + 1) := h.size
  have hbits : m.log2 < spec.mantissaBitsWithoutImplicit + 1 := (Nat.log2_lt hm.ne').2 hsize
  have hfull : m.log2 + 1 = spec.mantissaBits ↔ 2 ^ spec.mantissaBitsWithoutImplicit ≤ m := by
    rw [← Nat.le_log2 hm.ne']
    unfold Float.Model.Format.mantissaBits
    omega
  unfold pack pattern
  dsimp only
  rw [hbiased, if_neg (by omega)]
  -- The leading bit is not stored; it adds one to the exponent field.
  by_cases hnormal : 2 ^ spec.mantissaBitsWithoutImplicit ≤ m
  · have hfraction : m % 2 ^ spec.mantissaBitsWithoutImplicit =
        m - 2 ^ spec.mantissaBitsWithoutImplicit := by
      rw [pow_succ] at hsize
      rw [Nat.mod_eq_sub_mod hnormal, Nat.mod_eq_of_lt (by omega)]
    rw [if_pos (hfull.2 hnormal), to_nat_pack_components, BitVec.toNat_ofNat, BitVec.toNat_ofNat,
      Nat.mod_eq_of_lt (by omega), hfraction, add_one_mul]
    show _ + (_ + 2 ^ spec.mantissaBitsWithoutImplicit) + _ = _
    omega
  · have hend : e = (ofSpec spec).leastExponent := h.small (by exact Nat.lt_of_not_le hnormal)
    rw [if_neg (mt hfull.1 hnormal), to_nat_pack_components, BitVec.toNat_ofNat, BitVec.toNat_ofNat,
      Nat.mod_eq_of_lt (Nat.lt_of_not_le hnormal), hend]
    simp

/-- What is past the largest number is packed to infinity. -/
theorem to_nat_pack_past {sign : Sign} {m : Nat} {e : Int} (hm : 0 < m)
    (hpast : 2 ^ (ofSpec spec).exponentBits ≤ e - (ofSpec spec).leastExponent + 2) :
    (pack spec (.finite sign m e hm)).toNat =
      (ofSpec spec).signBits (isNegative sign) + (ofSpec spec).infinity := by
  have hleast := least_exponent_of_spec spec
  have hbiased : 2 ^ spec.exponentBits ≤
      (e + spec.exponentBias + spec.mantissaBitsWithoutImplicit).toNat + 1 := by
    have hcast : ((2 ^ spec.exponentBits : Nat) : Int) ≤ e - (ofSpec spec).leastExponent + 2 := by
      push_cast
      exact hpast
    omega
  unfold pack
  dsimp only
  rw [if_pos hbiased, packedInfinity, to_nat_pack_components, BitVec.neg_one_eq_allOnes,
    BitVec.toNat_allOnes]
  rfl

/-! ## Rounding -/

/-- How many quarters of a place a mantissa falls short, the odd ones standing for what lies
between. -/
def quarters : Accuracy → Nat
  | .exact => 0
  | .inexact .lt => 1
  | .inexact .eq => 2
  | .inexact .gt => 3

/-- Shifting keeps the last bit dropped and whether any dropped before it was set. -/
theorem shifted_parts (m : Nat) (accuracy : Accuracy) (places : Nat) :
    let shifted := ExtendedMantissa.ofMantissaAndAccuracy m accuracy >>> places
    let n := 4 * m + quarters accuracy
    shifted.mantissa = n / 2 ^ (places + 2) ∧
      shifted.roundBit = decide (n / 2 ^ (places + 1) % 2 = 1) ∧
      shifted.stickyBit = decide (n % 2 ^ (places + 1) ≠ 0) := by
  intro shifted n
  -- Each further place moves the round bit into the sticky bit.
  induction places with
  | zero =>
      show (ExtendedMantissa.ofMantissaAndAccuracy m accuracy).mantissa = _ ∧
        (ExtendedMantissa.ofMantissaAndAccuracy m accuracy).roundBit = _ ∧
        (ExtendedMantissa.ofMantissaAndAccuracy m accuracy).stickyBit = _
      have hn : n = 4 * m + quarters accuracy := rfl
      rcases accuracy with _ | (_ | _ | _) <;>
        simp [ExtendedMantissa.ofMantissaAndAccuracy, hn, quarters] <;> omega
  | succ places ih =>
      obtain ⟨hmantissa, hround, hsticky⟩ := ih
      have hshift : shifted =
          (ExtendedMantissa.ofMantissaAndAccuracy m accuracy >>> places).shiftRightOne := rfl
      have hlow : n % 2 ^ (places + 2) =
          n % 2 ^ (places + 1) + 2 ^ (places + 1) * (n / 2 ^ (places + 1) % 2) := Nat.mod_pow_succ
      rw [hshift]
      unfold ExtendedMantissa.shiftRightOne
      rw [hmantissa, hround, hsticky]
      refine ⟨?_, ?_, ?_⟩
      · rw [Nat.div_div_eq_div_mul, ← pow_succ]
      · rcases Nat.mod_two_eq_zero_or_one (n / 2 ^ (places + 2)) with h | h <;> simp [h]
      · rw [hlow]
        rcases Nat.mod_two_eq_zero_or_one (n / 2 ^ (places + 1)) with h | h <;> simp [h]

/-- Rounding goes up past the half, and to the even number at the half. -/
theorem rounded_mantissa_bits (em : ExtendedMantissa) :
    em.roundedMantissa =
      if em.roundBit then
        if em.stickyBit then em.mantissa + 1 else em.mantissa + em.mantissa % 2
      else em.mantissa := by
  obtain ⟨mantissa, roundBit, stickyBit⟩ := em
  cases roundBit <;> cases stickyBit <;> rfl

/-- The round bit and the sticky bit hold all that rounding to even needs. -/
theorem rounded_mantissa_eq (m : Nat) (accuracy : Accuracy) (places : Nat) :
    (ExtendedMantissa.ofMantissaAndAccuracy m accuracy >>> places).roundedMantissa =
      roundShift (4 * m + quarters accuracy) (places + 2) := by
  obtain ⟨hmantissa, hround, hsticky⟩ := shifted_parts m accuracy places
  rw [rounded_mantissa_bits, hmantissa, hround, hsticky]
  generalize 4 * m + quarters accuracy = n
  have hlow : n % 2 ^ (places + 2) =
      n % 2 ^ (places + 1) + 2 ^ (places + 1) * (n / 2 ^ (places + 1) % 2) := Nat.mod_pow_succ
  have hrest := Nat.mod_lt n (Nat.two_pow_pos (places + 1))
  have hpower : 2 ^ (places + 2) = 2 * 2 ^ (places + 1) := by ring
  unfold roundShift
  simp only [Nat.pow_eq, hlow, decide_eq_true_eq]
  generalize n / 2 ^ (places + 2) = quotient
  generalize n % 2 ^ (places + 1) = low at hrest ⊢
  rw [hpower]
  generalize 2 ^ (places + 1) = unit at hrest ⊢
  rcases Nat.mod_two_eq_zero_or_one (n / unit) with hbit | hbit
  · have hbelow : 2 * (low + unit * 0) < 2 * unit := by omega
    rw [hbit, if_neg (by decide), if_pos hbelow]
  · have habove : ¬2 * (low + unit * 1) < 2 * unit := by omega
    rw [hbit, if_pos rfl, if_neg habove]
    by_cases hzero : low = 0
    · have heven : ¬2 * unit < 2 * (low + unit * 1) := by omega
      rw [if_neg (not_not.2 hzero), if_neg heven]
    · have hover : 2 * unit < 2 * (low + unit * 1) := by omega
      rw [if_pos hzero, if_pos hover]

/-- A number is rounded to the same last place here as by the language. -/
theorem target_exponent_eq (m : Nat) (e : Int) :
    spec.targetExponent (Float.Model.totalExponent m e) = (ofSpec spec).lastPlace m e := by
  have hleast : spec.minExponent = (ofSpec spec).leastExponent := by
    unfold Float.Model.Format.minExponent Float.Model.Format.mantissaBits leastExponent ofSpec
    push_cast [Nat.pow_eq]
    ring
  unfold Float.Model.Format.targetExponent Float.Model.totalExponent lastPlace
    Float.Model.Format.mantissaBits
  rw [hleast]
  show max _ _ = max _ (e + m.log2 - (spec.mantissaBitsWithoutImplicit : Int))
  omega

/-- Quarters of a place do not move the leading bit. -/
theorem last_place_quarters {m : Nat} (hm : 0 < m) (e : Int) (accuracy : Accuracy) :
    (ofSpec spec).lastPlace (4 * m + quarters accuracy) (e - 2) = (ofSpec spec).lastPlace m e := by
  have hquarters : quarters accuracy < 4 := by
    rcases accuracy with _ | (_ | _ | _) <;> decide
  have hlog : (4 * m + quarters accuracy).log2 = m.log2 + 2 := by
    have hlow := Nat.log2_self_le hm.ne'
    have hhigh : m < 2 ^ (m.log2 + 1) := Nat.lt_log2_self
    rw [Nat.log2_eq_iff (by omega), pow_succ, pow_succ, pow_succ, pow_succ]
    rw [pow_succ] at hhigh
    omega
  unfold lastPlace
  rw [hlog]
  push_cast
  congr 1
  ring

/-- The first shift leaves the significand at its last place, with what is needed to round it. -/
theorem shift_to_target {m : Nat} {e : Int} (hm : 0 < m)
    (hbits : (ofSpec spec).fractionBits ≤ m.log2) (accuracy : Accuracy) :
    ∃ shifted : ExtendedMantissa,
      shiftToTargetExponent spec m e accuracy = (shifted, (ofSpec spec).lastPlace m e) ∧
        shifted.roundedMantissa =
          (ofSpec spec).scaled (4 * m + quarters accuracy) (e - 2) := by
  have hlast : e ≤ (ofSpec spec).lastPlace m e := by
    unfold lastPlace
    omega
  unfold shiftToTargetExponent shiftToExponent
  rw [target_exponent_eq]
  dsimp only
  refine ⟨_, Prod.ext rfl ?_, ?_⟩
  · dsimp only
    omega
  · have hplaces : ((ofSpec spec).lastPlace m e - (e - 2)).toNat =
        ((ofSpec spec).lastPlace m e - e).toNat + 2 := by omega
    unfold scaled
    rw [rounded_mantissa_eq, last_place_quarters hm, if_neg (by omega), hplaces]

/-- A significand that fits is left as it is. -/
theorem shift_fitting {m : Nat} {e : Int} (hsize : m < 2 ^ ((ofSpec spec).fractionBits + 1))
    (hleast : (ofSpec spec).leastExponent ≤ e) :
    shiftToTargetExponent spec m e .exact = (⟨m, false, false⟩, e) := by
  have hbits : m.log2 < (ofSpec spec).fractionBits + 1 := by
    rcases Nat.eq_zero_or_pos m with rfl | hm
    · exact Nat.succ_pos _
    · exact (Nat.log2_lt hm.ne').2 hsize
  have hlast : (ofSpec spec).lastPlace m e ≤ e := by
    unfold lastPlace
    omega
  have hnone : ((ofSpec spec).lastPlace m e - e).toNat = 0 := by omega
  unfold shiftToTargetExponent shiftToExponent
  rw [target_exponent_eq]
  dsimp only
  rw [hnone]
  exact Prod.ext rfl (add_zero e)

/-- A significand that was rounded up to one bit more is moved by one place. -/
theorem shift_carried {e : Int} (hleast : (ofSpec spec).leastExponent ≤ e) :
    shiftToTargetExponent spec (2 ^ ((ofSpec spec).fractionBits + 1)) e .exact =
      (⟨2 ^ (ofSpec spec).fractionBits, false, false⟩, e + 1) := by
  have hlast : (ofSpec spec).lastPlace (2 ^ ((ofSpec spec).fractionBits + 1)) e = e + 1 := by
    unfold lastPlace
    rw [Nat.log2_two_pow]
    omega
  have hone : (e + 1 - e).toNat = 1 := by omega
  unfold shiftToTargetExponent shiftToExponent
  rw [target_exponent_eq, hlast]
  dsimp only
  rw [hone]
  refine Prod.ext ?_ rfl
  show (⟨2 ^ ((ofSpec spec).fractionBits + 1) / 2, 2 ^ ((ofSpec spec).fractionBits + 1) % 2 != 0,
    false⟩ : ExtendedMantissa) = _
  have hhalf : 2 ^ ((ofSpec spec).fractionBits + 1) / 2 = 2 ^ (ofSpec spec).fractionBits := by
    rw [pow_succ, Nat.mul_div_cancel _ (by omega)]
  have heven : 2 ^ ((ofSpec spec).fractionBits + 1) % 2 = 0 := by
    rw [pow_succ, Nat.mul_mod_left]
  rw [hhalf, heven]
  rfl

/-- A rounded significand is packed to its pattern, or to infinity if that is past the largest
number. -/
theorem to_nat_pack_scaled (hwide : 2 ≤ spec.exponentBits) {sign : Sign} {s : Nat} {e : Int}
    (hs : 0 < s) (hsize : s < 2 ^ ((ofSpec spec).fractionBits + 1))
    (hleast : (ofSpec spec).leastExponent ≤ e)
    (hsmall : s < 2 ^ (ofSpec spec).fractionBits → e = (ofSpec spec).leastExponent) :
    (pack spec (.finite sign s e hs)).toNat = (ofSpec spec).signBits (isNegative sign) +
      min (ofSpec spec).infinity ((ofSpec spec).pattern s e) := by
  by_cases hfinite : e - (ofSpec spec).leastExponent + 2 < 2 ^ (ofSpec spec).exponentBits
  · have hcanonical : (ofSpec spec).Canonical s e := ⟨hleast, hsize, hsmall, hfinite⟩
    rw [to_nat_pack_finite hs hcanonical, min_eq_right hcanonical.pattern_lt_infinity.le]
  · have hpast : 2 ^ (ofSpec spec).exponentBits ≤ e - (ofSpec spec).leastExponent + 2 :=
      Int.not_lt.1 hfinite
    have hmany : 2 ^ 2 ≤ 2 ^ (ofSpec spec).exponentBits := Nat.pow_le_pow_right (by omega) hwide
    have hcast : ((2 ^ (ofSpec spec).exponentBits : Nat) : Int) ≤
        e - (ofSpec spec).leastExponent + 2 := by
      push_cast
      exact hpast
    have hfull : 2 ^ (ofSpec spec).fractionBits ≤ s := by
      by_contra hless
      have hend := hsmall (Nat.lt_of_not_le hless)
      omega
    have hinfinity : (ofSpec spec).infinity ≤ (ofSpec spec).pattern s e := by
      have hplaces : (ofSpec spec).specialField ≤ (e - (ofSpec spec).leastExponent).toNat + 1 := by
        unfold specialField
        rw [Nat.pow_eq]
        omega
      calc (ofSpec spec).infinity
          ≤ ((e - (ofSpec spec).leastExponent).toNat + 1) * 2 ^ (ofSpec spec).fractionBits :=
            Nat.mul_le_mul_right _ hplaces
        _ ≤ (ofSpec spec).pattern s e := by
            unfold pattern
            rw [add_one_mul]
            omega
    rw [to_nat_pack_past hs hpast, min_eq_left hinfinity]

/-- The built-in rounding is `round`, for a number with bits enough. -/
theorem pack_round_with_accuracy (hwide : 2 ≤ spec.exponentBits) {m : Nat} {e : Int} {sign : Sign}
    {accuracy : Accuracy} (hm : 0 < m) (hbits : (ofSpec spec).fractionBits ≤ m.log2) :
    (pack spec (roundWithAccuracy spec sign m e accuracy)).toNat =
      (ofSpec spec).round (isNegative sign) (4 * m + quarters accuracy) (e - 2) := by
  obtain ⟨shifted, hshift, hrounded⟩ := shift_to_target (e := e) hm hbits accuracy
  have hpositive : 0 < 4 * m + quarters accuracy := by omega
  have hsize := round_size_eq (f := ofSpec spec) hpositive (e - 2)
  have hfew := scaled_le (f := ofSpec spec) hpositive (e - 2)
  have hsmall := last_place_of_scaled_lt (f := ofSpec spec) (e := e - 2) hpositive
  rw [last_place_quarters hm] at hsize hsmall
  rw [← hrounded] at hsize hfew hsmall
  have hleast : (ofSpec spec).leastExponent ≤ (ofSpec spec).lastPlace m e := le_max_left ..
  have hpower : 0 < 2 ^ (ofSpec spec).fractionBits := by positivity
  unfold roundWithAccuracy round
  rw [hshift, hsize]
  dsimp only
  -- Rounding may carry into one bit more, which the second shift takes back.
  rcases Nat.lt_or_eq_of_le hfew with hlt | heq
  · rw [shift_fitting hlt hleast]
    dsimp only
    split
    case isTrue hzero =>
      rw [hzero, hsmall (by omega), Int.sub_self, Int.toNat_zero, Nat.zero_mul, Nat.zero_add,
        Nat.min_zero, pack, packedZero, to_nat_pack_components]
      simp [signBits]
    case isFalse hpos => exact to_nat_pack_scaled hwide _ hlt hleast hsmall
  · have hcarried : (ofSpec spec).leastExponent ≤ (ofSpec spec).lastPlace m e + 1 := by omega
    rw [heq, shift_carried hleast, dif_neg (by dsimp only; omega),
      to_nat_pack_scaled hwide _ (Nat.pow_lt_pow_right (by omega) (by omega)) hcarried
        (fun hless => absurd hless (lt_irrefl _)), pattern_carry hleast]
    rfl

end Format

end SynthRack
