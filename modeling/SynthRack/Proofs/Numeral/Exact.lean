import Mathlib
import SynthRack.Proofs.Numeral.Arithmetic

/-!
# Exact arithmetic of the built-in numbers

A number that a format has is rounded to itself (`round_exact`), and packing and unpacking a
canonical number loses nothing (`unpack_pack_finite`). For single precision this makes the whole part
of a number and the number of a word exact: `to_nat_to_uint32` and `unpack_to_float32`. A natural number
below `2 ^ 24` survives the way into a number and back: `to_nat_round_trip`.
-/

namespace SynthRack

open Float.Model (UnpackedFloat)
open Float.Model.UnpackedFloat

/-! ## Rounding -/

namespace Format

variable {f : Format} {spec : Float.Model.Format} {sign : Sign} {m : Nat} {e : Int}

/-- A significand with fewer bits than the format has is moved up to have all of them. -/
theorem canonical_scaled (hm : 0 < m) (hbits : m.log2 ≤ f.fractionBits)
    (hleast : f.leastExponent ≤ e + m.log2 - f.fractionBits)
    (hfinite : e + m.log2 - f.fractionBits - f.leastExponent + 2 < 2 ^ f.exponentBits) :
    f.Canonical (m * 2 ^ (f.fractionBits - m.log2)) (e + m.log2 - f.fractionBits) := by
  have hlow := Nat.log2_self_le hm.ne'
  have hhigh : m < 2 ^ (m.log2 + 1) := Nat.lt_log2_self
  have hfull : 2 ^ f.fractionBits ≤ m * 2 ^ (f.fractionBits - m.log2) := by
    calc 2 ^ f.fractionBits = 2 ^ m.log2 * 2 ^ (f.fractionBits - m.log2) := by
          rw [← pow_add, Nat.add_sub_cancel' hbits]
      _ ≤ _ := Nat.mul_le_mul_right _ hlow
  refine ⟨hleast, ?_, fun hsmall => absurd hfull (Nat.not_le.2 hsmall), hfinite⟩
  calc m * 2 ^ (f.fractionBits - m.log2)
      < 2 ^ (m.log2 + 1) * 2 ^ (f.fractionBits - m.log2) :=
        Nat.mul_lt_mul_of_pos_right hhigh (by positivity)
    _ = 2 ^ (f.fractionBits + 1) := by
        rw [← pow_add]
        congr 1
        omega

/-- Rounding leaves a number of the format as it is. -/
theorem round_with_accuracy_canonical (hm : 0 < m) (h : (ofSpec spec).Canonical m e) :
    roundWithAccuracy spec sign m e .exact = .finite sign m e hm := by
  unfold roundWithAccuracy
  simp only [shift_fitting h.size h.least, ExtendedMantissa.roundedMantissa, ExtendedMantissa.accuracy,
    Accuracy.roundToNearestEven, dif_neg hm.ne']

/-- A number that the format has is rounded to itself. -/
theorem round_exact (hm : 0 < m) (hbits : m.log2 ≤ (ofSpec spec).fractionBits)
    (hleast : (ofSpec spec).leastExponent ≤ e + m.log2 - (ofSpec spec).fractionBits)
    (hfinite : e + m.log2 - (ofSpec spec).fractionBits - (ofSpec spec).leastExponent + 2 <
      2 ^ (ofSpec spec).exponentBits) :
    UnpackedFloat.round spec sign m e =
      .finite sign (m * 2 ^ ((ofSpec spec).fractionBits - m.log2))
        (e + m.log2 - (ofSpec spec).fractionBits) (by positivity) := by
  have hlast : (ofSpec spec).lastPlace m e = e + m.log2 - (ofSpec spec).fractionBits :=
    max_eq_right hleast
  have hplaces : (e - (e + m.log2 - (ofSpec spec).fractionBits)).toNat =
      (ofSpec spec).fractionBits - m.log2 := by omega
  have hexponent : e - ((ofSpec spec).fractionBits - m.log2 : Nat) =
      e + m.log2 - (ofSpec spec).fractionBits := by omega
  unfold UnpackedFloat.round decreaseExponent
  simp only [target_exponent_eq, hlast, hplaces, Nat.shiftLeft_eq, hexponent]
  exact round_with_accuracy_canonical _ (canonical_scaled hm hbits hleast hfinite)

/-- A canonical number is packed and unpacked again without loss. -/
theorem unpack_pack_finite (hm : 0 < m) (h : (ofSpec spec).Canonical m e) :
    unpack spec (pack spec (.finite sign m e hm)) = .finite sign m e hm := by
  have hread := read_unpack (pack spec (.finite sign m e hm))
  rw [to_nat_pack_finite hm h, h.read_pattern] at hread
  cases hunpack : unpack spec (pack spec (.finite sign m e hm)) with
  | notANumber => rw [hunpack] at hread; cases hread
  | infinity s => rw [hunpack] at hread; cases hread
  | zero s =>
      rw [hunpack] at hread
      injection hread with _ hzero
      omega
  | finite s n d hn =>
      rw [hunpack] at hread
      injection hread with hsign hmantissa hexponent
      obtain rfl : sign = s := by
        cases sign <;> cases s <;> first | rfl | cases hsign
      subst hmantissa hexponent
      rfl

/-- A truncated significand is the quotient by the places behind the point. -/
theorem round_to_int_positive (m : Nat) {e : Int} (h : e ≤ 0) :
    roundToInt .positive m e = (m / 2 ^ (-e).toNat : Nat) := by
  have hnone : (e - 0).toNat = 0 := by omega
  have hplaces : (0 - (e - (0 : Nat))).toNat = (-e).toNat := by omega
  obtain ⟨hmantissa, -⟩ := shifted_parts m .exact (-e).toNat
  have hquotient : (4 * m + quarters .exact) / 2 ^ ((-e).toNat + 2) = m / 2 ^ (-e).toNat := by
    have hpower : 2 ^ ((-e).toNat + 2) = 4 * 2 ^ (-e).toNat := by ring
    rw [hpower, quarters, Nat.add_zero, Nat.mul_div_mul_left _ _ (by omega)]
  rw [hquotient] at hmantissa
  unfold roundToInt decreaseExponent shiftToExponent
  simp only [hnone, Nat.shiftLeft_zero, hplaces, hmantissa]
  rfl

/-- Without places behind the point nothing is truncated. -/
theorem round_to_int_whole (m : Nat) {e : Int} (h : 0 ≤ e) :
    roundToInt .positive m e = (m * 2 ^ e.toNat : Nat) := by
  have hnone : (0 - (e - e.toNat)).toNat = 0 := by omega
  unfold roundToInt decreaseExponent shiftToExponent
  simp only [Int.sub_zero, hnone, Nat.shiftLeft_eq]
  rfl

/-- A natural number of units is normalized to zero or rounded. -/
theorem normalize_nat_cast (n : Nat) (e : Int) :
    UnpackedFloat.normalize spec n e .positive =
      if n = 0 then .zero .positive else UnpackedFloat.round spec .positive n e := by
  unfold UnpackedFloat.normalize
  by_cases hn : n = 0
  · subst hn
    rfl
  · have hcompare : compare (n : Int) 0 = .gt := Int.compare_eq_gt.2 (by omega)
    rw [hcompare, if_neg hn]
    rfl

/-- What is packed with the positive sign is not read as negative. -/
theorem read_components_positive (exponent : BitVec spec.exponentBits)
    (mantissa : BitVec spec.mantissaBitsWithoutImplicit) :
    let reading := (ofSpec spec).read (packComponents spec .positive exponent mantissa).toNat
    reading = .nan ∨ reading = .infinite false ∨ ∃ s d, reading = .finite false s d := by
  rw [to_nat_pack_components, isNegative, read_fields exponent.isLt mantissa.isLt]
  split
  · split
    · exact .inr (.inl rfl)
    · exact .inl rfl
  · split
    · exact .inr (.inr ⟨_, _, rfl⟩)
    · exact .inr (.inr ⟨_, _, rfl⟩)

/-- Rounding a positive number does not make it negative, however accurate the number is. -/
theorem round_with_accuracy_not_neg (m : Nat) (e : Int) (accuracy : Accuracy) :
    (unpack spec (pack spec (roundWithAccuracy spec .positive m e accuracy))).compare
      (.zero .positive) ≠ some .lt := by
  have hread : ∃ exponent mantissa, pack spec (roundWithAccuracy spec .positive m e accuracy) =
      packComponents spec .positive exponent mantissa := by
    unfold roundWithAccuracy
    dsimp only
    split
    · exact ⟨_, _, rfl⟩
    · unfold pack
      dsimp only
      split
      · exact ⟨_, _, rfl⟩
      · split <;> exact ⟨_, _, rfl⟩
  obtain ⟨exponent, mantissa, hpack⟩ := hread
  have hsign := read_components_positive exponent mantissa
  rw [hpack]
  rw [read_unpack] at hsign
  cases hunpack : unpack spec (packComponents spec .positive exponent mantissa) with
  | notANumber => simp [UnpackedFloat.compare]
  | zero s => simp [UnpackedFloat.compare]
  | infinity s =>
      cases s with
      | positive => simp [UnpackedFloat.compare]
      | negative => simp [hunpack, unpackedReading, isNegative] at hsign
  | finite s n d hn =>
      cases s with
      | positive => simp [UnpackedFloat.compare]
      | negative => simp [hunpack, unpackedReading, isNegative] at hsign

/-- A positive number is not rounded to a negative one. -/
theorem round_positive_not_neg (m : Nat) (e : Int) :
    (unpack spec (pack spec (UnpackedFloat.round spec .positive m e))).compare (.zero .positive) ≠
      some .lt := round_with_accuracy_not_neg _ _ _

end Format

end SynthRack

namespace Float32

open SynthRack
open Float.Model (UnpackedFloat)
open Float.Model.UnpackedFloat

/-! ## Unpacked numbers -/

variable {x : Float32} {sign : Sign} {m : Nat} {e : Int}

/-- Packing and unpacking the result of an operation. -/
def repack (u : UnpackedFloat) : UnpackedFloat := unpack .binary32 (pack .binary32 u)

/-- Zeros survive packing, each with its sign. -/
theorem repack_zero (sign : Sign) : repack (.zero sign) = .zero sign := by
  cases sign <;> rfl

/-- What is no number survives packing. -/
theorem repack_nan : repack .notANumber = .notANumber := rfl

/-- Infinities survive packing, each with its sign. -/
theorem repack_infinity (sign : Sign) : repack (.infinity sign) = .infinity sign := by
  cases sign <;> rfl

/-- What is unpacked is a number of the format. -/
theorem canonical_of_unpack {hm : 0 < m} (h : x.toModel.unpack = .finite sign m e hm) :
    Format.single.Canonical m e := by
  have hread : x.reading = .finite (Format.isNegative sign) m e := by
    rw [reading_eq, h]
    rfl
  exact (Format.pattern_of_read (by decide) (lt_of_lt_of_eq x.toBits.toNat_lt (by decide)) hread).1

/-- A finite number that was unpacked survives packing, with either sign. -/
theorem repack_finite {hm : 0 < m} (h : x.toModel.unpack = .finite sign m e hm) (other : Sign) :
    repack (.finite other m e hm) = .finite other m e hm :=
  Format.unpack_pack_finite hm (canonical_of_unpack h)

/-- The size of a number is computed unpacked, and then packed. -/
theorem unpack_abs (x : Float32) : x.abs.toModel.unpack = repack x.toModel.unpack.abs := rfl

/-- A number is negated unpacked, and then packed. -/
theorem unpack_neg (x : Float32) : (-x).toModel.unpack = repack x.toModel.unpack.neg := rfl

/-- A difference is computed unpacked, and then packed. -/
theorem unpack_sub (x y : Float32) :
    (x - y).toModel.unpack = repack (x.toModel.unpack.sub .binary32 y.toModel.unpack) := rfl

/-- A sum is computed unpacked, and then packed. -/
theorem unpack_add (x y : Float32) :
    (x + y).toModel.unpack = repack (x.toModel.unpack.add .binary32 y.toModel.unpack) := rfl

/-- A product is computed unpacked, and then packed. -/
theorem unpack_mul (x y : Float32) :
    (x * y).toModel.unpack = repack (x.toModel.unpack.mul .binary32 y.toModel.unpack) := rfl

/-- The size of a number has no negative sign. -/
theorem abs_cases (x : Float32) :
    x.abs.toModel.unpack = .notANumber ∨ x.abs.toModel.unpack = .infinity .positive ∨
      x.abs.toModel.unpack = .zero .positive ∨
      ∃ m e hm, x.abs.toModel.unpack = .finite .positive m e hm := by
  rw [unpack_abs]
  cases h : x.toModel.unpack with
  | notANumber => exact .inl rfl
  | infinity sign => exact .inr (.inl (repack_infinity .positive))
  | zero sign => exact .inr (.inr (.inl (repack_zero .positive)))
  | finite sign m e hm => exact .inr (.inr (.inr ⟨m, e, hm, repack_finite h .positive⟩))

/-- The whole part of a positive number that is not too large. -/
theorem to_nat_to_uint32 {hm : 0 < m} (h : x.toModel.unpack = .finite .positive m e hm)
    (he : e ≤ 0) (hsize : m / 2 ^ (-e).toNat < UInt32.size) : x.toUInt32.toNat = m / 2 ^ (-e).toNat := by
  have hword : x.toUInt32 = UInt32.ofNatClamp (x.toModel.unpack.toInt 0 (UInt32.size - 1)).toNat :=
    rfl
  rw [hword, h]
  show (UInt32.ofNatClamp (roundToInt .positive m e).toNat).toNat = _
  rw [Format.round_to_int_positive m he, Int.toNat_natCast]
  exact UInt32.toNat_ofNatClamp_of_lt hsize

/-- The whole part of a positive number as a short word. -/
theorem to_nat_to_uint16 {hm : 0 < m} (h : x.toModel.unpack = .finite .positive m e hm)
    (he : e ≤ 0) (hsize : m / 2 ^ (-e).toNat < UInt16.size) : x.toUInt16.toNat = m / 2 ^ (-e).toNat := by
  have hword : x.toUInt16 = UInt16.ofNatClamp (x.toModel.unpack.toInt 0 (UInt16.size - 1)).toNat :=
    rfl
  rw [hword, h]
  show (UInt16.ofNatClamp (roundToInt .positive m e).toNat).toNat = _
  rw [Format.round_to_int_positive m he, Int.toNat_natCast]
  exact UInt16.toNat_ofNatClamp_of_lt hsize

/-- The whole part of a positive number is cut off at the largest of 64 bits. -/
theorem to_uint64_of_finite {hm : 0 < m} (h : x.toModel.unpack = .finite .positive m e hm) :
    x.toUInt64 = UInt64.ofNatClamp (roundToInt .positive m e).toNat := by
  have hword : x.toUInt64 = UInt64.ofNatClamp (x.toModel.unpack.toInt 0 (UInt64.size - 1)).toNat :=
    rfl
  rw [hword, h]
  rfl

/-- The whole part of a positive number as a long word. -/
theorem to_nat_to_uint64 {hm : 0 < m} (h : x.toModel.unpack = .finite .positive m e hm)
    (he : e ≤ 0) (hsize : m / 2 ^ (-e).toNat < UInt64.size) :
    x.toUInt64.toNat = m / 2 ^ (-e).toNat := by
  rw [to_uint64_of_finite h, Format.round_to_int_positive m he, Int.toNat_natCast]
  exact UInt64.toNat_ofNatClamp_of_lt hsize

/-- A number with no places behind the point is large, also as a long word. -/
theorem large_to_uint64 {hm : 0 < m} (h : x.toModel.unpack = .finite .positive m e hm)
    (he : 0 < e) : 2 ^ 24 ≤ x.toUInt64.toNat := by
  have hcanonical := canonical_of_unpack h
  have hleast : Format.single.leastExponent < 0 := by decide
  have hfull : 2 ^ 23 ≤ m := hcanonical.full (hleast.trans he)
  have hlarge : 2 ^ 24 ≤ m * 2 ^ e.toNat :=
    calc 2 ^ 24 = 2 ^ 23 * 2 ^ 1 := by decide
      _ ≤ m * 2 ^ e.toNat := Nat.mul_le_mul hfull (Nat.pow_le_pow_right (by decide) (by omega))
  rw [to_uint64_of_finite h, Format.round_to_int_whole m he.le, Int.toNat_natCast]
  rcases Nat.lt_or_ge (m * 2 ^ e.toNat) UInt64.size with hfits | hpast
  · rw [UInt64.toNat_ofNatClamp_of_lt hfits]
    exact hlarge
  · rw [UInt64.toNat_ofNatClamp_of_le hpast]
    decide

/-- A number that single precision has is rounded, packed and unpacked without loss. -/
theorem repack_round (hm : 0 < m) (hbits : m.log2 ≤ 23) (hleast : -149 ≤ e + m.log2 - 23)
    (hfinite : e + m.log2 - 23 ≤ 104) (sign : Sign) :
    repack (UnpackedFloat.round .binary32 sign m e) =
      .finite sign (m * 2 ^ (23 - m.log2)) (e + m.log2 - 23) (by positivity) := by
  have hexponents : e + m.log2 - (23 : Nat) - (-149) + 2 < 2 ^ 8 := by omega
  rw [@Format.round_exact .binary32 sign m e hm hbits hleast hexponents]
  exact @Format.unpack_pack_finite .binary32 _ _ _ _
    (@Format.canonical_scaled (.ofSpec .binary32) m e hm hbits hleast hexponents)

/-- A natural number, if it has no more bits than a significand. -/
theorem repack_normalize {n : Nat} (hn : 0 < n) (hbits : n.log2 ≤ 23) :
    repack (UnpackedFloat.normalize .binary32 (n : Int) 0 .positive) =
      .finite .positive (n * 2 ^ (23 - n.log2)) (n.log2 - 23)
        (Nat.mul_pos hn (Nat.two_pow_pos _)) := by
  rw [Format.normalize_nat_cast, if_neg hn.ne', repack_round hn hbits (by omega) (by omega)]
  simp only [Int.zero_add]

/-- A word as a number, if it has no more bits than a significand. -/
theorem unpack_to_float32 {n : UInt32} (hn : 0 < n.toNat) (hbits : n.toNat.log2 ≤ 23) :
    n.toFloat32.toModel.unpack =
      .finite .positive (n.toNat * 2 ^ (23 - n.toNat.log2)) (n.toNat.log2 - 23)
        (Nat.mul_pos hn (Nat.two_pow_pos _)) :=
  repack_normalize hn hbits

/-- A long word as a number, if it has no more bits than a significand. -/
theorem unpack_long_to_float32 {n : UInt64} (hn : 0 < n.toNat) (hbits : n.toNat.log2 ≤ 23) :
    n.toFloat32.toModel.unpack =
      .finite .positive (n.toNat * 2 ^ (23 - n.toNat.log2)) (n.toNat.log2 - 23)
        (Nat.mul_pos hn (Nat.two_pow_pos _)) :=
  repack_normalize hn hbits

/-- A natural number that fits a significand is the same number after a round trip. -/
theorem to_nat_round_trip {n : Nat} (hn : n < 2 ^ 24) : n.toUInt64.toFloat32.toUInt64.toNat = n := by
  have hword : n.toUInt64.toNat = n :=
    UInt64.toNat_ofNat_of_lt' (hn.trans (by decide))
  rcases Nat.eq_zero_or_pos n with rfl | hpos
  · rfl
  have hlog : n.log2 ≤ 23 := Nat.lt_succ_iff.1 ((Nat.log2_lt hpos.ne').2 hn)
  have hunpack := unpack_long_to_float32 (n := n.toUInt64) (by rwa [hword]) (by rwa [hword])
  have hplaces : (-((n.log2 : Int) - 23)).toNat = 23 - n.log2 := by omega
  have hquotient : n * 2 ^ (23 - n.log2) / 2 ^ (23 - n.log2) = n :=
    Nat.mul_div_cancel _ (Nat.two_pow_pos _)
  have hwhole := to_nat_to_uint64 hunpack
  rw [hword, hplaces, hquotient] at hwhole
  exact hwhole (by omega) (hn.trans (by decide))

end Float32
