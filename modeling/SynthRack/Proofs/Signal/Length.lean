import Mathlib
import SynthRack.Proofs.Numeral.Exact
import SynthRack.Proofs.Signal.Duration

/-!
# Lengths in samples

A delay computes its length from the duration it reads, while its buffer was sized for the duration
cut to the longest one. As long as a buffer has no more samples than a significand can count, the
buffer is what limits the delay: `samples_for_buffered_le`. It rests on three facts of single
precision: rounding keeps the order of products (`mul_bits_mono`), a number of samples is the least
natural number that is not below the span (`samples_covering_le_iff`), and so a larger span covers
no fewer samples (`samples_covering_mono`).
-/

namespace SynthRack

open Float.Model (UnpackedFloat)

namespace Length

variable {x y : Float32} {m n : Nat} {e d : Int}

/-! ## Order -/

/-- Positive finite numbers are ordered by what they stand for. -/
theorem lt_iff {hm : 0 < m} {hn : 0 < n} (hx : x.toModel.unpack = .finite .positive m e hm)
    (hy : y.toModel.unpack = .finite .positive n d hn) : x < y ↔ (m : Rat) * 2 ^ e < n * 2 ^ d := by
  have horder : (UnpackedFloat.finite .positive m e hm).compare (.finite .positive n d hn) =
      some ((compare e d).then (compare m n)) := rfl
  rw [Duration.lt_iff, hx, hy, horder, Option.some.injEq]
  exact (Float32.canonical_of_unpack hx).compare_eq_lt_iff (Float32.canonical_of_unpack hy)

/-- What is above a number that is not negative is finite or the positive infinity. -/
theorem unpack_of_lt (hlt : y < x)
    (hy : (∃ sign, y.toModel.unpack = .zero sign) ∨
      ∃ n d hn, y.toModel.unpack = .finite .positive n d hn) :
    (∃ m e hm, x.toModel.unpack = .finite .positive m e hm) ∨
      x.toModel.unpack = .infinity .positive := by
  rw [Duration.lt_iff] at hlt
  cases hx : x.toModel.unpack with
  | notANumber => rcases hy with ⟨s, hy⟩ | ⟨n, d, hn, hy⟩ <;> rw [hx, hy] at hlt <;> cases hlt
  | zero sign => rcases hy with ⟨s, hy⟩ | ⟨n, d, hn, hy⟩ <;> rw [hx, hy] at hlt <;> cases hlt
  | infinity sign =>
      cases sign with
      | positive => exact .inr rfl
      | negative => rcases hy with ⟨s, hy⟩ | ⟨n, d, hn, hy⟩ <;> rw [hx, hy] at hlt <;> cases hlt
  | finite sign m e hm =>
      cases sign with
      | positive => exact .inl ⟨m, e, hm, rfl⟩
      | negative => rcases hy with ⟨s, hy⟩ | ⟨n, d, hn, hy⟩ <;> rw [hx, hy] at hlt <;> cases hlt

/-- A positive number is finite or infinite. -/
theorem pos_iff : 0 < x ↔ (∃ m e hm, x.toModel.unpack = .finite .positive m e hm) ∨
    x.toModel.unpack = .infinity .positive := by
  have hzero : (0 : Float32).toModel.unpack = .zero .positive := rfl
  refine ⟨fun h => unpack_of_lt h (.inl ⟨_, hzero⟩), ?_⟩
  rw [Duration.lt_iff, hzero]
  rintro (⟨m, e, hm, hx⟩ | hx)
  · rw [hx]
    rfl
  · rw [hx]
    rfl

/-- A finite number without a negative sign is positive. -/
theorem pos_of_finite {hm : 0 < m} (hx : x.toModel.unpack = .finite .positive m e hm) : 0 < x :=
  pos_iff.2 (.inl ⟨m, e, hm, hx⟩)

/-! ## Bits -/

/-- The bits of a positive finite number. -/
theorem bits_of_finite {hm : 0 < m} (hx : x.toModel.unpack = .finite .positive m e hm) :
    x.toBits.toNat = Format.single.pattern m e := by
  have hread : x.reading = .finite false m e := by
    rw [Float32.reading_eq, hx]
    rfl
  have hbits := (Format.pattern_of_read (by decide)
    (lt_of_lt_of_eq x.toBits.toNat_lt (by decide)) hread).2
  rwa [Format.signBits, if_neg (by decide), Nat.zero_add] at hbits

/-- The bits of a product with a number that has all its bits. -/
theorem mul_bits {sign : UnpackedFloat.Sign} {hm : 0 < m} {hn : 0 < n}
    (hx : x.toModel.unpack = .finite .positive m e hm)
    (hy : y.toModel.unpack = .finite sign n d hn) (hfull : 2 ^ 23 ≤ m) :
    (x * y).toBits.toNat =
      Format.single.round (Format.isNegative sign) (4 * (m * n)) (e + d - 2) := by
  have hsign : UnpackedFloat.Sign.positive * sign = sign := by cases sign <;> rfl
  have hproduct : x * y = Float32.ofModel
      (.pack (UnpackedFloat.roundWithAccuracy .binary32 sign (m * n) (e + d) .exact)) := by
    show Float32.ofModel (.pack (UnpackedFloat.mul .binary32 x.toModel.unpack y.toModel.unpack)) = _
    rw [hx, hy, UnpackedFloat.mul, hsign]
  have hlog : (Format.ofSpec .binary32).fractionBits ≤ (m * n).log2 :=
    (Nat.le_log2 (Nat.mul_pos hm hn).ne').2 (hfull.trans (Nat.le_mul_of_pos_right m hn))
  rw [hproduct]
  exact @Format.pack_round_with_accuracy .binary32 (by decide) (m * n) (e + d) sign
    .exact (Nat.mul_pos hm hn) hlog

/-- The bits of a product of positive numbers are those of the rounded exact product. -/
theorem mul_bits_pos {hm : 0 < m} {hn : 0 < n} (hx : x.toModel.unpack = .finite .positive m e hm)
    (hy : y.toModel.unpack = .finite .positive n d hn) (hfull : 2 ^ 23 ≤ m) :
    (x * y).toBits.toNat = Format.single.roundSize (4 * (m * n)) (e + d - 2) :=
  (mul_bits hx hy hfull).trans (Nat.zero_add _)

/-- With the same factor, the larger of two numbers has the larger product. -/
theorem mul_bits_mono {l : Nat} {c : Int} {z : Float32} {hm : 0 < m} {hn : 0 < n} {hl : 0 < l}
    (hx : x.toModel.unpack = .finite .positive m e hm)
    (hy : y.toModel.unpack = .finite .positive n d hn)
    (hz : z.toModel.unpack = .finite .positive l c hl) (hfull : 2 ^ 23 ≤ m) (hfull' : 2 ^ 23 ≤ n)
    (hlt : x < y) : (x * z).toBits.toNat ≤ (y * z).toBits.toNat := by
  have hlt := (lt_iff hx hy).1 hlt
  have hvalue (k : Nat) (a : Int) : ((4 * (k * l) : Nat) : Rat) * 2 ^ (a + c - 2) =
      k * 2 ^ a * (l * 2 ^ c) := by
    rw [zpow_sub₀ two_ne_zero, two_zpow_add]
    push_cast
    ring
  have hfactor : (0 : Rat) < l * 2 ^ c := mul_pos (Nat.cast_pos.2 hl) (two_zpow_pos c)
  rw [mul_bits_pos hx hz hfull, mul_bits_pos hy hz hfull']
  refine Format.round_size_mono (by positivity) (by positivity) ?_
  rw [hvalue, hvalue]
  exact mul_lt_mul_of_pos_right hlt hfactor

/-- Bits up to those of infinity stand for what is not negative. -/
theorem reading_of_bits (h : x.toBits.toNat ≤ Format.single.infinity) :
    x.reading = .infinite false ∨ ∃ s e, x.reading = .finite false s e := by
  obtain ⟨negative, field, fraction, hfield, hfraction, hbits⟩ :=
    Format.exists_fields (f := .single) (lt_of_lt_of_eq x.toBits.toNat_lt (by decide))
  have hinfinity : Format.single.infinity = Format.single.specialField * 2 ^ 23 := by decide
  have hmask : Format.single.infinity < Format.single.signMask := by decide
  have hpositive : negative = false := by
    by_contra hne
    rw [Bool.not_eq_false] at hne
    subst hne
    rw [Format.signBits, if_pos rfl] at hbits
    omega
  subst hpositive
  rw [Float32.reading, hbits, Format.read_fields hfield hfraction]
  rw [hbits, Format.signBits, if_neg (by decide), Nat.zero_add] at h
  by_cases hspecial : field = Format.single.specialField
  · have hnone : fraction = 0 := by
      rw [hspecial, hinfinity] at h
      have hplaces : Format.single.fractionBits = 23 := rfl
      rw [hplaces] at h
      omega
    rw [if_pos hspecial, if_pos hnone]
    exact .inl rfl
  · rw [if_neg hspecial]
    split
    · exact .inr ⟨_, _, rfl⟩
    · exact .inr ⟨_, _, rfl⟩

/-- Bits up to infinity are those of zero, of a finite positive number or of infinity. -/
theorem unpack_of_bits (h : x.toBits.toNat ≤ Format.single.infinity) :
    x.toModel.unpack = .zero .positive ∨
      (∃ m e hm, x.toModel.unpack = .finite .positive m e hm) ∨
      x.toModel.unpack = .infinity .positive := by
  have hread := reading_of_bits h
  rw [Float32.reading_eq] at hread
  cases hx : x.toModel.unpack with
  | notANumber => simp [hx, Format.unpackedReading] at hread
  | zero sign =>
      cases sign with
      | positive => exact .inl rfl
      | negative => simp [hx, Format.unpackedReading, Format.isNegative] at hread
  | infinity sign =>
      cases sign with
      | positive => exact .inr (.inr rfl)
      | negative => simp [hx, Format.unpackedReading, Format.isNegative] at hread
  | finite sign m e hm =>
      cases sign with
      | positive => exact .inr (.inl ⟨m, e, hm, rfl⟩)
      | negative => simp [hx, Format.unpackedReading, Format.isNegative] at hread

/-! ## Samples -/

/-- A long word is below a number if its value is. -/
theorem long_lt_iff {w : UInt64} (hw : w.toNat < 2 ^ 24) {hm : 0 < m}
    (hx : x.toModel.unpack = .finite .positive m e hm) :
    w.toFloat32 < x ↔ (w.toNat : Rat) < m * 2 ^ e := by
  rcases Nat.eq_zero_or_pos w.toNat with hzero | hpos
  · have hnone : w = 0 := UInt64.toNat_inj.1 hzero
    have hvalue : (0 : Rat) < m * 2 ^ e := mul_pos (Nat.cast_pos.2 hm) (two_zpow_pos e)
    rw [hzero, hnone]
    exact iff_of_true (pos_of_finite hx) hvalue
  · have hlog : w.toNat.log2 ≤ 23 := Nat.lt_succ_iff.1 ((Nat.log2_lt hpos.ne').2 hw)
    have hvalue : ((w.toNat * 2 ^ (23 - w.toNat.log2) : Nat) : Rat) *
        2 ^ ((w.toNat.log2 : Int) - 23) = w.toNat := by
      have hplaces : ((23 - w.toNat.log2 : Nat) : Int) + ((w.toNat.log2 : Int) - 23) = 0 := by omega
      push_cast
      rw [mul_assoc, ← zpow_natCast, ← two_zpow_add, hplaces, zpow_zero, mul_one]
    rw [lt_iff (Float32.unpack_long_to_float32 hpos hlog) hx, hvalue]

/-- A count of samples is the least natural number that is not below the span. -/
theorem samples_covering_le_iff {hm : 0 < m} (hx : x.toModel.unpack = .finite .positive m e hm)
    (he : e ≤ 0) (count : Nat) : samplesCovering x ≤ count ↔ (m : Rat) * 2 ^ e ≤ count := by
  have hsize : m < 2 ^ 24 := (Float32.canonical_of_unpack hx).size
  have hwhole : x.toUInt64.toNat = m / 2 ^ (-e).toNat :=
    Float32.to_nat_to_uint64 hx he ((Nat.div_le_self _ _).trans_lt (hsize.trans (by decide)))
  have hsmall : x.toUInt64.toNat < 2 ^ 24 := hwhole ▸ (Nat.div_le_self _ _).trans_lt hsize
  have hvalue : (m : Rat) * 2 ^ e = m / 2 ^ (-e).toNat := by
    rw [mul_two_zpow_of_nonpos m he]
    norm_cast
  have hunit : 0 < 2 ^ (-e).toNat := by positivity
  have hbelow : x.toUInt64.toFloat32 < x ↔ m / 2 ^ (-e).toNat * 2 ^ (-e).toNat < m := by
    rw [long_lt_iff hsmall hx, hvalue, lt_div_iff₀ (by positivity), hwhole]
    exact_mod_cast Iff.rfl
  have hcount : (m : Rat) * 2 ^ e ≤ count ↔ m ≤ count * 2 ^ (-e).toNat := by
    rw [hvalue, div_le_iff₀ (by positivity)]
    exact_mod_cast Iff.rfl
  have hmax : x.toUInt64.toNat + 1 ≤ maxLength := by
    have hlarge : 2 ^ 24 ≤ maxLength := by decide
    omega
  rw [samplesCovering, if_pos (pos_of_finite hx), hcount]
  dsimp only
  by_cases hpart : m / 2 ^ (-e).toNat * 2 ^ (-e).toNat < m
  -- Something is left behind the whole part, or it is the number.
  · rw [if_pos (hbelow.2 hpart), min_eq_left hmax, hwhole, Nat.succ_le_iff]
    constructor
    · intro hlt
      exact ((Nat.div_lt_iff_lt_mul hunit).1 hlt).le
    · intro hle
      by_contra hge
      exact absurd (hpart.trans_le hle) (Nat.not_lt.2 (Nat.mul_le_mul_right _ (Nat.not_lt.1 hge)))
  · have hexact : m / 2 ^ (-e).toNat * 2 ^ (-e).toNat = m :=
      le_antisymm (Nat.div_mul_le_self _ _) (Nat.not_lt.1 hpart)
    rw [if_neg (mt hbelow.1 hpart), hwhole, ← Nat.mul_le_mul_right_iff hunit, hexact]

/-- What has no places behind the point covers many samples. -/
theorem large_samples_covering {hm : 0 < m} (hx : x.toModel.unpack = .finite .positive m e hm)
    (he : 0 < e) : 2 ^ 24 ≤ samplesCovering x := by
  have hlarge := Float32.large_to_uint64 hx he
  have hmax : 2 ^ 24 ≤ maxLength := by decide
  rw [samplesCovering, if_pos (pos_of_finite hx)]
  dsimp only
  split <;> omega

/-- An infinite span takes the largest number of samples. -/
theorem samples_covering_infinity (hx : x.toModel.unpack = .infinity .positive) :
    samplesCovering x = maxLength := by
  have hword : x.toUInt64 = UInt64.ofNatClamp (x.toModel.unpack.toInt 0 (UInt64.size - 1)).toNat :=
    rfl
  have hwhole : x.toUInt64.toNat = maxLength := by
    rw [hword, hx]
    rfl
  rw [samplesCovering, if_pos (pos_iff.2 (.inr hx))]
  dsimp only
  rw [hwhole]
  split <;> omega

/-- A larger span covers no fewer samples. -/
theorem samples_covering_mono (hpos : 0 < x) (h : x.toBits.toNat ≤ y.toBits.toNat)
    (hy : y.toBits.toNat ≤ Format.single.infinity) (hsmall : samplesCovering x ≤ 2 ^ 24) :
    samplesCovering x ≤ samplesCovering y := by
  have hmax : 2 ^ 24 < maxLength := by decide
  rcases pos_iff.1 hpos with ⟨m, e, hm, hx⟩ | hx
  case inr =>
    rw [samples_covering_infinity hx] at hsmall
    omega
  rcases unpack_of_bits hy with hyzero | ⟨n, d, hn, hyfinite⟩ | hyinfinity
  · -- No bits are below those of zero.
    exfalso
    have hread : y.reading = .finite false 0 Format.single.leastExponent := by
      rw [Float32.reading_eq, hyzero]
      rfl
    have hbits := (Format.pattern_of_read (by decide)
      (lt_of_lt_of_eq y.toBits.toNat_lt (by decide)) hread).2
    have hnone : y.toBits.toNat = 0 := hbits.trans (by decide)
    rw [bits_of_finite hx, hnone, Format.pattern] at h
    omega
  · rcases lt_or_ge 0 d with hd | hd
    · exact hsmall.trans (large_samples_covering hyfinite hd)
    have hcanonical := Float32.canonical_of_unpack hx
    have hcanonical' := Float32.canonical_of_unpack hyfinite
    have hle : (m : Rat) * 2 ^ e ≤ n * 2 ^ d := by
      rw [bits_of_finite hx, bits_of_finite hyfinite] at h
      exact hcanonical.le_of_pattern_le hcanonical' h
    have he : e ≤ d := by
      by_contra hgt
      exact absurd (hcanonical'.lt_of_exponent_lt hcanonical (not_le.1 hgt)) hle.not_gt
    exact (samples_covering_le_iff hx (he.trans hd) _).2
      (hle.trans ((samples_covering_le_iff hyfinite hd _).1 le_rfl))
  · rw [samples_covering_infinity hyinfinity]
    omega

/-! ## The longest duration -/

/-- A number above the longest duration has all its bits. -/
theorem full_of_longest_lt {hm : 0 < m} (hx : x.toModel.unpack = .finite .positive m e hm)
    (hlong : maxDelaySeconds < x) : 2 ^ 23 ≤ m := by
  by_contra hless
  have hcanonical := Float32.canonical_of_unpack hx
  have hend : e = -149 := hcanonical.small (Nat.lt_of_not_le hless)
  have hbelow := hcanonical.lt_of_exponent_lt
    (Float32.canonical_of_unpack Duration.unpack_longest) (by omega)
  exact absurd ((lt_iff Duration.unpack_longest hx).1 hlong) hbelow.le.not_gt

/-- A positive number times infinity is infinite. -/
theorem mul_infinity {hm : 0 < m} (hx : x.toModel.unpack = .finite .positive m e hm)
    (hy : y.toModel.unpack = .infinity .positive) :
    (x * y).toModel.unpack = .infinity .positive := by
  rw [Float32.unpack_mul, hx, hy]
  exact Float32.repack_infinity .positive

/-- Bits with the sign set do not stand for a positive number. -/
theorem not_pos_of_bits (h : Format.single.signMask ≤ x.toBits.toNat) : ¬ 0 < x := by
  intro hpos
  have hsign : ∀ f, x.reading = .infinite f ∨ (∃ s d, x.reading = .finite f s d) → f = true := by
    intro f hread
    have hnegative : decide (Format.single.signMask ≤ x.toBits.toNat) = true := decide_eq_true h
    unfold Float32.reading Format.read at hread
    dsimp only at hread
    rw [hnegative] at hread
    grind
  have hread := Float32.reading_eq x
  rcases pos_iff.1 hpos with ⟨m, e, hm, hx⟩ | hx
  · rw [hx] at hread
    cases hsign false (.inr ⟨m, e, hread⟩)
  · rw [hx] at hread
    cases hsign false (.inl hread)

/-- A factor of the longest duration that makes a positive product is positive. -/
theorem factor_of_pos {rate : Float32} (hpos : 0 < maxDelaySeconds * rate) :
    (∃ m e hm, rate.toModel.unpack = .finite .positive m e hm) ∨
      rate.toModel.unpack = .infinity .positive := by
  have hkind (z : UnpackedFloat) (hz : (maxDelaySeconds * rate).toModel.unpack = z) :
      (∃ m e hm, z = .finite .positive m e hm) ∨ z = .infinity .positive := hz ▸ pos_iff.1 hpos
  rw [Float32.unpack_mul, Duration.unpack_longest] at hkind
  cases hrate : rate.toModel.unpack with
  | notANumber =>
      rw [hrate] at hkind
      simpa using hkind .notANumber rfl
  | zero sign =>
      rw [hrate] at hkind
      simpa using hkind _ (Float32.repack_zero _)
  | infinity sign =>
      cases sign with
      | positive => exact .inr rfl
      | negative =>
          rw [hrate] at hkind
          simpa using hkind _ (Float32.repack_infinity .negative)
  | finite sign m e hm =>
      cases sign with
      | positive => exact .inl ⟨m, e, hm, rfl⟩
      | negative =>
          refine absurd hpos (not_pos_of_bits ?_)
          rw [mul_bits Duration.unpack_longest hrate (by decide)]
          exact Nat.le_add_right _ _

/-- What is longer than the longest duration fills no shorter a line. -/
theorem samples_for_longest_le {requested rate : Float32} (hlong : maxDelaySeconds < requested)
    (hsmall : samplesFor maxDelaySeconds rate ≤ 2 ^ 24) :
    samplesFor maxDelaySeconds rate ≤ samplesFor requested rate := by
  have hmax : 2 ^ 24 < maxLength := by decide
  by_cases hpos : 0 < maxDelaySeconds * rate
  case neg =>
    have hnone : samplesFor maxDelaySeconds rate = 0 := if_neg hpos
    rw [hnone]
    exact Nat.zero_le _
  rcases factor_of_pos hpos with ⟨l, c, hl, hrate⟩ | hrate
  case inr =>
    have hlarge : samplesFor maxDelaySeconds rate = maxLength :=
      samples_covering_infinity (mul_infinity Duration.unpack_longest hrate)
    omega
  rcases unpack_of_lt hlong (.inr ⟨_, _, _, Duration.unpack_longest⟩) with
    ⟨n, d, hn, hrequested⟩ | hinfinite
  · have hfull := full_of_longest_lt hrequested hlong
    refine samples_covering_mono hpos
      (mul_bits_mono Duration.unpack_longest hrequested hrate (by decide) hfull hlong) ?_ hsmall
    rw [mul_bits_pos hrequested hrate hfull, Format.round_size_eq (by positivity)]
    exact min_le_left _ _
  · have hlarge : samplesFor requested rate = maxLength := by
      rw [samplesFor, Duration.mul_comm]
      exact samples_covering_infinity (mul_infinity hrate hinfinite)
    omega

end Length

/-- While a buffer has no more samples than a significand can count, the duration that it was cut to
gives no longer a delay than the duration that was asked for. -/
theorem samples_for_buffered_le (requested rate : Float32)
    (hsmall : samplesFor (bufferedSeconds requested) rate ≤ 2 ^ 24) :
    samplesFor (bufferedSeconds requested) rate ≤ samplesFor requested rate := by
  unfold bufferedSeconds at hsmall ⊢
  split at hsmall
  case isTrue hlong =>
    rw [if_pos hlong]
    exact Length.samples_for_longest_le hlong hsmall
  case isFalse hshort =>
    rw [if_neg hshort]
    split
    · exact le_rfl
    · rw [samples_for_zero]
      exact Nat.zero_le _

end SynthRack
