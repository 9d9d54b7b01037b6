import Mathlib
import SynthRack.Proofs.Numeral.Native

/-!
# Near arithmetic in double precision

`Float.Reads x negative v` says that `x` is the number `v` with all the bits of a significand.
Rounding, products and quotients of such numbers are again such numbers, off by half a last place
(`reads_nearest`, `mul_near`) or by a few of them (`div_near`).
-/

namespace Float

open SynthRack
open Float.Model.UnpackedFloat

/-! ## Readings -/

/-- A number in double precision is read as what it is unpacked to. -/
theorem reading_eq (x : Float) :
    x.reading = Format.unpackedReading .double x.toModel.unpack :=
  @Format.read_unpack .binary64 x.toModel.toBits.toBitVec

/-- A number made from bits is read as the format reads the bits. -/
theorem reading_of_bits (bits : UInt64) : (ofBits bits).reading = Format.double.read bits.toNat := by
  have hread := @Format.read_unpack .binary64 bits.toBitVec
  have hkept : @Eq Float.Model.UnpackedFloat (ofBits bits).toModel.unpack
      (unpack .binary64 bits.toBitVec) := @Format.unpack_pack_unpack .binary64 (by decide) _
  rw [reading_eq, hkept]
  exact hread.symm

/-- `x` is the number `v` with a sign, and has all the bits of a significand. -/
def Reads (x : Float) (negative : Bool) (v : Rat) : Prop :=
  ∃ s e, x.reading = .finite negative s e ∧ 2 ^ 52 ≤ s ∧ (s : Rat) * 2 ^ e = v

/-- A number far from both ends of the range. -/
theorem in_range_double {v : Rat} (hlow : 2 ^ (-1000 : Int) ≤ v) (hhigh : v ≤ 2 ^ (1000 : Int)) :
    Format.double.InRange v := by
  refine ⟨le_trans (two_zpow_le ?_) hlow, lt_of_le_of_lt hhigh ?_⟩
  · decide
  · exact (zpow_lt_zpow_iff_right₀ one_lt_two).2 (by decide)

/-- Nearness keeps a number from the ends of the range. -/
theorem in_range_of_near {v w : Rat} {bits : Nat} (h : Near v w (bits + 1))
    (hlow : 2 ^ (-900 : Int) ≤ w) (hhigh : w ≤ 2 ^ (900 : Int)) : Format.double.InRange v := by
  obtain ⟨hbelow, habove⟩ := h.bounds (lt_of_lt_of_le (two_zpow_pos _) hlow)
  refine in_range_double ?_ ?_
  · calc (2 : Rat) ^ (-1000 : Int) ≤ 2 ^ (-900 + -1 : Int) := two_zpow_le (by omega)
      _ = 2 ^ (-900 : Int) / 2 := by rw [two_zpow_add, zpow_neg_one, div_eq_mul_inv]
      _ ≤ w / 2 := div_le_div_of_nonneg_right hlow two_pos.le
      _ ≤ v := hbelow
  · calc v ≤ 2 * w := habove
      _ ≤ 2 * 2 ^ (900 : Int) := mul_le_mul_of_nonneg_left hhigh two_pos.le
      _ = 2 ^ (1 + 900 : Int) := by rw [two_zpow_add, zpow_one]
      _ ≤ 2 ^ (1000 : Int) := two_zpow_le (by omega)

/-- The pattern of a rounded number is read as a number near it. -/
theorem read_round_near {m : Nat} {e : Int} (hm : 0 < m)
    (hrange : Format.double.InRange (m * 2 ^ e)) :
    ∃ s last, Format.double.read (Format.double.round false m e) = .finite false s last ∧
      2 ^ 52 ≤ s ∧ Near (s * 2 ^ last) (m * 2 ^ e) 53 ∧
      Format.double.round false m e < UInt64.size := by
  obtain ⟨s, last, hcanonical, hfull, hround, hnear⟩ := Format.round_near hm hrange
  have hbits : Format.double.round false m e = Format.double.pattern s last := by
    show 0 + Format.double.roundSize m e = _
    rw [hround, Nat.zero_add]
  refine ⟨s, last, ?_, hfull, hnear, ?_⟩
  · have hread := hcanonical.read_pattern false
    rw [hbits]
    rwa [Format.signBits, if_neg (by decide), Nat.zero_add] at hread
  · rw [hbits]
    exact lt_trans hcanonical.pattern_lt (by decide)

/-- A number in range becomes one that is off by its part `2 ^ -53` at most. -/
theorem reads_nearest {m : Nat} {e : Int} (hm : 0 < m)
    (hrange : Format.double.InRange (m * 2 ^ e)) :
    ∃ v, (ofReading (.finite false m e)).Reads false v ∧ Near v (m * 2 ^ e) 53 := by
  obtain ⟨s, last, hread, hfull, hnear, hsize⟩ := read_round_near hm hrange
  refine ⟨_, ⟨s, last, ?_, hfull, rfl⟩, hnear⟩
  rw [ofReading, reading_of_bits]
  show Format.double.read (Format.double.round false m e).toUInt64.toNat = _
  rw [Nat.toUInt64_eq, UInt64.toNat_ofNat_of_lt' hsize, hread]

/-- A number with all its bits is unpacked to its significand and exponent. -/
theorem Reads.unpack {x : Float} {v : Rat} (h : x.Reads false v) :
    ∃ s e hs, x.toModel.unpack = .finite .positive s e hs ∧ Format.double.Canonical s e ∧
      2 ^ 52 ≤ s ∧ (s : Rat) * 2 ^ e = v := by
  obtain ⟨s, e, hread, hfull, rfl⟩ := h
  obtain ⟨hcanonical, -⟩ := Format.pattern_of_read (by decide)
    (lt_of_lt_of_eq x.toBits.toNat_lt (by decide)) hread
  rw [reading_eq] at hread
  cases hunpack : x.toModel.unpack with
  | infinity sign => rw [hunpack] at hread; cases hread
  | notANumber => rw [hunpack] at hread; cases hread
  | zero sign =>
      rw [hunpack] at hread
      injection hread with _ hzero
      omega
  | finite sign m e' hm =>
      rw [hunpack] at hread
      injection hread with hsign hm' he
      subst hm' he
      cases sign with
      | negative => cases hsign
      | positive => exact ⟨_, _, hm, rfl, hcanonical, hfull, rfl⟩

/-! ## Products and quotients -/

/-- A significand with all its bits has its leading bit in front of the 52 others. -/
theorem log_of_full {s : Nat} {e : Int} (h : Format.double.Canonical s e) (hfull : 2 ^ 52 ≤ s) :
    s.log2 = 52 := (Nat.log2_eq_iff (by omega)).2 ⟨hfull, h.size⟩

/-- A packed rounding is read as a number near what was rounded. -/
theorem reads_packed {m : Nat} {e : Int} {accuracy : Accuracy} (hfull : 2 ^ 52 ≤ m)
    (hrange : Format.double.InRange ((4 * m + Format.quarters accuracy : Nat) * 2 ^ (e - 2))) :
    ∃ v, (ofModel (.pack (roundWithAccuracy .binary64 .positive m e accuracy))).Reads false v ∧
      Near v ((4 * m + Format.quarters accuracy : Nat) * 2 ^ (e - 2)) 53 := by
  have hm : 0 < m := by omega
  have hbits : (Format.ofSpec .binary64).fractionBits ≤ m.log2 := (Nat.le_log2 hm.ne').2 hfull
  obtain ⟨s, last, hread, hlarge, hnear, -⟩ := read_round_near (by omega) hrange
  have hpack := @Format.pack_round_with_accuracy .binary64 (by decide) m e .positive accuracy hm hbits
  refine ⟨_, ⟨s, last, ?_, hlarge, rfl⟩, hnear⟩
  rw [← hread]
  exact congrArg Format.double.read hpack

/-- A product is off by its part `2 ^ -53` at most. -/
theorem mul_near {x y : Float} {v w : Rat} (hx : x.Reads false v) (hy : y.Reads false w)
    (hrange : Format.double.InRange (v * w)) :
    ∃ u, (x * y).Reads false u ∧ Near u (v * w) 53 := by
  obtain ⟨s, e, hs, hunpack, hcanonical, hfull, rfl⟩ := hx.unpack
  obtain ⟨s', e', hs', hunpack', hcanonical', hfull', rfl⟩ := hy.unpack
  have hvalue : ((4 * (s * s') + Format.quarters .exact : Nat) : Rat) * 2 ^ (e + e' - 2) =
      s * 2 ^ e * (s' * 2 ^ e') := by
    rw [zpow_sub₀ two_ne_zero, two_zpow_add]
    push_cast [Format.quarters]
    ring
  rw [← hvalue] at hrange ⊢
  have hproduct : x * y =
      ofModel (.pack (roundWithAccuracy .binary64 .positive (s * s') (e + e') .exact)) := by
    show ofModel (.pack (Model.UnpackedFloat.mul .binary64 x.toModel.unpack y.toModel.unpack)) = _
    rw [hunpack, hunpack']
    rfl
  rw [hproduct]
  refine reads_packed ?_ hrange
  calc 2 ^ 52 ≤ 2 ^ 52 * 2 ^ 52 := by decide
    _ ≤ s * s' := Nat.mul_le_mul hfull hfull'

/-- The accuracy of a quotient places the true quotient within a quarter. -/
theorem quotient_near {n d : Nat} (hd : 0 < d) :
    |((4 * (n / d) + Format.quarters (accuracyOfFraction (n % d) d) : Nat) : Rat) -
      4 * (n / d : Rat)| ≤ 1 := by
  have hsplit := Nat.div_add_mod n d
  have hrest := Nat.mod_lt n hd
  have hposition : d * Format.quarters (accuracyOfFraction (n % d) d) ≤ 4 * (n % d) + d ∧
      4 * (n % d) ≤ d * Format.quarters (accuracyOfFraction (n % d) d) + d := by
    unfold accuracyOfFraction
    by_cases hzero : n % d = 0
    · rw [if_pos hzero, hzero]
      simp [Format.quarters]
    · rw [if_neg hzero]
      -- The code is one, two or three quarters, as the rest lies below, at or above one half.
      rcases h : compare (2 * (n % d)) d with _ | _ | _
      · have hlt := Nat.compare_eq_lt.1 h
        show d * 1 ≤ _ ∧ _ ≤ d * 1 + d
        omega
      · have heq := Nat.compare_eq_eq.1 h
        show d * 2 ≤ _ ∧ _ ≤ d * 2 + d
        omega
      · have hgt := Nat.compare_eq_gt.1 h
        show d * 3 ≤ _ ∧ _ ≤ d * 3 + d
        omega
  have hpos : (0 : Rat) < d := Nat.cast_pos.2 hd
  have hquotient : (n : Rat) / d = (n / d : Nat) + (n % d : Nat) / d := by
    rw [eq_comm, ← eq_sub_iff_add_eq', div_eq_iff hpos.ne', sub_mul, div_mul_cancel₀ _ hpos.ne',
      eq_sub_iff_add_eq]
    exact_mod_cast (by linarith : n % d + n / d * d = n)
  have hlow : ((d * Format.quarters (accuracyOfFraction (n % d) d) : Nat) : Rat) ≤
      (4 * (n % d) + d : Nat) := Nat.cast_le.2 hposition.1
  have hhigh : ((4 * (n % d) : Nat) : Rat) ≤
      (d * Format.quarters (accuracyOfFraction (n % d) d) + d : Nat) := Nat.cast_le.2 hposition.2
  rw [hquotient]
  push_cast at hlow hhigh ⊢
  generalize ((Format.quarters (accuracyOfFraction (n % d) d) : Nat) : Rat) = code at *
  generalize ((n % d : Nat) : Rat) = rest at *
  have hback : rest / d * d = rest := div_mul_cancel₀ _ hpos.ne'
  rw [abs_le]
  constructor <;> nlinarith

/-- With all the bits of a significand, a quarter is a small part of a quotient. -/
theorem rounded_quotient_near {n d : Nat} (hd : 0 < d) (hlarge : 2 ^ 52 ≤ n / d) :
    Near (4 * (n / d) + Format.quarters (accuracyOfFraction (n % d) d) : Nat)
      (4 * (n / d : Rat)) 52 := by
  have hfloor : ((n / d : Nat) : Rat) ≤ n / d := Nat.cast_div_le
  have hcast : ((2 ^ 52 : Nat) : Rat) ≤ (n / d : Nat) := Nat.cast_le.2 hlarge
  refine (quotient_near hd).trans ?_
  rw [le_div_iff₀ (by positivity)]
  rw [Nat.cast_pow, Nat.cast_ofNat] at hcast
  linarith

/-- The quotient of two significands with all their bits is found to 53 places. -/
theorem div_core_full {s s' : Nat} {e e' : Int} (h : Format.double.Canonical s e)
    (h' : Format.double.Canonical s' e') (hfull : 2 ^ 52 ≤ s) (hfull' : 2 ^ 52 ≤ s')
    (hexponent : -1000 ≤ e - e') :
    divCore .binary64 s e s' e' =
      (s * 2 ^ 53 / s', e - e' - 53, accuracyOfFraction (s * 2 ^ 53 % s') s') := by
  have htarget : Model.Format.binary64.targetExponent (e - e') = e - e' - 53 := by
    have hleast : Model.Format.binary64.minExponent = -1074 := by decide
    have hbits : (Model.Format.binary64.mantissaBits : Int) = 53 := by decide
    unfold Model.Format.targetExponent
    rw [hleast, hbits]
    omega
  have htotal : Model.totalExponent s e - Model.totalExponent s' e' = e - e' := by
    unfold Model.totalExponent
    rw [log_of_full h hfull, log_of_full h' hfull']
    omega
  have hmin : min (e - e') (e - e' - 53) = e - e' - 53 := by omega
  have hplaces : (e - e' - (e - e' - 53)).toNat = 53 := by omega
  unfold divCore
  rw [htotal, htarget, hmin]
  show (s <<< (e - e' - (e - e' - 53)).toNat / s', _, _) = _
  rw [hplaces, Nat.shiftLeft_eq]

/-- A quotient in quarters of its last place. -/
theorem quotient_in_quarters (s s' : Nat) (e e' : Int) :
    (s : Rat) * 2 ^ e / (s' * 2 ^ e') =
      4 * ((s * 2 ^ 53 : Nat) / s') * 2 ^ (e - e' - 53 - 2) := by
  have hplaces : e - e' - 53 - 2 = e - e' + -55 := by ring
  have hpower : (2 : Rat) ^ (-55 : Int) = 1 / 2 ^ 55 := by norm_num
  rw [hplaces, two_zpow_add, hpower, zpow_sub₀ two_ne_zero]
  push_cast
  ring

/-- A quotient is at most one binade below the difference of the exponents. -/
theorem exponent_of_quotient {s s' : Nat} {e e' low : Int} (hsize : s < 2 ^ 53)
    (hfull' : 2 ^ 52 ≤ s') (hlow : 2 ^ low ≤ (s : Rat) * 2 ^ e / (s' * 2 ^ e')) :
    low < 1 + (e - e') := by
  have hcast : (s : Rat) < 2 ^ 53 := by exact_mod_cast hsize
  have hcast' : (2 : Rat) ^ 52 ≤ s' := by exact_mod_cast hfull'
  have hpos' : (0 : Rat) < s' := lt_of_lt_of_le (by norm_num) hcast'
  have hsmall : (s : Rat) / s' < 2 := by
    rw [div_lt_iff₀ hpos']
    linarith
  refine lt_of_two_zpow_lt (lt_of_le_of_lt hlow ?_)
  rw [mul_div_mul_comm, ← zpow_sub₀ two_ne_zero, two_zpow_add, zpow_one]
  exact mul_lt_mul_of_pos_right hsmall (two_zpow_pos _)

/-- A quotient is off by its part `2 ^ -51` at most. -/
theorem div_near {x y : Float} {v w : Rat} (hx : x.Reads false v) (hy : y.Reads false w)
    (hlow : 2 ^ (-900 : Int) ≤ v / w) (hhigh : v / w ≤ 2 ^ (900 : Int)) :
    ∃ u, (x / y).Reads false u ∧ Near u (v / w) 51 := by
  obtain ⟨s, e, hs, hunpack, hcanonical, hfull, rfl⟩ := hx.unpack
  obtain ⟨s', e', hs', hunpack', hcanonical', hfull', rfl⟩ := hy.unpack
  have hexponent := exponent_of_quotient hcanonical.size hfull' hlow
  have hcore := div_core_full hcanonical hcanonical' hfull hfull' (by omega)
  have hquotient : x / y = ofModel (.pack (roundWithAccuracy .binary64 .positive
      (s * 2 ^ 53 / s') (e - e' - 53) (accuracyOfFraction (s * 2 ^ 53 % s') s'))) := by
    show ofModel (.pack (Model.UnpackedFloat.div .binary64 x.toModel.unpack y.toModel.unpack)) = _
    rw [hunpack, hunpack']
    simp only [Model.UnpackedFloat.div, hcore]
    rfl
  have hlarge : 2 ^ 52 ≤ s * 2 ^ 53 / s' := by
    rw [Nat.le_div_iff_mul_le hs']
    exact Nat.mul_le_mul hfull hcanonical'.size.le
  -- What is rounded is the quotient up to a quarter of its last place.
  have hnear := (rounded_quotient_near hs' hlarge).mul_right (two_zpow_pos (e - e' - 53 - 2)).le
  rw [← quotient_in_quarters] at hnear
  obtain ⟨u, hu, herror⟩ := reads_packed hlarge (in_range_of_near hnear hlow hhigh)
  rw [hquotient]
  exact ⟨u, hu, herror.trans hnear (lt_of_lt_of_le (two_zpow_pos _) hlow)⟩

/-! ## Sign and range -/

/-- Numbers that are read are not infinite. -/
theorem Reads.not_inf {x : Float} {v : Rat} (h : x.Reads false v) : x.isInf = false := by
  obtain ⟨s, e, hs, hunpack, -⟩ := h.unpack
  show x.toModel.unpack.isInf = false
  rw [hunpack]
  rfl

/-- Negation sets the sign. -/
theorem Reads.neg {x : Float} {v : Rat} (h : x.Reads false v) : (-x).Reads true v := by
  obtain ⟨s, e, hs, hunpack, hcanonical, hfull, hvalue⟩ := h.unpack
  refine ⟨s, e, ?_, hfull, hvalue⟩
  have hneg : -x = ofModel (.pack (.finite .negative s e hs)) := by
    show ofModel (.pack x.toModel.unpack.neg) = _
    rw [hunpack]
    rfl
  have hpack := @Format.to_nat_pack_finite .binary64 .negative s e hs hcanonical
  have hread := hcanonical.read_pattern true
  rw [hneg, ← hread]
  exact congrArg Format.double.read hpack

end Float

namespace Float32

open SynthRack

/-- A number in single precision is read as what it is unpacked to. -/
theorem reading_eq (x : Float32) :
    x.reading = Format.unpackedReading .single x.toModel.unpack :=
  @Format.read_unpack .binary32 x.toModel.toBits.toBitVec

/-- A finite number is read as the number that its pattern stands for. -/
theorem reading_of_finite {x : Float32} (h : x.isFinite = true) :
    ∃ negative s e, x.reading = .finite negative s e ∧ Format.single.Canonical s e ∧
      x.toBits.toNat = Format.single.signBits negative + Format.single.pattern s e := by
  have hread : ∃ negative s e, x.reading = .finite negative s e := by
    have hunpacked : x.toModel.unpack.isFinite = true := h
    rw [reading_eq]
    cases hunpack : x.toModel.unpack with
    | infinity sign => rw [hunpack] at hunpacked; cases hunpacked
    | notANumber => rw [hunpack] at hunpacked; cases hunpacked
    | zero sign => exact ⟨_, _, _, rfl⟩
    | finite sign m e hm => exact ⟨_, _, _, rfl⟩
  obtain ⟨negative, s, e, hread⟩ := hread
  have hbits : x.toBits.toNat < 2 * Format.single.signMask :=
    lt_of_lt_of_eq x.toBits.toNat_lt (by decide)
  obtain ⟨hcanonical, hpattern⟩ := Format.pattern_of_read (by decide) hbits hread
  exact ⟨negative, s, e, hread, hcanonical, hpattern⟩

end Float32
