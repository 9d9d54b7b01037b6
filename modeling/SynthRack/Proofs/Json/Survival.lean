import Mathlib
import SynthRack.Proofs.Json.Decimal
import SynthRack.Proofs.Json.Reading
import SynthRack.Proofs.Numeral.Arithmetic
import SynthRack.Proofs.Numeral.Shortest

/-!
# Numbers survive their text

A finite single-precision number is widened without loss, printed as its shortest decimal in double
precision, and read from that decimal by a rounded product or quotient. Every step is off by a few
last places of double precision at most, which is far less than half a last place of single
precision, so narrowing finds the number again (`number_survives`).
-/

namespace SynthRack

open Json (scaleByTen powersOfTen significandLimit)

/-! ## Powers of ten -/

/-- The table of powers holds the readings of the powers of ten, as far as it goes. -/
theorem powers_of_ten_get_d {n : Nat} (hn : n ≤ Json.largestPower) :
    powersOfTen.getD n 1 = Float.ofReading (.finite false (10 ^ n) 0) := by
  have hsize : n < powersOfTen.size := by
    simp [powersOfTen]
    omega
  rw [Array.getD_eq_getD_getElem?, Array.getElem?_eq_getElem hsize, Option.getD_some]
  simp [powersOfTen]

/-- Powers of ten up to the largest that is needed lie well within double precision. -/
theorem ten_pow_bounds {n : Nat} (hn : n ≤ 70) : (1 : Rat) ≤ 10 ^ n ∧ (10 : Rat) ^ n ≤ 2 ^ 240 := by
  refine ⟨one_le_pow₀ (by norm_num), ?_⟩
  calc (10 : Rat) ^ n ≤ 10 ^ 70 := pow_le_pow_right₀ (by norm_num) hn
    _ ≤ 2 ^ 240 := by norm_num

/-- A positive integer well within the range is rounded to a number near it. -/
theorem reads_nat {n : Nat} (hn : 0 < n) (hbound : (n : Rat) ≤ 2 ^ (1000 : Int)) :
    ∃ v, (Float.ofReading (.finite false n 0)).Reads false v ∧ Near v n 53 := by
  have hvalue : (n : Rat) * 2 ^ (0 : Int) = n := by
    rw [zpow_zero, mul_one]
  have hone : (1 : Rat) ≤ n := by exact_mod_cast hn
  have hrange : Format.double.InRange ((n : Rat) * 2 ^ (0 : Int)) := by
    rw [hvalue]
    refine Float.in_range_double (le_trans ?_ hone) hbound
    exact zpow_le_one_of_nonpos₀ one_le_two (by decide)
  have hnear := Float.reads_nearest hn hrange
  rwa [hvalue] at hnear

/-- A power of ten in the table is off by its part `2 ^ -53` at most. -/
theorem power_near {n : Nat} (hn : n ≤ 70) :
    ∃ w, (powersOfTen.getD n 1).Reads false w ∧ Near w (10 ^ n) 53 := by
  have hbound : ((10 ^ n : Nat) : Rat) ≤ 2 ^ (1000 : Int) := by
    calc ((10 ^ n : Nat) : Rat) = 10 ^ n := by rw [Nat.cast_pow, Nat.cast_ofNat]
      _ ≤ 2 ^ (240 : Int) := (ten_pow_bounds hn).2
      _ ≤ 2 ^ (1000 : Int) := two_zpow_le (by omega)
  have hnear := reads_nat (by positivity) hbound
  rw [powers_of_ten_get_d (hn.trans (by decide))]
  rwa [Nat.cast_pow, Nat.cast_ofNat] at hnear

/-- A significand becomes a number that is off by its part `2 ^ -53` at most. -/
theorem nearest_int_near {m : Nat} (hm : 0 < m) (hsize : m < significandLimit) :
    ∃ v, (Float.nearestInt m).Reads false v ∧ Near v m 53 := by
  have hbound : (m : Rat) ≤ 2 ^ (1000 : Int) := by
    calc (m : Rat) ≤ (2 ^ 64 : Nat) := Nat.cast_le.2 (le_of_lt hsize)
      _ = 2 ^ (64 : Int) := by rw [Nat.cast_pow, Nat.cast_ofNat, ← zpow_natCast, Nat.cast_ofNat]
      _ ≤ 2 ^ (1000 : Int) := two_zpow_le (by omega)
  have hreading : Float.nearestInt m = Float.ofReading (.finite false m 0) := by
    have hsign : decide ((m : Int) < 0) = false := by
      rw [decide_eq_false_iff_not]
      omega
    rw [Float.nearestInt, hsign, Int.natAbs_natCast]
  rw [hreading]
  exact reads_nat hm hbound

/-! ## Moving the decimal point -/

/-- What is near a number from one to a power of two is hardly less or more. -/
theorem bounds_of_near {v a : Rat} {bits count : Nat} (h : Near v a (bits + 1)) (hone : 1 ≤ a)
    (hbound : a ≤ 2 ^ count) : 1 / 2 ≤ v ∧ v ≤ 2 ^ (count + 1) := by
  obtain ⟨hlow, hhigh⟩ := h.bounds (lt_of_lt_of_le one_pos hone)
  rw [pow_succ]
  constructor <;> linarith

/-- The quotient of a significand and a power stays far from both ends of the range. -/
theorem quotient_in_range {v w : Rat} (hv : 1 / 2 ≤ v ∧ v ≤ 2 ^ 65)
    (hw : 1 / 2 ≤ w ∧ w ≤ 2 ^ 241) :
    2 ^ (-900 : Int) ≤ v / w ∧ v / w ≤ 2 ^ (900 : Int) := by
  have hwpos : 0 < w := lt_of_lt_of_le one_half_pos hw.1
  rw [le_div_iff₀ hwpos, div_le_iff₀ hwpos]
  constructor
  · calc (2 : Rat) ^ (-900 : Int) * w ≤ 2 ^ (-900 : Int) * 2 ^ (241 : Int) :=
          mul_le_mul_of_nonneg_left hw.2 (two_zpow_pos _).le
      _ = 2 ^ (-900 + 241 : Int) := (two_zpow_add ..).symm
      _ ≤ 2 ^ (-1 : Int) := two_zpow_le (by omega)
      _ = 1 / 2 := by rw [zpow_neg_one, inv_eq_one_div]
      _ ≤ v := hv.1
  · calc v ≤ 2 ^ (65 : Int) := hv.2
      _ ≤ 2 ^ (900 + -1 : Int) := two_zpow_le (by omega)
      _ = 2 ^ (900 : Int) * (1 / 2) := by rw [two_zpow_add, zpow_neg_one, inv_eq_one_div]
      _ ≤ 2 ^ (900 : Int) * w := mul_le_mul_of_nonneg_left hw.1 (two_zpow_pos _).le

section

variable {x y : Float} {v w a b : Rat}

/-- The point moves right by one product. -/
theorem moved_right (hx : x.Reads false v) (hy : y.Reads false w) (hv : Near v a 53)
    (hw : Near w b 53) (ha : 1 ≤ a ∧ a ≤ 2 ^ 64) (hb : 1 ≤ b ∧ b ≤ 2 ^ 240) :
    ∃ u, (x * y).Reads false u ∧ Near u (a * b) 49 := by
  have hapos : 0 < a := lt_of_lt_of_le one_pos ha.1
  have hbpos : 0 < b := lt_of_lt_of_le one_pos hb.1
  have hpos := mul_pos hapos hbpos
  have hproduct : Near (v * w) (a * b) 51 :=
    hv.mul (hw.mono hbpos.le (by omega)) hapos hbpos
  have hlow : 2 ^ (-900 : Int) ≤ a * b :=
    (zpow_le_one_of_nonpos₀ one_le_two (by decide)).trans (one_le_mul_of_one_le_of_one_le ha.1 hb.1)
  have hhigh : a * b ≤ 2 ^ (900 : Int) := by
    calc a * b ≤ 2 ^ 64 * 2 ^ 240 := mul_le_mul ha.2 hb.2 hbpos.le (by positivity)
      _ = 2 ^ (304 : Int) := (pow_add (2 : Rat) 64 240).symm
      _ ≤ 2 ^ (900 : Int) := two_zpow_le (by omega)
  obtain ⟨u, hu, hnear⟩ := Float.mul_near hx hy (Float.in_range_of_near hproduct hlow hhigh)
  have hvw : 0 ≤ v * w := (half_pos hpos).le.trans (hproduct.bounds hpos).1
  exact ⟨u, hu, (hnear.mono hvw (by omega)).trans (hproduct.mono hpos.le (by omega)) hpos⟩

/-- The point moves left by one quotient. -/
theorem moved_left (hx : x.Reads false v) (hy : y.Reads false w) (hv : Near v a 53)
    (hw : Near w b 53) (ha : 1 ≤ a ∧ a ≤ 2 ^ 64) (hb : 1 ≤ b ∧ b ≤ 2 ^ 240) :
    ∃ u, (x / y).Reads false u ∧ Near u (a * b⁻¹) 49 := by
  have hapos : 0 < a := lt_of_lt_of_le one_pos ha.1
  have hbpos : 0 < b := lt_of_lt_of_le one_pos hb.1
  have hipos : 0 < b⁻¹ := inv_pos.2 hbpos
  have hinv : Near w⁻¹ b⁻¹ 52 := hw.inv hbpos
  have hquotient : Near (v / w) (a * b⁻¹) 50 := by
    rw [div_eq_mul_inv]
    exact (hv.mono hapos.le (by omega)).mul (hinv.mono hipos.le (by omega)) hapos hipos
  obtain ⟨hlow, hhigh⟩ :=
    quotient_in_range (bounds_of_near hv ha.1 ha.2) (bounds_of_near hw hb.1 hb.2)
  obtain ⟨u, hu, hnear⟩ := Float.div_near hx hy hlow hhigh
  exact ⟨u, hu, hnear.trans hquotient (mul_pos hapos hipos)⟩

end

/-- Digits that fit 64 bits are moved by a power of ten with a few last places of error. -/
theorem scale_near {m : Nat} {exponent : Int} (hm : 0 < m) (hsize : m < significandLimit)
    (hlow : -70 ≤ exponent) (hhigh : exponent ≤ 70) :
    ∃ y v, scaleByTen (Float.nearestInt m) exponent = some y ∧ y.Reads false v ∧
      Near v (m * 10 ^ exponent) 49 := by
  have hplaces : exponent.natAbs ≤ 70 := by omega
  obtain ⟨v, hv, hvnear⟩ := nearest_int_near hm hsize
  obtain ⟨w, hw, hwnear⟩ := power_near hplaces
  have hdigits : (1 : Rat) ≤ m ∧ (m : Rat) ≤ 2 ^ 64 :=
    ⟨by exact_mod_cast hm, by exact_mod_cast le_of_lt hsize⟩
  have hpower := ten_pow_bounds hplaces
  have hsmall : exponent.natAbs ≤ Json.largestPower := hplaces.trans (by decide)
  unfold scaleByTen
  rw [dif_pos hsmall]
  dsimp only
  by_cases hsign : 0 ≤ exponent
  · have hten : (10 : Rat) ^ exponent = 10 ^ exponent.natAbs := by
      rw [← zpow_natCast]
      congr 1
      omega
    obtain ⟨u, hu, hnear⟩ := moved_right hv hw hvnear hwnear hdigits hpower
    rw [if_pos hsign, hu.not_inf, hten]
    exact ⟨_, u, rfl, hu, hnear⟩
  · have hten : (10 : Rat) ^ exponent = (10 ^ exponent.natAbs)⁻¹ := by
      rw [← zpow_natCast, ← zpow_neg]
      congr 1
      omega
    obtain ⟨u, hu, hnear⟩ := moved_left hv hw hvnear hwnear hdigits hpower
    rw [if_neg hsign, hten]
    exact ⟨_, u, rfl, hu, hnear⟩

/-! ## From single precision to text and back -/

/-- Every positive number of single precision is a number of double precision with all its bits. -/
theorem widened {s : Nat} {e : Int} (hs : 0 < s) (h : Format.single.Canonical s e) :
    ∃ wide last, Format.double.Canonical wide last ∧ 2 ^ 52 ≤ wide ∧
      (wide : Rat) * 2 ^ last = s * 2 ^ e ∧ -201 ≤ last ∧ last ≤ 75 := by
  have hlog : s.log2 < 24 := (Nat.log2_lt hs.ne').2 h.size
  have hlow := Nat.log2_self_le hs.ne'
  have hhigh : s < 2 ^ (s.log2 + 1) := Nat.lt_log2_self
  have hleast : -149 ≤ e := h.least
  have hgreatest : e + 149 + 2 < 256 := by
    have hfinite := h.finite
    have hend : Format.single.leastExponent = -149 := by decide
    rw [hend] at hfinite
    have hmany : (2 : Int) ^ Format.single.exponentBits = 256 := by decide
    omega
  have hplaces : s.log2 + (52 - s.log2) = 52 := by omega
  have hwide : 2 ^ 52 ≤ s * 2 ^ (52 - s.log2) := by
    calc 2 ^ 52 = 2 ^ s.log2 * 2 ^ (52 - s.log2) := by rw [← pow_add, hplaces]
      _ ≤ s * 2 ^ (52 - s.log2) := Nat.mul_le_mul_right _ hlow
  have hfits : s * 2 ^ (52 - s.log2) < 2 ^ 53 := by
    calc s * 2 ^ (52 - s.log2) < 2 ^ (s.log2 + 1) * 2 ^ (52 - s.log2) :=
          Nat.mul_lt_mul_of_pos_right hhigh (by positivity)
      _ = 2 ^ 53 := by
          rw [← pow_add]
          congr 1
          omega
  -- The significand is moved up until it has all its bits.
  refine ⟨s * 2 ^ (52 - s.log2), e - (52 - s.log2 : Nat), ⟨?_, hfits, ?_, ?_⟩, hwide, ?_, by omega,
    by omega⟩
  · show (-1074 : Int) ≤ _
    omega
  · intro hlt
    exact absurd hwide (not_le.2 hlt)
  · show e - (52 - s.log2 : Nat) - (-1074) + 2 < 2048
    omega
  · rw [zpow_sub₀ two_ne_zero, zpow_natCast]
    push_cast
    field_simp

/-- Widening loses nothing. -/
theorem widen_reading {x : Float32} {negative : Bool} {s : Nat} {e : Int}
    (hread : x.reading = .finite negative s e) (h : Format.single.Canonical s e) (hs : 0 < s) :
    ∃ wide last, x.widen.reading = .finite negative wide last ∧ 2 ^ 52 ≤ wide ∧ wide < 2 ^ 53 ∧
      (wide : Rat) * 2 ^ last = s * 2 ^ e ∧ -201 ≤ last ∧ last ≤ 75 := by
  obtain ⟨wide, last, hcanonical, hfull, hvalue, hlow, hhigh⟩ := widened hs h
  refine ⟨wide, last, ?_, hfull, hcanonical.size, hvalue, hlow, hhigh⟩
  have hround : Format.double.roundSize s e = Format.double.pattern wide last := by
    refine Format.round_eq_of_near hs hcanonical ?_
    rw [hvalue, sub_self, abs_zero]
    exact div_pos (two_zpow_pos last) (by norm_num)
  have hsize : Format.double.signBits negative + Format.double.pattern wide last < UInt64.size := by
    have hpattern := hcanonical.pattern_lt
    have hsign : Format.double.signBits negative ≤ Format.double.signMask := by
      unfold Format.signBits
      split <;> omega
    calc _ < Format.double.signMask + Format.double.signMask := by omega
      _ = UInt64.size := by decide
  unfold Float32.widen
  rw [Float.reading_of_bits, hread]
  show Format.double.read
    (Format.double.signBits negative + Format.double.roundSize s e).toUInt64.toNat = _
  rw [hround, Nat.toUInt64_eq, UInt64.toNat_ofNat_of_lt' hsize]
  exact hcanonical.read_pattern negative

/-- What is near a number of single precision is narrowed to it. -/
theorem narrow_near {x : Float32} {y : Float} {negative : Bool} {s : Nat} {e : Int} {v : Rat}
    (h : Format.single.Canonical s e)
    (hbits : x.toBits.toNat = Format.single.signBits negative + Format.single.pattern s e)
    (hy : y.Reads negative v) (hnear : Near v (s * 2 ^ e) 47) : y.narrow = x := by
  obtain ⟨wide, last, hread, hfull, rfl⟩ := hy
  have hclose : |(wide : Rat) * 2 ^ last - s * 2 ^ e| < 2 ^ e / 4 := by
    refine lt_of_le_of_lt hnear ?_
    have hsize : (s : Rat) < 2 ^ 24 := by exact_mod_cast h.size
    have hpos := two_zpow_pos e
    rw [div_lt_div_iff₀ (by positivity) (by norm_num)]
    nlinarith
  have hround := Format.round_eq_of_near (by omega) h hclose
  unfold Float.narrow Float32.ofReading
  rw [hread]
  show Float32.ofBits (Format.single.signBits negative +
    Format.single.roundSize wide last).toUInt32 = x
  rw [hround, ← hbits, Nat.toUInt32_eq, UInt32.ofNat_toNat, Float32.ofBits_toBits]

/-- A number that is not zero is printed as a sign and its shortest decimal. -/
theorem print_float_chars {x : Float} {negative : Bool} {s : Nat} {e : Int} {d : Decimal}
    (hread : x.reading = .finite negative s e) (hs : 0 < s)
    (hshortest : Decimal.shortest? .double .toEven s e = some d) :
    (Json.printFloat x).toList = (if negative then ['-'] else []) ++ Json.printDecimal d := by
  unfold Json.printFloat
  rw [hread]
  dsimp only
  rw [if_neg hs.ne', hshortest, String.toList_ofList]
  cases negative <;> rfl

/-- Both zeros are written with their sign and one digit on either side of the point. -/
theorem zero_survives {x : Float32} {negative : Bool}
    (hx : x = .ofBits (Format.single.signBits negative).toUInt32) :
    ∃ y, Json.NumberReadsAs x.widen y ∧ y.narrow = x := by
  subst hx
  have hwhole : Json.Numeral.wholeOk ['0'] = true := rfl
  have hall : ∀ c ∈ ['0'] ++ ['0'], c.isDigit = true := by
    intro c hc
    have hc : c ∈ List.replicate 2 '0' := hc
    rw [List.eq_of_mem_replicate hc]
    decide
  have hwrites := Json.Numeral.point_writes negative hwhole (List.cons_ne_nil '0' []) hall
  have hscale : scaleByTen (Float.nearestInt (0 : Nat)) (-(['0'].length : Nat)) =
      some (Float.nearestInt (0 : Nat) / Float.ofReading (.finite false (10 ^ 1) 0)) := by
    have hplaces : (-(['0'].length : Nat) : Int).natAbs = 1 := rfl
    unfold scaleByTen
    rw [hplaces, dif_pos (by decide), powers_of_ten_get_d (by decide)]
    rfl
  have hvalue := hwrites.to_float (by decide)
  have hdigits : Json.Numeral.natOfDigits (['0'] ++ ['0']) = 0 := rfl
  rw [hdigits, hscale] at hvalue
  let size := Float.nearestInt (0 : Nat) / Float.ofReading (.finite false (10 ^ 1) 0)
  refine ⟨if negative then -size else size, ⟨_, hwrites.parts, ?_, ?_⟩, ?_⟩
  · cases negative <;> decide +kernel
  · unfold Json.Numeral.value?
    rw [if_pos hwrites.formed, hwrites.decimal, hvalue]
    rfl
  · cases negative <;> decide +kernel

/-- A finite single-precision number is printed as a number that is read as the same. -/
theorem number_survives {x : Float32} (hx : x.isFinite = true) :
    ∃ y, Json.NumberReadsAs x.widen y ∧ y.narrow = x := by
  obtain ⟨negative, s, e, hread, hcanonical, hbits⟩ := Float32.reading_of_finite hx
  rcases Nat.eq_zero_or_pos s with rfl | hs
  -- Zero has no leading bit to move up, and only two patterns.
  · have hleast : e = Format.single.leastExponent := hcanonical.small (by decide)
    have hzero : Format.single.pattern 0 e = 0 := by
      unfold Format.pattern
      rw [hleast, sub_self]
      rfl
    rw [hzero, Nat.add_zero] at hbits
    have hx : x = .ofBits (Format.single.signBits negative).toUInt32 := by
      rw [← hbits, Nat.toUInt32_eq, UInt32.ofNat_toNat, Float32.ofBits_toBits]
    exact zero_survives hx
  obtain ⟨wide, last, hwide, hfull, hsize, hvalue, hlow, hhigh⟩ :=
    widen_reading hread hcanonical hs
  obtain ⟨d, hshortest, hdecimal, hpos, hfew, hleast, hgreatest⟩ :=
    Decimal.shortest_near .toEven hfull hsize hlow hhigh
  obtain ⟨n, digits, exponent, hwrites, hsame, hdigits, hfits, hbelow, habove⟩ :=
    Json.Numeral.print_decimal_writes negative hpos hfew hleast hgreatest
  obtain ⟨y, v, hscale, hy, hnear⟩ := scale_near hdigits hfits hbelow habove
  have hsigned : (if negative then -y else y).Reads negative v := by
    cases negative with
    | true => exact hy.neg
    | false => exact hy
  refine ⟨if negative then -y else y, ⟨n, hwrites.parts, ?_, ?_⟩, ?_⟩
  · rw [print_float_chars hwide (by omega) hshortest, hwrites.text_eq]
  · unfold Json.Numeral.value?
    rw [if_pos hwrites.formed, hwrites.decimal, hwrites.to_float hfits, hscale]
    rfl
  -- From the number over its decimal to what was read, the errors add up to less than enough.
  · refine narrow_near hcanonical hbits hsigned ?_
    have hexact : (0 : Rat) < s * 2 ^ e := mul_pos (Nat.cast_pos.2 hs) (two_zpow_pos e)
    rw [hsame] at hnear
    rw [hvalue] at hdecimal
    exact (hnear).trans (hdecimal.mono hexact.le (by decide)) hexact

end SynthRack
