import Mathlib
import SynthRack.Play.Wav
import SynthRack.Proofs.Signal.Addition

/-!
# Samples of sound files

A sound file keeps an integer of 16 bits for each sample. `kept_iff` says which one: the sample
clipped to one, stretched in single precision and cut toward zero. Nothing is lost on the way but
what the product rounds: clipping agrees with the order of numbers (`clipped_value`), the product
stays between the ends of the range because rounding keeps the order (`stretched_value`), and its
whole part fits a word (`whole_value`).
-/

namespace SynthRack

open Float.Model (UnpackedFloat)
open Float.Model.UnpackedFloat (Sign)

/-! ## Numbers of readings -/

/-- The number with this sign and size. -/
def signed (negative : Bool) (size : Rat) : Rat := if negative then -size else size

namespace Reading

/-- The number that a reading stands for. -/
def value? : Reading → Option Rat
  | .finite negative s e => some (signed negative (s * 2 ^ e))
  | _ => none

/-- The number from minus one to one that is nearest to what a reading stands for. -/
def clipped? : Reading → Option Rat
  | .finite negative s e => some (max (-1) (min 1 (signed negative (s * 2 ^ e))))
  | .infinite negative => some (signed negative 1)
  | .nan => none

/-- A number is clipped to the nearest one between minus one and one. -/
theorem clipped_of_value {r : Reading} {v : Rat} (h : r.value? = some v) :
    r.clipped? = some (max (-1) (min 1 v)) := by
  cases r with
  | finite negative s e =>
      obtain rfl := Option.some.inj h
      rfl
  | _ => cases h

/-- Only what is no number cannot be clipped. -/
theorem clipped_eq_none {r : Reading} : r.clipped? = none ↔ r = .nan := by
  cases r <;> simp [clipped?]

/-- What is clipped lies between minus one and one. -/
theorem clipped_bounds {r : Reading} {v : Rat} (h : r.clipped? = some v) : -1 ≤ v ∧ v ≤ 1 := by
  cases r with
  | finite negative s e =>
      obtain rfl := Option.some.inj h
      exact ⟨le_max_left _ _, max_le (by norm_num) (min_le_left _ _)⟩
  | infinite negative =>
      obtain rfl := Option.some.inj h
      cases negative <;> norm_num [signed]
  | nan => cases h

end Reading

/-- The whole part of a number, cut toward zero. -/
def truncated (v : Rat) : Int := if v < 0 then ⌈v⌉ else ⌊v⌋

/-- A number that is not negative is cut to its floor. -/
theorem truncated_of_nonneg {v : Rat} (h : 0 ≤ v) : truncated v = ⌊v⌋ := if_neg h.not_gt

/-- Cutting toward zero does not see the sign. -/
theorem truncated_neg {v : Rat} (h : 0 ≤ v) : truncated (-v) = -truncated v := by
  rcases h.eq_or_lt with rfl | hpos
  · rfl
  · rw [truncated_of_nonneg h, truncated, if_pos (neg_neg_of_pos hpos), Int.ceil_neg]

/-- A number with a sign is cut to the floor of its size, with that sign. -/
theorem truncated_signed (negative : Bool) {size : Rat} (h : 0 ≤ size) :
    truncated (signed negative size) = if negative then -⌊size⌋ else ⌊size⌋ := by
  cases negative with
  | false => exact truncated_of_nonneg h
  | true => exact (truncated_neg h).trans (congrArg Neg.neg (truncated_of_nonneg h))

/-- Every pattern below infinity is that of a number of the format. -/
theorem Format.exists_canonical {f : Format} {p : Nat} (hwide : 2 ≤ f.exponentBits)
    (h : p < f.infinity) : ∃ s e, f.Canonical s e ∧ f.pattern s e = p := by
  have hmask : f.infinity ≤ f.signMask := by
    rw [infinity, sign_mask_eq]
    exact Nat.mul_le_mul_right _ (Nat.sub_le _ _)
  have hread : ∃ negative s e, f.read p = .finite negative s e := by
    have hfield : p / Nat.pow 2 f.fractionBits % Nat.pow 2 f.exponentBits ≠ f.specialField :=
      ((Nat.mod_le _ _).trans_lt ((Nat.div_lt_iff_lt_mul (Nat.two_pow_pos _)).2 h)).ne
    unfold read
    dsimp only
    rw [if_neg hfield]
    split <;> exact ⟨_, _, _, rfl⟩
  obtain ⟨negative, s, e, hread⟩ := hread
  obtain ⟨hcanonical, hbits⟩ := pattern_of_read hwide (by omega) hread
  cases negative with
  | false => exact ⟨s, e, hcanonical, (hbits.trans (Nat.zero_add _)).symm⟩
  | true =>
      have hsign : f.signBits true = f.signMask := rfl
      omega

namespace Wav

variable {x y : Float32} {v w : Rat}

/-- What has a value is a zero or finite. -/
theorem unpack_of_value (h : x.reading.value? = some v) :
    (∃ sign, x.toModel.unpack = .zero sign ∧ v = 0) ∨
      ∃ sign m e hm, x.toModel.unpack = .finite sign m e hm ∧
        v = signed (Format.isNegative sign) (m * 2 ^ e) := by
  rw [Float32.reading_eq] at h
  cases hx : x.toModel.unpack with
  | notANumber => rw [hx] at h; cases h
  | infinity sign => rw [hx] at h; cases h
  | zero sign =>
      rw [hx] at h
      refine .inl ⟨sign, rfl, (Option.some.inj h).symm.trans ?_⟩
      cases sign <;> simp [signed, Format.isNegative]
  | finite sign m e hm =>
      rw [hx] at h
      exact .inr ⟨sign, m, e, hm, rfl, (Option.some.inj h).symm⟩

/-- The value of a finite number, from what it is unpacked to. -/
theorem value_of_unpack {sign : Sign} {m : Nat} {e : Int} {hm : 0 < m}
    (hx : x.toModel.unpack = .finite sign m e hm) :
    x.reading.value? = some (signed (Format.isNegative sign) (m * 2 ^ e)) := by
  rw [Float32.reading_eq, hx]
  rfl

/-- The value of one. -/
theorem value_one : (1 : Float32).reading.value? = some 1 := by
  rw [value_of_unpack Addition.unpack_one]
  norm_num [signed, Format.isNegative]

/-- Minus one, unpacked. -/
theorem unpack_neg_one :
    (-1 : Float32).toModel.unpack = .finite .negative (2 ^ 23) (-23) (by positivity) := rfl

/-- The value of minus one. -/
theorem value_neg_one : (-1 : Float32).reading.value? = some (-1) := by
  rw [value_of_unpack unpack_neg_one]
  norm_num [signed, Format.isNegative]

/-- Numbers are compared by their values. -/
theorem lt_iff_value (hx : x.reading.value? = some v) (hy : y.reading.value? = some w) :
    x < y ↔ v < w := by
  have hpos {m : Nat} (hm : 0 < m) (e : Int) : (0 : Rat) < m * 2 ^ e :=
    mul_pos (Nat.cast_pos.2 hm) (two_zpow_pos e)
  rcases unpack_of_value hx with ⟨sign, hux, rfl⟩ | ⟨sign, m, e, hm, hux, rfl⟩ <;>
    rcases unpack_of_value hy with ⟨sign', huy, rfl⟩ | ⟨sign', n, d, hn, huy, rfl⟩ <;>
    rw [Duration.lt_iff, hux, huy]
  · simp [UnpackedFloat.compare]
  · have hsize := hpos hn d
    cases sign' <;> simp [UnpackedFloat.compare, signed, Format.isNegative, hsize, hsize.le]
  · have hsize := hpos hm e
    cases sign <;> simp [UnpackedFloat.compare, signed, Format.isNegative, hsize, hsize.le]
  · have hx := hpos hm e
    have hy := hpos hn d
    have hcanonical := Float32.canonical_of_unpack hux
    have hcanonical' := Float32.canonical_of_unpack huy
    cases sign with
    | positive =>
        cases sign' with
        | positive =>
            show some ((compare e d).then (compare m n)) = some .lt ↔ _ < _
            rw [Option.some.injEq]
            exact hcanonical.compare_eq_lt_iff hcanonical'
        | negative =>
            show some Ordering.gt = some .lt ↔ (m : Rat) * 2 ^ e < -(n * 2 ^ d)
            exact iff_of_false (by decide) (by linarith)
    | negative =>
        cases sign' with
        | positive =>
            show some Ordering.lt = some .lt ↔ -((m : Rat) * 2 ^ e) < n * 2 ^ d
            exact iff_of_true rfl (by linarith)
        | negative =>
            -- Sizes of negative numbers are compared the other way round.
            show some ((compare e d).then (compare m n)).swap = some .lt ↔
              -((m : Rat) * 2 ^ e) < -(n * 2 ^ d)
            rw [Option.some.injEq, Ordering.swap_then, ← Std.OrientedCmp.eq_swap,
              ← Std.OrientedCmp.eq_swap, neg_lt_neg_iff]
            exact hcanonical'.compare_eq_lt_iff hcanonical

/-! ## Clipping -/

/-- A sample from minus one to one, and the nearer of the two otherwise. -/
def clipped (sample : Float32) : Float32 :=
  if 1 < sample then 1 else if sample < -1 then -1 else sample

/-- Clipping a finite number is clipping its value. -/
theorem clipped_finite (h : x.reading.value? = some v) :
    (clipped x).reading.value? = some (max (-1) (min 1 v)) := by
  unfold clipped
  by_cases hhigh : 1 < x
  · rw [if_pos hhigh, min_eq_left ((lt_iff_value value_one h).1 hhigh).le]
    exact value_one
  by_cases hlow : x < -1
  · have hv : v < -1 := (lt_iff_value h value_neg_one).1 hlow
    rw [if_neg hhigh, if_pos hlow, min_eq_right (by linarith), max_eq_left hv.le]
    exact value_neg_one
  · have hle : v ≤ 1 := not_lt.1 (mt (lt_iff_value value_one h).2 hhigh)
    have hge : -1 ≤ v := not_lt.1 (mt (lt_iff_value h value_neg_one).2 hlow)
    rw [if_neg hhigh, if_neg hlow, min_eq_right hle, max_eq_right hge, h]

/-- Clipping a number, finite or not, is clipping its value. -/
theorem clipped_value (h : x.reading.clipped? = some v) : (clipped x).reading.value? = some v := by
  cases hvalue : x.reading.value? with
  | some u =>
      rw [Reading.clipped_of_value hvalue] at h
      exact (clipped_finite hvalue).trans h
  | none =>
      rw [Float32.reading_eq] at h hvalue
      cases hx : x.toModel.unpack with
      | notANumber => rw [hx] at h; cases h
      | zero sign => rw [hx] at hvalue; cases hvalue
      | finite sign m e hm => rw [hx] at hvalue; cases hvalue
      | infinity sign =>
          rw [hx] at h
          cases sign with
          | positive =>
              have hhigh : 1 < x := Duration.lt_iff.2 (hx ▸ rfl)
              rw [clipped, if_pos hhigh]
              exact value_one.trans h
          | negative =>
              have hlow : x < -1 := Duration.lt_iff.2 (hx ▸ rfl)
              have hhigh : ¬ 1 < x := fun h => absurd (hx ▸ Duration.lt_iff.1 h) (by decide)
              rw [clipped, if_neg hhigh, if_pos hlow]
              exact value_neg_one.trans h

/-! ## Stretching -/

/-- The largest level, unpacked. -/
theorem unpack_stretch :
    (32767 : Float32).toModel.unpack = .finite .positive 16776704 (-9) (by decide) := rfl

/-- Stretching keeps the sign, and what is at most one becomes at most the largest level. -/
theorem stretched_value (h : x.reading.value? = some v) (hlow : -1 ≤ v) (hhigh : v ≤ 1) :
    ∃ negative s e, (x * 32767).reading = .finite negative s e ∧ (s : Rat) * 2 ^ e ≤ 32767 := by
  rcases unpack_of_value h with ⟨sign, hx, rfl⟩ | ⟨sign, m, e, hm, hx, rfl⟩
  · have hzero : (x * 32767).toModel.unpack = .zero (sign * .positive) := by
      rw [Float32.unpack_mul, hx, unpack_stretch]
      exact Float32.repack_zero _
    refine ⟨Format.isNegative (sign * .positive), 0, Format.single.leastExponent, ?_, by simp⟩
    rw [Float32.reading_eq, hzero]
    rfl
  · have hle : (m : Rat) * 2 ^ e ≤ 1 := by
      cases sign with
      | positive => exact hhigh
      | negative => exact neg_le_neg_iff.1 hlow
    -- The factor has all its bits, so the bits of the product are those of its rounded size, and
    -- these are at most the bits of the factor.
    have hmost := Float32.canonical_of_unpack unpack_stretch
    have hbits := Length.mul_bits unpack_stretch hx (by decide)
    rw [← Duration.mul_comm] at hbits
    have hvalue : ((4 * (16776704 * m) : Nat) : Rat) * 2 ^ (-9 + e - 2) ≤
        (16776704 : Nat) * 2 ^ (-9 : Int) := by
      have hpower : (2 : Rat) ^ (-9 + e - 2) = 2 ^ (-9 : Int) * 2 ^ e / 4 := by
        rw [zpow_sub₀ two_ne_zero, two_zpow_add]
        norm_num
      rw [hpower]
      push_cast
      linarith
    have hround := Format.round_le_pattern (Nat.mul_pos four_pos (Nat.mul_pos (by decide) hm))
      (by decide) hmost hvalue
    obtain ⟨s, c, hcanonical, hpattern⟩ :=
      Format.exists_canonical (by decide) (hround.trans_lt hmost.pattern_lt_infinity)
    refine ⟨Format.isNegative sign, s, c, ?_, ?_⟩
    · rw [Float32.reading, hbits, Format.round, ← hpattern]
      exact hcanonical.read_pattern _
    · have hle := hcanonical.le_of_pattern_le hmost (hpattern.trans_le hround)
      norm_num at hle
      exact hle

/-! ## Levels -/

/-- The whole part of a stretched sample. -/
def whole (stretched : Float32) : Int :=
  if stretched < 0 then -((-stretched).toUInt16.toNat : Int) else stretched.toUInt16.toNat

/-- A level is the whole part of the clipped and stretched sample. -/
theorem level_eq (sample : Float32) : level sample = whole (clipped sample * 32767) := rfl

/-- A conversion to 16 bits cuts off the fraction, and what is out of range. -/
theorem to_uint16_eq (x : Float32) :
    x.toUInt16 = .ofNatClamp (x.toModel.unpack.toInt 0 (UInt16.size - 1)).toNat := rfl

/-- The whole part of a positive number that fits a word. -/
theorem whole_of_finite {m : Nat} {e : Int} {hm : 0 < m}
    (hx : x.toModel.unpack = .finite .positive m e hm) (hle : (m : Rat) * 2 ^ e ≤ 32767) :
    (x.toUInt16.toNat : Int) = ⌊(m : Rat) * 2 ^ e⌋ := by
  have he : e ≤ 0 := by
    -- A number without places behind the point has more bits than a word.
    by_contra hpos
    have hleast : Format.single.leastExponent ≤ 0 := by decide
    have hfull : 2 ^ 23 ≤ m := (Float32.canonical_of_unpack hx).full (by omega)
    have hcast : (2 ^ 23 : Rat) ≤ m := by exact_mod_cast hfull
    have hpower : (2 : Rat) ^ (0 : Int) ≤ 2 ^ e := two_zpow_le (by omega)
    rw [zpow_zero] at hpower
    nlinarith
  have hfloor : ⌊(m : Rat) * 2 ^ e⌋ = (m / 2 ^ (-e).toNat : Nat) := by
    rw [mul_two_zpow_of_nonpos m he, Rat.floor_natCast_div_natCast, Int.natCast_div]
  have hfits : m / 2 ^ (-e).toNat < UInt16.size := by
    have hfloor_le : ⌊(m : Rat) * 2 ^ e⌋ ≤ 32767 := Int.floor_le_iff.2 (by push_cast; linarith)
    have hsize : UInt16.size = 65536 := rfl
    omega
  rw [Float32.to_nat_to_uint16 hx he hfits, hfloor]

/-- The whole part of a number within the levels is the number cut toward zero. -/
theorem whole_value {negative : Bool} {s : Nat} {e : Int} (h : x.reading = .finite negative s e)
    (hle : (s : Rat) * 2 ^ e ≤ 32767) : whole x = truncated (signed negative (s * 2 ^ e)) := by
  have hzero : (0 : Float32).toModel.unpack = .zero .positive := rfl
  have hsize : (0 : Rat) ≤ s * 2 ^ e := mul_nonneg (Nat.cast_nonneg s) (two_zpow_pos e).le
  rw [truncated_signed negative hsize]
  rw [Float32.reading_eq] at h
  unfold whole
  cases hx : x.toModel.unpack with
  | notANumber => rw [hx] at h; cases h
  | infinity sign => rw [hx] at h; cases h
  | zero sign =>
      rw [hx] at h
      obtain ⟨-, rfl, -⟩ := Reading.finite.inj h
      have hnonneg : ¬ x < 0 := by
        rw [Duration.lt_iff, hx, hzero]
        exact (by decide : some Ordering.eq ≠ some .lt)
      have hword : (UInt16.ofNatClamp 0).toNat = 0 := rfl
      rw [if_neg hnonneg, to_uint16_eq, hx]
      cases negative <;> simp [UnpackedFloat.toInt, hword]
  | finite sign m d hm =>
      rw [hx] at h
      obtain ⟨rfl, rfl, rfl⟩ := Reading.finite.inj h
      cases sign with
      | positive =>
          have hnonneg : ¬ x < 0 := Duration.lt_asymm (Length.pos_of_finite hx)
          rw [if_neg hnonneg, whole_of_finite hx hle]
          rfl
      | negative =>
          have hneg : x < 0 := Duration.lt_iff.2 (hx ▸ rfl)
          have hopposite : (-x).toModel.unpack = .finite .positive m d hm := by
            rw [Float32.unpack_neg, hx]
            exact Float32.repack_finite hx .positive
          rw [if_pos hneg, whole_of_finite hopposite hle]
          rfl

/-- What a file keeps of a sample: zero for what is no number, and else the whole part of the
stretched sample. -/
structure Kept (sample : Float32) (n : Int) : Prop where
  nan : sample.reading = .nan → n = 0
  /-- The clipped sample is the nearest number from minus one to one. It is stretched by a product of
  single precision, which is finite, and cut toward zero. -/
  number : ∀ v, sample.reading.clipped? = some v → (clipped sample).reading.value? = some v ∧
    ∃ product, (clipped sample * 32767).reading.value? = some product ∧ n = truncated product
  bounded : -32767 ≤ n ∧ n ≤ 32767

/-- What is no number becomes silence. -/
theorem level_nan (h : x.reading = .nan) : level x = 0 := by
  rw [Float32.reading_eq] at h
  have hx : x.toModel.unpack = .notANumber := by
    cases hx : x.toModel.unpack with
    | notANumber => rfl
    | _ => rw [hx] at h; cases h
  have hhigh : ¬ 1 < x := fun hlt => absurd (hx ▸ Duration.lt_iff.1 hlt) (by decide)
  have hlow : ¬ x < -1 := fun hlt => absurd (hx ▸ Duration.lt_iff.1 hlt) (by decide)
  have hproduct : (x * 32767).toModel.unpack = .notANumber := by
    rw [Float32.unpack_mul, hx]
    rfl
  have hnonneg : ¬ x * 32767 < 0 := fun hlt =>
    absurd (hproduct ▸ Duration.lt_iff.1 hlt) (by decide)
  rw [level_eq, clipped, if_neg hhigh, if_neg hlow, whole, if_neg hnonneg, to_uint16_eq, hproduct]
  rfl

/-- The level of a number is its clipped value, stretched, rounded and cut toward zero. -/
theorem level_number (h : x.reading.clipped? = some v) :
    ∃ negative s e, (clipped x * 32767).reading = .finite negative s e ∧
      (s : Rat) * 2 ^ e ≤ 32767 ∧ level x = truncated (signed negative (s * 2 ^ e)) := by
  obtain ⟨hlow, hhigh⟩ := Reading.clipped_bounds h
  obtain ⟨negative, s, e, hread, hle⟩ := stretched_value (clipped_value h) hlow hhigh
  exact ⟨negative, s, e, hread, hle, whole_value hread hle⟩

/-- Levels are symmetric 16-bit numbers. -/
theorem level_bounds (x : Float32) : -32767 ≤ level x ∧ level x ≤ 32767 := by
  cases hclipped : x.reading.clipped? with
  | none =>
      rw [level_nan (Reading.clipped_eq_none.1 hclipped)]
      decide
  | some v =>
      obtain ⟨negative, s, e, -, hle, hlevel⟩ := level_number hclipped
      have hsize : (0 : Rat) ≤ s * 2 ^ e := mul_nonneg (Nat.cast_nonneg s) (two_zpow_pos e).le
      have hlow : 0 ≤ ⌊(s : Rat) * 2 ^ e⌋ := Int.floor_nonneg.2 hsize
      have hhigh : ⌊(s : Rat) * 2 ^ e⌋ ≤ 32767 := Int.floor_le_iff.2 (by push_cast; linarith)
      rw [hlevel, truncated_signed negative hsize]
      cases negative with
      | false => exact ⟨by omega, hhigh⟩
      | true => exact ⟨neg_le_neg hhigh, by omega⟩

/-- A sample is kept by its level, whatever it is. -/
theorem kept_level (sample : Float32) : Kept sample (level sample) where
  nan := level_nan
  number v h := by
    obtain ⟨negative, s, e, hread, -, hlevel⟩ := level_number h
    exact ⟨clipped_value h, _, congrArg Reading.value? hread, hlevel⟩
  bounded := level_bounds sample

/-- The level of a sample is what is to be kept of it, and nothing else is. -/
theorem kept_iff {sample : Float32} {n : Int} : Kept sample n ↔ level sample = n := by
  constructor
  · intro h
    have hlevel := kept_level sample
    cases hclipped : sample.reading.clipped? with
    | none =>
        have hnan := Reading.clipped_eq_none.1 hclipped
        rw [h.nan hnan, hlevel.nan hnan]
    | some v =>
        obtain ⟨-, product, hproduct, rfl⟩ := h.number v hclipped
        obtain ⟨-, other, hother, hlevel⟩ := hlevel.number v hclipped
        rw [hlevel, Option.some.inj (hother.symm.trans hproduct)]
  · rintro rfl
    exact kept_level sample

end Wav

end SynthRack
