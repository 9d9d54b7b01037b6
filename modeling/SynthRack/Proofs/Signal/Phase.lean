import Mathlib
import SynthRack.Signal.Waveform
import SynthRack.Proofs.Numeral.Exact
import SynthRack.Proofs.Signal.Duration

/-!
# The phase stays within one turn

`advance_phase_bounds` says that in single precision a phase that is moved on is no number, or at
least zero and less than one, whatever it was and however far it moves. It rests on
`below_one_fraction`: the part after the point is exact, so it is smaller than one, and one turn more
than a negative part is not negative.
-/

namespace Float32

open SynthRack
open Float.Model (UnpackedFloat)
open Float.Model.UnpackedFloat

variable {x : Float32} {m : Nat} {e : Int}

/-! ## The part after the point -/

/-- A number, if it is one, of a size below one. -/
def BelowOne (u : UnpackedFloat) : Prop :=
  u = .notANumber ∨ (∃ sign, u = .zero sign) ∨ ∃ sign m e hm, u = .finite sign m e hm ∧ e < -23

/-- What is smaller than the numbers without a part after the point has places behind it. -/
theorem exponent_neg_of_lt {hm : 0 < m} (h : x.toModel.unpack = .finite .positive m e hm)
    (hlt : x < wholeFrom) : e < 0 := by
  have hwhole : wholeFrom.toModel.unpack = .finite .positive (2 ^ 23) 0 (by positivity) := rfl
  obtain ⟨-, -, hsmall, -⟩ := canonical_of_unpack h
  rw [Duration.lt_iff, h, hwhole] at hlt
  have hcompare : (compare e 0).then (compare m (2 ^ 23)) = .lt := by
    simpa [UnpackedFloat.compare] using hlt
  rcases Ordering.then_eq_lt.1 hcompare with he | ⟨he, hm⟩
  · exact Int.compare_eq_lt.1 he
  · have hleast : e = -149 := hsmall (Nat.compare_eq_lt.1 hm)
    omega

/-- The difference of two numbers with one exponent. -/
theorem sub_same_exponent {n : Nat} {hm : 0 < m} {hn : 0 < n} (hle : n ≤ m) :
    UnpackedFloat.sub .binary32 (.finite .positive m e hm) (.finite .positive n e hn) =
      if m - n = 0 then .zero .positive
      else UnpackedFloat.round .binary32 .positive (m - n) e := by
  have hnone : (e - e).toNat = 0 := by omega
  have hdifference : Sign.positive.apply m - Sign.positive.apply n = ((m - n : Nat) : Int) := by
    show (m : Int) - n = _
    omega
  unfold UnpackedFloat.sub decreaseExponent
  simp only [min_self, hnone, Nat.shiftLeft_zero, hdifference, Format.normalize_nat_cast]

/-- The whole part of a number above one has the exponent of the number. -/
theorem unpack_whole {hm : 0 < m} (h : x.toModel.unpack = .finite .positive m e hm) (he : e < 0)
    (hwhole : 0 < m / 2 ^ (-e).toNat) :
    ∃ hn, x.toUInt32.toFloat32.toModel.unpack =
      .finite .positive (m / 2 ^ (-e).toNat * 2 ^ (-e).toNat) e hn ∧ (-e).toNat ≤ 23 := by
  have hcanonical := canonical_of_unpack h
  have hleast : Format.single.leastExponent = -149 := by decide
  have hsize : m < 2 ^ 24 := hcanonical.size
  have hle : 2 ^ (-e).toNat ≤ m := (Nat.div_pos_iff.1 hwhole).2
  have hplaces : (-e).toNat < 24 := (Nat.pow_lt_pow_iff_right (by omega)).1 (hle.trans_lt hsize)
  have hfull : 2 ^ 23 ≤ m := hcanonical.full (by omega)
  have hsplit : 2 ^ (23 - (-e).toNat) * 2 ^ (-e).toNat = 2 ^ 23 := by
    rw [← pow_add]
    congr 1
    omega
  have hlow : 2 ^ (23 - (-e).toNat) ≤ m / 2 ^ (-e).toNat := by
    rw [Nat.le_div_iff_mul_le (Nat.two_pow_pos _), hsplit]
    exact hfull
  have hhigh : m / 2 ^ (-e).toNat < 2 ^ (23 - (-e).toNat + 1) := by
    rw [Nat.div_lt_iff_lt_mul (Nat.two_pow_pos _), pow_succ, mul_right_comm, hsplit]
    exact hsize
  have hlog : (m / 2 ^ (-e).toNat).log2 = 23 - (-e).toNat :=
    (Nat.log2_eq_iff hwhole.ne').2 ⟨hlow, hhigh⟩
  have hword := to_nat_to_uint32 h he.le
    (hhigh.trans_le (Nat.pow_le_pow_right (by omega) (by omega) : _ ≤ 2 ^ 32))
  have hunpack := unpack_to_float32 (n := x.toUInt32) (by omega) (by rw [hword, hlog]; omega)
  have hmove : 23 - (m / 2 ^ (-e).toNat).log2 = (-e).toNat := by omega
  have hexponent : ((m / 2 ^ (-e).toNat).log2 : Int) - 23 = e := by omega
  simp only [hword, hmove, hexponent] at hunpack
  exact ⟨_, hunpack, by omega⟩

/-- A number below the numbers without a part after the point, without its whole part. -/
theorem below_one_sub_whole {hm : 0 < m} (h : x.toModel.unpack = .finite .positive m e hm)
    (he : e < 0) : BelowOne (x - x.toUInt32.toFloat32).toModel.unpack := by
  obtain ⟨hleast, hsize, hsmall, -⟩ := canonical_of_unpack h
  have hleast : -149 ≤ e := hleast
  rcases Nat.eq_zero_or_pos (m / 2 ^ (-e).toNat) with hzero | hwhole
  · -- The whole part is zero, so the number is as it was, and it has no bit before the point.
    have hword := to_nat_to_uint32 h he.le (by rw [hzero]; decide)
    have hnone : x.toUInt32.toFloat32.toModel.unpack = .zero .positive := by
      rw [UInt32.toNat_inj.1 (hword.trans (hzero.trans rfl) : _ = (0 : UInt32).toNat)]
      rfl
    refine .inr (.inr ⟨.positive, m, e, hm, ?_, ?_⟩)
    · rw [unpack_sub, h, hnone]
      exact repack_finite h .positive
    · have hlt : m < 2 ^ (-e).toNat := (Nat.div_eq_zero_iff_lt (Nat.two_pow_pos _)).1 hzero
      by_contra hge
      have hfull : ¬ m < 2 ^ 23 := fun hlt => by
        have hend : e = -149 := hsmall hlt
        omega
      have hpower : 2 ^ (-e).toNat ≤ 2 ^ 23 := Nat.pow_le_pow_right (by omega) (by omega)
      omega
  · obtain ⟨hn, hunpack, hplaces⟩ := unpack_whole h he hwhole
    have hsplit := Nat.div_add_mod' m (2 ^ (-e).toNat)
    have hrest : m - m / 2 ^ (-e).toNat * 2 ^ (-e).toNat = m % 2 ^ (-e).toNat := by omega
    rw [unpack_sub, h, hunpack, sub_same_exponent (by omega), hrest]
    rcases Nat.eq_zero_or_pos (m % 2 ^ (-e).toNat) with hnone | hsome
    · rw [if_pos hnone]
      exact .inr (.inl ⟨.positive, repack_zero _⟩)
    · -- The rest has fewer bits than there are places behind the point.
      have hbits : (m % 2 ^ (-e).toNat).log2 < (-e).toNat :=
        (Nat.log2_lt hsome.ne').2 (Nat.mod_lt _ (Nat.two_pow_pos _))
      rw [if_neg hsome.ne', repack_round hsome (by omega) (by omega) (by omega)]
      exact .inr (.inr ⟨_, _, _, _, rfl, by omega⟩)

/-- The size of a number without its whole part. -/
theorem below_one_size (x : Float32) :
    BelowOne (if x.abs < wholeFrom then x.abs - x.abs.toUInt32.toFloat32
      else x.abs - x.abs).toModel.unpack := by
  rcases abs_cases x with hnan | hinfinite | hzero | ⟨m, e, hm, hfinite⟩
  · have hsub (y : Float32) : (x.abs - y).toModel.unpack = .notANumber := by
      rw [unpack_sub, hnan, UnpackedFloat.sub, repack_nan]
    split <;> exact .inl (hsub _)
  · have hlarge : ¬ x.abs < wholeFrom := by
      rw [Duration.lt_iff, hinfinite]
      decide
    rw [if_neg hlarge, unpack_sub, hinfinite]
    exact .inl rfl
  · have hwhole : x.abs.toUInt32.toFloat32.toModel.unpack = .zero .positive := by
      have hword : x.abs.toUInt32 =
          UInt32.ofNatClamp (x.abs.toModel.unpack.toInt 0 (UInt32.size - 1)).toNat := rfl
      rw [hword, hzero]
      rfl
    refine .inr (.inl ⟨.positive, ?_⟩)
    split
    · rw [unpack_sub, hwhole, hzero]
      rfl
    · rw [unpack_sub, hzero]
      rfl
  · split
    case isTrue hlt => exact below_one_sub_whole hfinite (exponent_neg_of_lt hfinite hlt)
    case isFalse =>
      rw [unpack_sub, hfinite, sub_same_exponent le_rfl, Nat.sub_self, if_pos rfl]
      exact .inr (.inl ⟨.positive, repack_zero _⟩)

/-- The part after the point, with its sign, is below one. -/
theorem below_one_fraction (x : Float32) : BelowOne x.fraction.toModel.unpack := by
  have hsize := below_one_size x
  unfold fraction
  dsimp only
  generalize (if x.abs < wholeFrom then x.abs - x.abs.toUInt32.toFloat32 else x.abs - x.abs) =
    part at hsize ⊢
  split
  case isFalse => exact hsize
  case isTrue =>
    rw [unpack_neg]
    rcases hsize with hnan | ⟨sign, hzero⟩ | ⟨sign, m, e, hm, hfinite, he⟩
    · rw [hnan]
      exact .inl rfl
    · rw [hzero]
      exact .inr (.inl ⟨_, repack_zero _⟩)
    · rw [hfinite]
      exact .inr (.inr ⟨_, m, e, hm, repack_finite hfinite _, he⟩)

/-! ## Phases -/

/-- One turn more than a number below one is not negative. -/
theorem not_add_one_neg (h : BelowOne x.toModel.unpack) (hnegative : x < 0) : ¬ x + 1 < 0 := by
  have hone : (1 : Float32).toModel.unpack = .finite .positive (2 ^ 23) (-23) (by positivity) := rfl
  have hzero : (0 : Float32).toModel.unpack = .zero .positive := rfl
  rw [Duration.lt_iff, hzero] at hnegative ⊢
  rw [unpack_add, hone]
  rcases h with hnan | ⟨sign, hzero⟩ | ⟨sign, m, e, hm, hfinite, he⟩
  · rw [hnan] at hnegative
    cases hnegative
  · rw [hzero] at hnegative
    cases hnegative
  · have hsize : m < 2 ^ 24 := (canonical_of_unpack hfinite).size
    rw [hfinite] at hnegative ⊢
    cases sign with
    | positive => cases hnegative
    | negative =>
        have hmin : min e (-23) = e := by omega
        have hnone : (e - e).toNat = 0 := by omega
        have hturn : 2 ^ 24 ≤ 2 ^ 23 <<< (-23 - e).toNat := by
          rw [Nat.shiftLeft_eq, ← pow_add]
          exact Nat.pow_le_pow_right (by omega) (by omega)
        have hsum : Sign.negative.apply m + Sign.positive.apply (2 ^ 23 <<< (-23 - e).toNat : Nat) =
            ((2 ^ 23 <<< (-23 - e).toNat - m : Nat) : Int) := by
          show -(m : Int) + (2 ^ 23 <<< (-23 - e).toNat : Nat) = _
          omega
        unfold UnpackedFloat.add decreaseExponent
        simp only [hmin, hnone, Nat.shiftLeft_zero, hsum, Format.normalize_nat_cast]
        rw [if_neg (by omega)]
        exact Format.round_positive_not_neg _ _

end Float32

namespace SynthRack

/-- A remainder that is moved up by a turn if it is negative is not negative. -/
theorem wrap_not_neg (x : Float32) : ¬ Number.wrap x < 0 := by
  show ¬ (if x.fraction < 0 then x.fraction + 1 else x.fraction) < 0
  split
  case isTrue hnegative => exact Float32.not_add_one_neg (Float32.below_one_fraction x) hnegative
  case isFalse h => exact h

/-- Only what is no number cannot be compared with a number. -/
theorem compare_ne_none {x y : Float32} (hx : x.isNaN = false) (hy : y.isNaN = false) :
    x.toModel.unpack.compare y.toModel.unpack ≠ none := by
  have hx : x.toModel.unpack.isNaN = false := hx
  have hy : y.toModel.unpack.isNaN = false := hy
  cases hux : x.toModel.unpack with
  | notANumber => rw [hux] at hx; cases hx
  | infinity s => cases huy : y.toModel.unpack with
    | notANumber => rw [huy] at hy; cases hy
    | _ => cases s <;> exact Option.some_ne_none _
  | zero s => cases huy : y.toModel.unpack with
    | notANumber => rw [huy] at hy; cases hy
    | zero t => exact Option.some_ne_none _
    | infinity t | finite t => cases t <;> exact Option.some_ne_none _
  | finite s => cases huy : y.toModel.unpack with
    | notANumber => rw [huy] at hy; cases hy
    | zero t => cases s <;> exact Option.some_ne_none _
    | infinity t | finite t => cases s <;> cases t <;> exact Option.some_ne_none _

/-- A phase that is moved on is no number, or within one turn. -/
theorem advance_phase_bounds (t increment : Float32) :
    (advancePhase t increment).isNaN = true ∨
      0 ≤ advancePhase t increment ∧ advancePhase t increment < 1 := by
  have hphase : advancePhase t increment =
      if 1 ≤ Number.wrap (t + increment) then 0 else Number.wrap (t + increment) := rfl
  have hnot := wrap_not_neg (t + increment)
  rw [hphase]
  generalize Number.wrap (t + increment) = next at hnot ⊢
  split
  case isTrue => exact .inr (by decide +kernel)
  case isFalse hlow =>
    cases hnan : next.isNaN with
    | true => exact .inl rfl
    | false =>
        have hzero : (0 : Float32).isNaN = false := by decide
        have hone : (1 : Float32).isNaN = false := by decide
        refine .inr ⟨Duration.le_of_not_lt hnot (compare_ne_none hzero hnan), ?_⟩
        by_contra hge
        exact hlow (Duration.le_of_not_lt hge (compare_ne_none hone hnan))

end SynthRack
