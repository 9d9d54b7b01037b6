import Mathlib
import SynthRack.Rack.Allocate
import SynthRack.Signal.DelayLine

/-!
# Durations of buffers

Facts about single precision on which the buffers of a voice rest. `samples_for_of_beq` says that the
two zeros, which compare as equal, make buffers of one size, so a voice may keep the rate it saw
first. `buffered_seconds_bounds` says that a buffered duration is in range whatever number a delay
asks for, and `buffered_seconds_eq_zero` that what is negative or no number needs no buffer.
-/

namespace SynthRack

namespace Duration

open Float.Model (UnpackedFloat)

/-! ## Comparisons -/

/-- The other way round, a comparison has the opposite result. -/
theorem compare_swap (a b : UnpackedFloat) : b.compare a = (a.compare b).map Ordering.swap := by
  have hparts (e d : Int) (m n : Nat) : (compare d e).then (compare n m) =
      ((compare e d).then (compare m n)).swap := by
    rw [Ordering.swap_then, ← Std.OrientedCmp.eq_swap, ← Std.OrientedCmp.eq_swap]
  cases a with
  | notANumber => cases b <;> rfl
  | infinity s => cases b with
    | infinity t => cases s <;> cases t <;> rfl
    | _ => cases s <;> rfl
  | zero s => cases b with
    | infinity t => cases t <;> rfl
    | finite t m e hm => cases t <;> rfl
    | _ => rfl
  | finite s m e hm => cases b with
    | infinity t => cases s <;> cases t <;> rfl
    | finite t n d hn =>
        cases s <;> cases t <;> simp [UnpackedFloat.compare, hparts e d m n]
    | _ => cases s <;> rfl

/-- Numbers are compared unpacked. -/
theorem lt_iff {x y : Float32} : x < y ↔ x.toModel.unpack.compare y.toModel.unpack = some .lt := by
  have hlt : x < y ↔ x.toModel.lt y.toModel = true := decide_eq_true_iff
  rw [hlt, Float32.Model.lt, UnpackedFloat.lt, beq_iff_eq]

/-- Being at most is being less or equal, once unpacked. -/
theorem le_iff {x y : Float32} :
    x ≤ y ↔ ∃ order, x.toModel.unpack.compare y.toModel.unpack = some order ∧ order.isLE = true := by
  have hle : x ≤ y ↔ x.toModel.le y.toModel = true := decide_eq_true_iff
  rw [hle, Float32.Model.le, UnpackedFloat.le, Option.any_eq_true]

/-- What is less is at most. -/
theorem le_of_lt {x y : Float32} (h : x < y) : x ≤ y :=
  le_iff.2 ⟨.lt, lt_iff.1 h, rfl⟩

/-- Of two numbers at most one is less than the other. -/
theorem lt_asymm {x y : Float32} (h : x < y) : ¬ y < x := by
  rw [lt_iff, compare_swap, lt_iff.1 h]
  decide

/-- What is at most a number is not above it. -/
theorem not_lt_of_le {x y : Float32} (h : x ≤ y) : ¬ y < x := by
  obtain ⟨order, horder, hle⟩ := le_iff.1 h
  rw [lt_iff, compare_swap, horder]
  cases order with
  | gt => cases hle
  | _ => decide

/-- Numbers that are no NaN are in one order or the other. -/
theorem le_of_not_lt {x y : Float32} (h : ¬ y < x)
    (hnumber : x.toModel.unpack.compare y.toModel.unpack ≠ none) : x ≤ y := by
  rw [lt_iff, compare_swap] at h
  obtain ⟨order, horder⟩ := Option.ne_none_iff_exists'.1 hnumber
  refine le_iff.2 ⟨order, horder, ?_⟩
  rw [horder] at h
  cases order with
  | gt => exact absurd rfl h
  | _ => rfl

/-- The longest delay, unpacked. -/
theorem unpack_longest :
    maxDelaySeconds.toModel.unpack = .finite .positive 10485760 (-21) (by decide) := rfl

/-- What is positive is a number. -/
theorem compare_longest {x : Float32} (h : 0 < x) :
    x.toModel.unpack.compare maxDelaySeconds.toModel.unpack ≠ none := by
  rw [lt_iff] at h
  rw [unpack_longest]
  cases hx : x.toModel.unpack with
  | notANumber =>
      rw [hx] at h
      cases h
  | zero s => exact Option.some_ne_none _
  | infinity s => cases s <;> exact Option.some_ne_none _
  | finite s m e hm => cases s <;> exact Option.some_ne_none _

/-- A negative duration is not above the longest one. -/
theorem not_longest_lt {x : Float32} (h : x < 0) : ¬ maxDelaySeconds < x := by
  have hzero : (0 : Float32).toModel.unpack = .zero .positive := rfl
  rw [lt_iff, hzero] at h
  rw [lt_iff, unpack_longest]
  cases hx : x.toModel.unpack with
  | notANumber => simp [UnpackedFloat.compare]
  | zero s => simp [UnpackedFloat.compare]
  | infinity s => cases s <;> simp_all [UnpackedFloat.compare]
  | finite s m e hm => cases s <;> simp_all [UnpackedFloat.compare]

/-! ## Products with zero -/

/-- Both zeros are unpacked to a zero. -/
theorem unpack_zero {zero : Float32} (h : zero = 0 ∨ zero = -0) :
    ∃ sign, zero.toModel.unpack = .zero sign := by
  rcases h with rfl | rfl
  · exact ⟨_, rfl⟩
  · exact ⟨.negative, rfl⟩

/-- A product with a zero is a zero, or no number. -/
theorem mul_zero_unpacked (spec : Float.Model.Format) (a : UnpackedFloat) (sign : UnpackedFloat.Sign) :
    a.mul spec (.zero sign) = .notANumber ∨ ∃ other, a.mul spec (.zero sign) = .zero other := by
  cases a with
  | notANumber => exact .inl rfl
  | infinity s => exact .inl rfl
  | zero s => exact .inr ⟨_, rfl⟩
  | finite s m e hm => exact .inr ⟨_, rfl⟩

/-- A product with a zero is not positive, also when the other factor is infinite. -/
theorem mul_zero_not_pos (x : Float32) {zero : Float32} (h : zero = 0 ∨ zero = -0) :
    ¬ 0 < x * zero := by
  have hproduct : (x * zero).toModel = .pack (x.toModel.unpack.mul .binary32 zero.toModel.unpack) :=
    rfl
  obtain ⟨sign, hzero⟩ := unpack_zero h
  rw [hzero] at hproduct
  rw [lt_iff, hproduct]
  rcases mul_zero_unpacked .binary32 x.toModel.unpack sign with hnan | ⟨other, hother⟩
  · rw [hnan]
    decide +kernel
  · rw [hother]
    cases other <;> decide +kernel

/-- The order of factors does not matter to a product of unpacked numbers. -/
theorem mul_comm_unpacked (spec : Float.Model.Format) (a b : UnpackedFloat) :
    a.mul spec b = b.mul spec a := by
  have hsign (s t : UnpackedFloat.Sign) : s * t = t * s := by cases s <;> cases t <;> rfl
  cases a <;> cases b <;> simp [UnpackedFloat.mul, hsign, Nat.mul_comm, Int.add_comm]

/-- The order of factors does not matter to a rounded product. -/
theorem mul_comm (x y : Float32) : x * y = y * x := by
  show Float32.ofModel (.pack (x.toModel.unpack.mul .binary32 y.toModel.unpack)) =
    Float32.ofModel (.pack (y.toModel.unpack.mul .binary32 x.toModel.unpack))
  rw [mul_comm_unpacked]

/-- A product with what is no number is not positive. -/
theorem mul_nan_not_pos (x : Float32) : ¬ 0 < x * .nan := by
  have hproduct : (x * .nan).toModel = .pack (x.toModel.unpack.mul .binary32 .notANumber) := rfl
  have hnan : x.toModel.unpack.mul .binary32 .notANumber = .notANumber := by
    cases x.toModel.unpack <;> rfl
  rw [lt_iff, hproduct, hnan]
  decide +kernel

end Duration

/-- At a rate that is no number, buffers hold nothing. -/
theorem samples_for_nan (seconds : Float32) : samplesFor seconds .nan = 0 :=
  if_neg (Duration.mul_nan_not_pos seconds)

/-- No duration needs no samples, at any rate. -/
theorem samples_for_zero (rate : Float32) : samplesFor 0 rate = 0 := by
  rw [samplesFor, Duration.mul_comm]
  exact if_neg (Duration.mul_zero_not_pos rate (.inl rfl))

/-- Rates that compare as equal need buffers of the same size. -/
theorem samples_for_of_beq {a b : Float32} (h : (a == b) = true) (seconds : Float32) :
    samplesFor seconds a = samplesFor seconds b := by
  have hnone (zero : Float32) (hzero : zero = 0 ∨ zero = -0) : samplesFor seconds zero = 0 :=
    if_neg (Duration.mul_zero_not_pos seconds hzero)
  obtain ⟨-, -, rfl | ⟨rfl, rfl⟩ | ⟨rfl, rfl⟩⟩ := Float32.beq_iff_ne_nan_and_eq.1 h
  · rfl
  · rw [hnone 0 (.inl rfl), hnone (-0) (.inr rfl)]
  · rw [hnone 0 (.inl rfl), hnone (-0) (.inr rfl)]

/-- Numbers that compare as equal are equal to the same numbers. -/
theorem bne_of_beq {a b : Float32} (h : (a == b) = true) (c : Float32) : (a != c) = (b != c) := by
  have hzeros : ((0 : Float32) != c) = (-0 != c) := by
    have heq : ((0 : Float32) == c) = true ↔ ((-0 : Float32) == c) = true := by
      rw [Float32.beq_iff_ne_nan_and_eq, Float32.beq_iff_ne_nan_and_eq]
      have hne : (0 : Float32) ≠ -0 := by decide
      have hnan : (0 : Float32) ≠ .nan ∧ (-0 : Float32) ≠ .nan := by decide
      grind
    rw [bne, bne, Bool.eq_iff_iff.2 heq]
  obtain ⟨-, -, rfl | ⟨rfl, rfl⟩ | ⟨rfl, rfl⟩⟩ := Float32.beq_iff_ne_nan_and_eq.1 h
  · rfl
  · exact hzeros
  · exact hzeros.symm

/-- A buffered duration is neither negative nor longer than the longest. -/
theorem buffered_seconds_bounds (requested : Float32) :
    0 ≤ bufferedSeconds requested ∧ bufferedSeconds requested ≤ maxDelaySeconds := by
  unfold bufferedSeconds
  split
  case isTrue => decide +kernel
  case isFalse hshort =>
    split
    case isTrue hpositive =>
      exact ⟨Duration.le_of_lt hpositive,
        Duration.le_of_not_lt hshort (Duration.compare_longest hpositive)⟩
    case isFalse => decide +kernel

/-- What is negative or no number needs no buffer. -/
theorem buffered_seconds_eq_zero {requested : Float32}
    (h : requested < 0 ∨ requested.isNaN = true) : bufferedSeconds requested = 0 := by
  have hnot : ¬ maxDelaySeconds < requested ∧ ¬ 0 < requested := by
    rcases h with hnegative | hnan
    · exact ⟨Duration.not_longest_lt hnegative, Duration.lt_asymm hnegative⟩
    · rw [Float32.isNaN_eq_decide_eq_nan, decide_eq_true_iff] at hnan
      subst hnan
      decide +kernel
  rw [bufferedSeconds, if_neg hnot.1, if_neg hnot.2]

end SynthRack
