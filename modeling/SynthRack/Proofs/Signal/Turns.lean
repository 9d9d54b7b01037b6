import Mathlib
import SynthRack.Signal.Waveform
import SynthRack.Proofs.Signal.Exact

/-!
# Turns of an oscillator

An oscillator keeps its phase within one turn. Over exact numbers this cannot be heard: `IsTurning`
says that the shape repeats every turn and that the oscillator plays what one would play that adds up
its turns without end. The shapes reduce a phase in two ways, and below zero the two differ; the
triangle makes up for that by its symmetry (`triangle_exact`).
-/

namespace SynthRack

variable {K : Type} [Field K] [LinearOrder K] [IsStrictOrderedRing K] [FloorRing K]

namespace Waveform

/-- The numbers that an oscillator reads in one sample. -/
structure Reading (α : Type) where
  amplitude : α
  frequency : α
  multiplier : α
  /-- Phase offset in turns. -/
  phase : α
  offset : α
  /-- The length of the sample in seconds. -/
  dt : α

namespace Reading

/-- The turns that the phase moves on by in a sample that sounds. -/
def increment (r : Reading K) : K := r.dt * r.frequency * r.multiplier

/-- One sample over exact numbers at a phase: the output and the next phase. -/
def exactPlay (r : Reading K) (circle : Circle K) (shape : Waveform) (t : K) : K × K :=
  @play K circle.exact shape r.amplitude r.frequency r.multiplier r.phase r.offset r.dt t

end Reading

/-- The value of a shape over exact numbers. -/
def exactSample (circle : Circle K) (shape : Waveform) (t : K) : K := @sample K circle.exact shape t

/-- The phase that an oscillator keeps after samples, from phase zero on. -/
def exactPhase (circle : Circle K) (shape : Waveform) (past : List (Reading K)) : K :=
  past.foldl (fun t r => (r.exactPlay circle shape t).2) 0

/-- The turns of all samples that sounded. -/
def turns (past : List (Reading K)) : K :=
  ((past.filter (·.amplitude ≠ 0)).map Reading.increment).sum

/-! ## Shapes -/

omit [IsStrictOrderedRing K] in
/-- A sine over exact numbers. -/
theorem sine_exact (circle : Circle K) (t : K) :
    sine.exactSample circle t = circle.sin (2 * circle.pi * t) := by
  have hsine : sine.exactSample circle t = circle.sin ((1 + 1) * circle.pi * t) := rfl
  rw [hsine, one_add_one_eq_two]

/-- A square over exact numbers is high for the first half of a turn. -/
theorem square_exact (circle : Circle K) (t : K) :
    square.exactSample circle t = if Int.fract t < 1 / 2 then 1 else -1 := by
  have hsquare : square.exactSample circle t =
      if @Number.wrap K .exact t < 1 / (1 + 1) then 1 else -1 := rfl
  rw [hsquare, Number.wrap_exact, one_add_one_eq_two]

/-- A sawtooth over exact numbers rises over a turn. -/
theorem sawtooth_exact (circle : Circle K) (t : K) :
    sawtooth.exactSample circle t = 2 * Int.fract t - 1 := by
  have hsawtooth : sawtooth.exactSample circle t = (1 + 1) * @Number.wrap K .exact t - 1 := rfl
  rw [hsawtooth, Number.wrap_exact, one_add_one_eq_two]

/-- A reverse sawtooth over exact numbers falls over a turn. -/
theorem reverse_sawtooth_exact (circle : Circle K) (t : K) :
    reverseSawtooth.exactSample circle t = 1 - 2 * Int.fract t := by
  have hreverse : reverseSawtooth.exactSample circle t = -sawtooth.exactSample circle t := rfl
  rw [hreverse, sawtooth_exact, neg_sub]

/-- Mirrored at zero, a phase is as far from the middle of its turn. -/
theorem middle_abs (t : K) : |2 * Int.fract |t| - 1| = |2 * Int.fract t - 1| := by
  rcases abs_choice t with hpos | hneg
  · rw [hpos]
  · rw [hneg]
    by_cases hwhole : Int.fract t = 0
    · rw [Int.fract_neg_eq_zero.2 hwhole, hwhole]
    · have hmirror : 2 * (1 - Int.fract t) - 1 = -(2 * Int.fract t - 1) := by ring
      rw [Int.fract_neg hwhole, hmirror, abs_neg]

/-- The triangle reduces the size of its phase, which comes to the same. -/
theorem triangle_exact (circle : Circle K) (t : K) :
    triangle.exactSample circle t = 1 - 2 * |2 * Int.fract t - 1| := by
  have htriangle : triangle.exactSample circle t = (1 + 1) *
      ((if 1 / (1 + 1) < @Number.fraction K .exact |t| then
        (1 + 1) - (1 + 1) * @Number.fraction K .exact |t|
        else (1 + 1) * @Number.fraction K .exact |t|) - 1 / (1 + 1)) := rfl
  rw [htriangle, Number.fraction_exact (abs_nonneg t), one_add_one_eq_two, ← middle_abs]
  split
  case isTrue hfalling =>
    have hpast : 0 < 2 * Int.fract |t| - 1 := by linarith
    rw [abs_of_pos hpast]
    ring
  case isFalse hrising =>
    have hbefore : 2 * Int.fract |t| - 1 ≤ 0 := by linarith
    rw [abs_of_nonpos hbefore]
    ring

/-- Every shape repeats after one turn, the sine if that of the circle does. -/
theorem sample_periodic {circle : Circle K}
    (hsine : ∀ t, circle.sin (2 * circle.pi * (t + 1)) = circle.sin (2 * circle.pi * t))
    (shape : Waveform) : Function.Periodic (shape.exactSample circle) 1 := by
  intro t
  cases shape with
  | sine => rw [sine_exact, sine_exact, hsine]
  | square => rw [square_exact, square_exact, Int.fract_add_one]
  | sawtooth => rw [sawtooth_exact, sawtooth_exact, Int.fract_add_one]
  | triangle => rw [triangle_exact, triangle_exact, Int.fract_add_one]
  | reverseSawtooth => rw [reverse_sawtooth_exact, reverse_sawtooth_exact, Int.fract_add_one]

/-- The shapes other than the sine stay between minus one and one. -/
theorem sample_bounds (circle : Circle K) {shape : Waveform} (h : shape ≠ .sine) (t : K) :
    |shape.exactSample circle t| ≤ 1 := by
  have hlow := Int.fract_nonneg t
  have hhigh := Int.fract_lt_one t
  cases shape with
  | sine => exact absurd rfl h
  | square =>
      rw [square_exact]
      split <;> simp
  | sawtooth =>
      rw [sawtooth_exact]
      exact abs_le.2 ⟨by linarith, by linarith⟩
  | triangle =>
      have hmiddle : |2 * Int.fract t - 1| ≤ 1 := abs_le.2 ⟨by linarith, by linarith⟩
      have hnonneg := abs_nonneg (2 * Int.fract t - 1)
      rw [triangle_exact]
      exact abs_le.2 ⟨by linarith, by linarith⟩
  | reverseSawtooth =>
      rw [reverse_sawtooth_exact]
      exact abs_le.2 ⟨by linarith, by linarith⟩

/-! ## Phases -/

/-- Without rounding a phase is never moved up to a full turn. -/
theorem advance_phase_exact (t increment : K) :
    @advancePhase K Number.exact t increment = Int.fract (t + increment) := by
  have hadvance : @advancePhase K Number.exact t increment =
      if 1 ≤ @Number.wrap K .exact (t + increment) then 0
      else @Number.wrap K .exact (t + increment) := rfl
  rw [hadvance, Number.wrap_exact, if_neg (Int.fract_lt_one _).not_ge]

omit [IsStrictOrderedRing K] in
/-- A silent sample. -/
theorem play_silent {r : Reading K} (h : r.amplitude = 0) (circle : Circle K) (shape : Waveform)
    (t : K) : r.exactPlay circle shape t = (0, t) := if_pos (decide_eq_true h)

/-- A sample that sounds. -/
theorem play_sounding {r : Reading K} (h : r.amplitude ≠ 0) (circle : Circle K) (shape : Waveform)
    (t : K) : r.exactPlay circle shape t =
      (shape.exactSample circle (t + r.phase) * r.amplitude + r.offset,
        Int.fract (t + r.increment)) := by
  have hsounds : ¬ decide (r.amplitude = 0) = true := by simpa using h
  rw [← advance_phase_exact]
  exact if_neg hsounds

/-- The phase that an oscillator keeps is that of all its turns, within one turn. -/
theorem exact_phase_eq (circle : Circle K) (shape : Waveform) (past : List (Reading K)) :
    exactPhase circle shape past = Int.fract (turns past) := by
  induction past using List.reverseRecOn with
  | nil => exact Int.fract_zero.symm
  | append_singleton past r ih =>
      have hlast : exactPhase circle shape (past ++ [r]) =
          (r.exactPlay circle shape (exactPhase circle shape past)).2 := by
        simp [exactPhase]
      rw [hlast, ih]
      by_cases hsilent : r.amplitude = 0
      · rw [play_silent hsilent]
        simp [turns, hsilent]
      · have hturns : turns (past ++ [r]) = turns past + r.increment := by simp [turns, hsilent]
        have hwhole : Int.fract (turns past) + r.increment =
            turns past + r.increment - (⌊turns past⌋ : ℤ) := by
          rw [Int.fract]
          ring
        rw [play_sounding hsilent, hturns, hwhole, Int.fract_sub_intCast]

/-- An oscillator with this shape sounds as if it added up its turns without end. -/
structure IsTurning (circle : Circle K) (shape : Waveform) : Prop where
  period : ∀ t, shape.exactSample circle (t + 1) = shape.exactSample circle t
  bounds : shape ≠ .sine → ∀ t, -1 ≤ shape.exactSample circle t ∧ shape.exactSample circle t ≤ 1
  sounding : ∀ (past : List (Reading K)) (r : Reading K), r.amplitude ≠ 0 →
    (r.exactPlay circle shape (exactPhase circle shape past)).1 =
      r.amplitude * shape.exactSample circle (turns past + r.phase) + r.offset
  /-- A silent sample leaves the phase where it is. -/
  silent : ∀ (past : List (Reading K)) (r : Reading K), r.amplitude = 0 →
    r.exactPlay circle shape (exactPhase circle shape past) = (0, exactPhase circle shape past)

/-- Moving the phase back into one turn is not heard, whatever an oscillator reads. -/
theorem is_turning (circle : Circle K)
    (hsine : ∀ t, circle.sin (2 * circle.pi * (t + 1)) = circle.sin (2 * circle.pi * t))
    (shape : Waveform) : shape.IsTurning circle where
  period := sample_periodic hsine shape
  bounds h t := abs_le.1 (sample_bounds circle h t)
  sounding past r h := by
    have hwhole : Int.fract (turns past) + r.phase =
        turns past + r.phase - (⌊turns past⌋ : ℤ) * 1 := by
      rw [Int.fract]
      ring
    rw [play_sounding h, exact_phase_eq, hwhole, (sample_periodic hsine shape).sub_int_mul_eq,
      mul_comm]
  silent past r h := play_silent h circle shape _

/-- A sine that runs backwards, with a silent sample in between, three eighths of a turn below zero. -/
theorem is_turning_backwards :
    let circle : Circle ℝ := ⟨Real.pi, Real.sin, Real.cos⟩
    let past : List (Reading ℝ) := [⟨1, -3, 1 / 2, 0, 0, 1 / 4⟩, ⟨0, 5, 1, 0, 0, 1 / 4⟩]
    let r : Reading ℝ := ⟨2, -3, 1 / 2, 1 / 8, 1 / 2, 1 / 4⟩
    (∀ t, circle.sin (2 * circle.pi * (t + 1)) = circle.sin (2 * circle.pi * t)) ∧
      r.amplitude ≠ 0 ∧
      (r.exactPlay circle .sine (exactPhase circle .sine past)).1 = -3 / 2 := by
  intro circle past r
  have hsine : ∀ t, circle.sin (2 * circle.pi * (t + 1)) = circle.sin (2 * circle.pi * t) := by
    intro t
    show Real.sin (2 * Real.pi * (t + 1)) = Real.sin (2 * Real.pi * t)
    rw [mul_add, mul_one, Real.sin_add_two_pi]
  have hsounds : r.amplitude ≠ 0 := two_ne_zero
  refine ⟨hsine, hsounds, ?_⟩
  have hturns : turns past + r.phase = -1 / 4 := by
    norm_num [turns, past, r, Reading.increment]
  have hvalue : sine.exactSample circle (-1 / 4) = -1 := by
    have hangle : 2 * Real.pi * (-1 / 4) = -(Real.pi / 2) := by ring
    rw [sine_exact]
    show Real.sin (2 * Real.pi * (-1 / 4)) = -1
    rw [hangle, Real.sin_neg, Real.sin_pi_div_two]
  rw [(is_turning circle hsine .sine).sounding past r hsounds, hturns, hvalue]
  norm_num [r]

end Waveform

end SynthRack
