import Mathlib
import SynthRack.Proofs.Signal.Recurrence

/-!
# Gains of filters

Over the reals a filter has a gain for every complex frequency `z`: fed with the wave `a * z ^ n`, its
difference equation has the solution `a * gain z * z ^ n`. The filter starts from silence instead.
`Stable` says that this is forgotten: the poles are inside the unit circle (`Stable.pole_lt`), so what
remains of any start dies out (`Stable.dies_out`), and the output settles on the wave times its gain
(`Stable.settles`).
-/

namespace SynthRack

open Filter Topology

namespace Coefficients

variable {c : Coefficients ℝ} {z : ℂ}

/-- The feedback dies out: the conditions on the product and on the sum of the poles. -/
structure Stable (c : Coefficients ℝ) : Prop where
  product : |c.a2| < 1
  sum : |c.a1| < 1 + c.a2

/-- What the filter makes of a wave with the complex frequency `z`. -/
noncomputable def gain (c : Coefficients ℝ) (z : ℂ) : ℂ :=
  (c.b0 + c.b1 / z + c.b2 / z ^ 2) / (1 + c.a1 / z + c.a2 / z ^ 2)

/-- A wave with a complex amplitude and a complex frequency, as it is heard. -/
noncomputable def wave (a z : ℂ) (n : ℕ) : ℝ := (a * z ^ n).re

/-! ## Poles -/

/-- The poles of a stable filter are inside the unit circle. -/
theorem Stable.pole_lt (h : c.Stable) (hz : z ^ 2 + c.a1 * z + c.a2 = 0) : ‖z‖ < 1 := by
  obtain ⟨hlow, hhigh⟩ := abs_lt.1 h.product
  obtain ⟨hleft, hright⟩ := abs_lt.1 h.sum
  have hre : z.re * z.re - z.im * z.im + c.a1 * z.re + c.a2 = 0 := by
    simpa [pow_two] using congrArg Complex.re hz
  have him : z.im * (2 * z.re + c.a1) = 0 := by
    have him := congrArg Complex.im hz
    simp [pow_two] at him
    linarith
  have hsize : z.re * z.re + z.im * z.im < 1 := by
    rcases mul_eq_zero.1 him with hreal | hpair
    · -- A real pole: the polynomial is positive at both ends of the interval and has its vertex inside.
      rw [hreal] at hre ⊢
      have hbelow : z.re < 1 := by
        by_contra hge
        nlinarith
      have habove : -1 < z.re := by
        by_contra hle
        nlinarith
      nlinarith
    · -- A pair of conjugate poles: the square of their size is their product.
      nlinarith
  rw [← sq_lt_one_iff₀ (norm_nonneg z), ← Complex.normSq_eq_norm_sq, Complex.normSq_apply]
  exact hsize

/-- On the unit circle a stable filter has no pole. -/
theorem Stable.not_pole (h : c.Stable) (hz : ‖z‖ = 1) : z ^ 2 + c.a1 * z + c.a2 ≠ 0 :=
  fun hpole => (h.pole_lt hpole).ne hz

/-- The two poles of a filter. -/
theorem exists_poles (c : Coefficients ℝ) :
    ∃ p q : ℂ, p + q = -c.a1 ∧ p * q = c.a2 ∧ p ^ 2 + c.a1 * p + c.a2 = 0 ∧
      q ^ 2 + c.a1 * q + c.a2 = 0 := by
  obtain ⟨root, hroot⟩ := IsAlgClosed.exists_pow_nat_eq ((c.a1 : ℂ) ^ 2 - 4 * c.a2) two_pos
  refine ⟨(-c.a1 + root) / 2, (-c.a1 - root) / 2, by ring, ?_, ?_, ?_⟩
  · linear_combination (-1 / 4) * hroot
  · linear_combination (1 / 4) * hroot
  · linear_combination (1 / 4) * hroot

/-! ## Settling -/

/-- What repeats itself with two factors inside the unit circle dies out. -/
theorem tendsto_zero_of_factors {p q : ℂ} (hp : ‖p‖ < 1) (hq : ‖q‖ < 1) {e : ℕ → ℂ}
    (he : ∀ n, e (n + 2) = (p + q) * e (n + 1) - p * q * e n) : Tendsto e atTop (𝓝 0) := by
  -- Without the first factor, the second alone is left.
  have hrest (n : ℕ) : e (n + 1) - p * e n = q ^ n * (e 1 - p * e 0) := by
    induction n with
    | zero => simp
    | succ n ih =>
        rw [he]
        linear_combination q * ih
  obtain ⟨r, hlow, hr⟩ := exists_between (max_lt hp hq)
  have hpr : ‖p‖ ≤ r := (le_max_left _ _).trans hlow.le
  have hqr : ‖q‖ ≤ r := (le_max_right _ _).trans hlow.le
  have hpos : 0 < r := ((norm_nonneg p).trans (le_max_left _ _)).trans_lt hlow
  have hbound (n : ℕ) : ‖e n‖ ≤ ‖e 0‖ * r ^ n + ‖e 1 - p * e 0‖ / r * (n * r ^ n) := by
    induction n with
    | zero => simp
    | succ n ih =>
        have hnext : e (n + 1) = p * e n + q ^ n * (e 1 - p * e 0) := by
          rw [← hrest]
          ring
        calc ‖e (n + 1)‖ ≤ ‖p‖ * ‖e n‖ + ‖q‖ ^ n * ‖e 1 - p * e 0‖ := by
              rw [hnext, ← norm_mul, ← norm_pow, ← norm_mul]
              exact norm_add_le _ _
          _ ≤ r * (‖e 0‖ * r ^ n + ‖e 1 - p * e 0‖ / r * (n * r ^ n)) +
                r ^ n * ‖e 1 - p * e 0‖ := by gcongr
          _ = ‖e 0‖ * r ^ (n + 1) + ‖e 1 - p * e 0‖ / r * ((n + 1 : ℕ) * r ^ (n + 1)) := by
              push_cast
              field_simp
              ring
  have hpower := (tendsto_pow_atTop_nhds_zero_of_lt_one hpos.le hr).const_mul ‖e 0‖
  have hcounted := (tendsto_self_mul_const_pow_of_lt_one hpos.le hr).const_mul (‖e 1 - p * e 0‖ / r)
  have hsum := hpower.add hcounted
  rw [mul_zero, mul_zero, add_zero] at hsum
  exact squeeze_zero_norm hbound hsum

/-- Whatever a stable filter started with dies out. -/
theorem Stable.dies_out (h : c.Stable) {e : ℕ → ℝ}
    (he : ∀ n, e (n + 2) = -c.a1 * e (n + 1) - c.a2 * e n) : Tendsto e atTop (𝓝 0) := by
  obtain ⟨p, q, hsum, hproduct, hp, hq⟩ := c.exists_poles
  have hcomplex : Tendsto (fun n => (e n : ℂ)) atTop (𝓝 0) := by
    refine tendsto_zero_of_factors (h.pole_lt hp) (h.pole_lt hq) fun n => ?_
    rw [he, hsum, hproduct]
    push_cast
    ring
  exact tendsto_ofReal_iff.1 hcomplex

/-- The difference equation of a filter over the real numbers. -/
theorem filtered_add_two (c : Coefficients ℝ) (x : ℕ → ℝ) (n : ℕ) :
    c.filtered x (n + 2) = c.b0 * x (n + 2) + c.b1 * x (n + 1) + c.b2 * x n -
      c.a1 * c.filtered x (n + 1) - c.a2 * c.filtered x n :=
  congrFun (c.solves_filtered x) (n + 2)

/-- The gain solves the difference equation for a wave. -/
theorem gain_mul (hz : z ≠ 0) (hpole : z ^ 2 + c.a1 * z + c.a2 ≠ 0) :
    c.gain z * (z ^ 2 + c.a1 * z + c.a2) = c.b0 * z ^ 2 + c.b1 * z + c.b2 := by
  have hfeedback : 1 + c.a1 / z + c.a2 / z ^ 2 = (z ^ 2 + c.a1 * z + c.a2) / z ^ 2 := by
    field_simp
  rw [gain, hfeedback, div_div_eq_mul_div, div_mul_cancel₀ _ hpole]
  field_simp

/-- A wave times the gain solves the difference equation for that wave as input. -/
theorem wave_gain (hz : z ≠ 0) (hpole : z ^ 2 + c.a1 * z + c.a2 ≠ 0) (a : ℂ) (n : ℕ) :
    wave (a * c.gain z) z (n + 2) + c.a1 * wave (a * c.gain z) z (n + 1) +
        c.a2 * wave (a * c.gain z) z n =
      c.b0 * wave a z (n + 2) + c.b1 * wave a z (n + 1) + c.b2 * wave a z n := by
  simp only [wave, ← Complex.re_ofReal_mul, ← Complex.add_re]
  congr 1
  linear_combination a * z ^ n * gain_mul hz hpole

/-- Fed with a wave that neither grows nor falls, a stable filter settles on the wave times its
gain. -/
theorem Stable.settles (h : c.Stable) (hz : ‖z‖ = 1) (a : ℂ) :
    Tendsto (fun n => c.filtered (wave a z) n - wave (a * c.gain z) z n) atTop (𝓝 0) := by
  have hne : z ≠ 0 := norm_ne_zero_iff.1 (hz ▸ one_ne_zero)
  refine h.dies_out fun n => ?_
  rw [filtered_add_two]
  linear_combination -wave_gain hne (h.not_pole hz) a n

end Coefficients

end SynthRack
