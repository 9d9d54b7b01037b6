import Mathlib
import SynthRack.Proofs.Signal.Gain

/-!
# Designed filters

`designed_shape` says that every design is stable and has the shape its response is named for, at all
frequencies below half the sample rate and all qualities. The four designs have the same feedback and
differ in what they make of the inner signal, so their gains have one denominator (`gain_scaled`), of
which little is left at the centre frequency (`gain_centre`).

The designs are read over the real numbers with the circle they know.
-/

namespace SynthRack

open Filter Topology
open Complex (I)

/-- The functions of the circle over the real numbers. -/
noncomputable def Circle.real : Circle ℝ := ⟨Real.pi, Real.sin, Real.cos⟩

namespace Coefficients

/-- The coefficients of a response over the real numbers. -/
noncomputable def realDesign (response : Response) (frequency q sampleRate : ℝ) : Coefficients ℝ :=
  @design ℝ Circle.real.exact response frequency q sampleRate

/-- How far a wave turns in one sample. -/
noncomputable def angle (frequency sampleRate : ℝ) : ℝ := 2 * Real.pi * frequency / sampleRate

/-- The complex frequency of a wave. -/
noncomputable def turn (frequency sampleRate : ℝ) : ℂ :=
  Complex.exp (angle frequency sampleRate * I)

/-- Coefficients with the feedback that all designs share. -/
noncomputable def scaled (alpha cosine b0 b1 b2 : ℝ) : Coefficients ℝ :=
  ⟨-2 * cosine / (1 + alpha), (1 - alpha) / (1 + alpha), b0 / (1 + alpha), b1 / (1 + alpha),
    b2 / (1 + alpha)⟩

/-- What each response is named for: the gains at no frequency, at half the sample rate and at the
centre. -/
def HasShape (c : Coefficients ℝ) (q : ℝ) (centre : ℂ) : Response → Prop
  | .lowpass => c.gain 1 = 1 ∧ c.gain (-1) = 0 ∧ ‖c.gain centre‖ = q
  | .highpass => c.gain 1 = 0 ∧ ‖c.gain (-1)‖ = 1 ∧ ‖c.gain centre‖ = q
  | .bandpass => c.gain 1 = 0 ∧ c.gain (-1) = 0 ∧ c.gain centre = 1
  | .notch => c.gain 1 = 1 ∧ c.gain (-1) = 1 ∧ c.gain centre = 0

/-- All designs are scaled by the same number. -/
theorem real_design_eq (response : Response) (frequency q sampleRate : ℝ) :
    let cosine := Real.cos (angle frequency sampleRate)
    let alpha := Real.sin (angle frequency sampleRate) / (2 * q)
    realDesign response frequency q sampleRate =
      match response with
      | .lowpass => scaled alpha cosine ((1 - cosine) / 2) (1 - cosine) ((1 - cosine) / 2)
      | .highpass => scaled alpha cosine ((1 + cosine) / 2) (-(1 + cosine)) ((1 + cosine) / 2)
      | .bandpass => scaled alpha cosine alpha 0 (-alpha)
      | .notch => scaled alpha cosine 1 (-2 * cosine) 1 := by
  have htwo : @Number.two ℝ Number.exact = 2 := one_add_one_eq_two
  unfold realDesign design angle
  dsimp only
  rw [htwo]
  cases response <;> rfl

/-- The numbers of a design: a point in the upper half of the unit circle and a width. -/
structure Placed (sine cosine alpha q : ℝ) : Prop where
  sine_pos : 0 < sine
  on_circle : sine ^ 2 + cosine ^ 2 = 1
  quality_pos : 0 < q
  width : alpha = sine / (2 * q)

/-- At usable frequencies a design is placed. -/
theorem placed_angle {frequency q sampleRate : ℝ} (hlow : 0 < frequency)
    (hhigh : frequency < sampleRate / 2) (hq : 0 < q) :
    Placed (Real.sin (angle frequency sampleRate)) (Real.cos (angle frequency sampleRate))
      (Real.sin (angle frequency sampleRate) / (2 * q)) q := by
  have hrate : 0 < sampleRate := by linarith
  have hpositive : 0 < angle frequency sampleRate := by
    unfold angle
    positivity
  have hhalf : angle frequency sampleRate < Real.pi := by
    unfold angle
    rw [div_lt_iff₀ hrate]
    nlinarith [Real.pi_pos]
  exact ⟨Real.sin_pos_of_pos_of_lt_pi hpositive hhalf, Real.sin_sq_add_cos_sq _, hq, rfl⟩

namespace Placed

variable {sine cosine alpha q : ℝ} {z : ℂ}

/-- The width of a placed design is positive. -/
theorem alpha_pos (h : Placed sine cosine alpha q) : 0 < alpha := by
  rw [h.width]
  exact div_pos h.sine_pos (by linarith [h.quality_pos])

/-- The centre of a placed design is neither at no frequency nor at half the sample rate. -/
theorem cosine_lt (h : Placed sine cosine alpha q) : |cosine| < 1 := by
  rw [← sq_lt_one_iff_abs_lt_one]
  nlinarith [h.on_circle, h.sine_pos]

/-- The feedback of all designs is stable. -/
theorem stable (h : Placed sine cosine alpha q) (b0 b1 b2 : ℝ) :
    (scaled alpha cosine b0 b1 b2).Stable := by
  have halpha := h.alpha_pos
  have ha0 : 0 < 1 + alpha := by linarith
  obtain ⟨hlow, hhigh⟩ := abs_lt.1 h.cosine_lt
  constructor
  · show |(1 - alpha) / (1 + alpha)| < 1
    rw [abs_div, abs_of_pos ha0, div_lt_one ha0, abs_lt]
    constructor <;> linarith
  · show |-2 * cosine / (1 + alpha)| < 1 + (1 - alpha) / (1 + alpha)
    have hsum : 1 + (1 - alpha) / (1 + alpha) = 2 / (1 + alpha) := by
      field_simp
      ring
    rw [hsum, abs_div, abs_of_pos ha0, div_lt_div_iff_of_pos_right ha0, abs_lt]
    constructor <;> linarith

/-! ## Gains -/

/-- The gain of a placed design, as a quotient of two polynomials with real coefficients. -/
theorem gain_scaled (h : Placed sine cosine alpha q) (hz : z ≠ 0) (b0 b1 b2 : ℝ) :
    (scaled alpha cosine b0 b1 b2).gain z =
      (b0 * z ^ 2 + b1 * z + b2) / ((1 + alpha) * z ^ 2 - 2 * cosine * z + (1 - alpha)) := by
  have ha0 : (1 + alpha : ℂ) ≠ 0 := by
    exact_mod_cast (by linarith [h.alpha_pos] : 0 < 1 + alpha).ne'
  have hfactor : (1 + alpha) * z ^ 2 ≠ 0 := mul_ne_zero ha0 (pow_ne_zero 2 hz)
  rw [← mul_div_mul_left _ _ (inv_ne_zero hfactor)]
  unfold gain scaled
  push_cast
  congr 1 <;> field_simp
  ring

/-- The gain at no frequency. -/
theorem gain_one (h : Placed sine cosine alpha q) (b0 b1 b2 : ℝ) :
    (scaled alpha cosine b0 b1 b2).gain 1 = ((b0 + b1 + b2) / (2 - 2 * cosine) : ℝ) := by
  rw [h.gain_scaled one_ne_zero]
  push_cast
  congr 1 <;> ring

/-- The gain at half the sample rate. -/
theorem gain_neg_one (h : Placed sine cosine alpha q) (b0 b1 b2 : ℝ) :
    (scaled alpha cosine b0 b1 b2).gain (-1) = ((b0 - b1 + b2) / (2 + 2 * cosine) : ℝ) := by
  rw [h.gain_scaled (neg_ne_zero.2 one_ne_zero)]
  push_cast
  congr 1 <;> ring

/-- The centre lies on the unit circle, also as complex numbers have it. -/
theorem on_complex_circle (h : Placed sine cosine alpha q) : (sine : ℂ) ^ 2 + cosine ^ 2 = 1 := by
  exact_mod_cast h.on_circle

/-- A point of the unit circle solves the polynomial with its own cosine. -/
theorem centre_sq (h : Placed sine cosine alpha q) :
    (cosine + sine * I : ℂ) ^ 2 = 2 * cosine * (cosine + sine * I) - 1 := by
  linear_combination sine ^ 2 * Complex.I_sq - h.on_complex_circle

/-- What the polynomials of a design come to at its centre. -/
theorem centre_turned (h : Placed sine cosine alpha q) :
    cosine * (cosine + sine * I) - 1 = sine * I * (cosine + sine * I) := by
  linear_combination -sine ^ 2 * Complex.I_sq + h.on_complex_circle

/-- The centre is not zero. -/
theorem centre_ne_zero (h : Placed sine cosine alpha q) : (cosine + sine * I : ℂ) ≠ 0 := by
  intro hzero
  have him := congrArg Complex.im hzero
  simp at him
  exact h.sine_pos.ne' him

/-- At the centre, only the width is left of the feedback. -/
theorem gain_centre (h : Placed sine cosine alpha q) (b0 b1 b2 : ℝ) :
    (scaled alpha cosine b0 b1 b2).gain (cosine + sine * I) =
      (b0 * (cosine + sine * I) ^ 2 + b1 * (cosine + sine * I) + b2) /
        (2 * alpha * sine * I * (cosine + sine * I)) := by
  have hfeedback : (1 + alpha) * (cosine + sine * I : ℂ) ^ 2 - 2 * cosine * (cosine + sine * I) +
      (1 - alpha) = 2 * alpha * sine * I * (cosine + sine * I) := by
    rw [h.centre_sq]
    linear_combination 2 * alpha * h.centre_turned
  rw [h.gain_scaled h.centre_ne_zero, hfeedback]

/-- What passes the square of the sine at the centre is made as strong as the quality. -/
theorem norm_gain_centre (h : Placed sine cosine alpha q) {b0 b1 b2 : ℝ} (sign : ℂ)
    (hsign : ‖sign‖ = 1)
    (hpasses : b0 * (cosine + sine * I : ℂ) ^ 2 + b1 * (cosine + sine * I) + b2 =
      sign * sine ^ 2 * (cosine + sine * I)) :
    ‖(scaled alpha cosine b0 b1 b2).gain (cosine + sine * I)‖ = q := by
  have hsine : (sine : ℂ) ≠ 0 := Complex.ofReal_ne_zero.2 h.sine_pos.ne'
  have hq : (q : ℂ) ≠ 0 := Complex.ofReal_ne_zero.2 h.quality_pos.ne'
  have hne := h.centre_ne_zero
  have hgain : (scaled alpha cosine b0 b1 b2).gain (cosine + sine * I) = sign * q / I := by
    rw [h.gain_centre, hpasses, h.width]
    push_cast
    field_simp
  rw [hgain, norm_div, norm_mul, hsign, one_mul, Complex.norm_I, div_one, Complex.norm_real,
    Real.norm_of_nonneg h.quality_pos.le]

/-! ## Shapes -/

/-- A placed lowpass passes low frequencies, stops high ones and has its quality as gain at the
centre. -/
theorem lowpass_shape (h : Placed sine cosine alpha q) :
    (scaled alpha cosine ((1 - cosine) / 2) (1 - cosine) ((1 - cosine) / 2)).HasShape q
      (cosine + sine * I) .lowpass := by
  obtain ⟨hlow, hhigh⟩ := abs_lt.1 h.cosine_lt
  refine ⟨?one, ?half, h.norm_gain_centre 1 norm_one ?centre⟩
  case one =>
    rw [h.gain_one, Complex.ofReal_eq_one, div_eq_one_iff_eq (by linarith)]
    ring
  case half =>
    rw [h.gain_neg_one, Complex.ofReal_eq_zero]
    ring
  case centre =>
    rw [h.centre_sq]
    push_cast
    linear_combination (-(cosine + sine * I) : ℂ) * h.on_complex_circle

/-- A placed highpass stops low frequencies, passes high ones and has its quality as gain at the
centre. -/
theorem highpass_shape (h : Placed sine cosine alpha q) :
    (scaled alpha cosine ((1 + cosine) / 2) (-(1 + cosine)) ((1 + cosine) / 2)).HasShape q
      (cosine + sine * I) .highpass := by
  obtain ⟨hlow, hhigh⟩ := abs_lt.1 h.cosine_lt
  refine ⟨?one, ?half, h.norm_gain_centre (-1) (by simp) ?centre⟩
  case one =>
    rw [h.gain_one, Complex.ofReal_eq_zero]
    ring
  case half =>
    have hall : ((1 + cosine) / 2 - -(1 + cosine) + (1 + cosine) / 2) / (2 + 2 * cosine) = 1 := by
      rw [div_eq_one_iff_eq (by linarith)]
      ring
    rw [h.gain_neg_one, hall]
    simp
  case centre =>
    rw [h.centre_sq]
    push_cast
    linear_combination (cosine + sine * I : ℂ) * h.on_complex_circle

/-- A placed bandpass passes its centre unchanged and stops both ends. -/
theorem bandpass_shape (h : Placed sine cosine alpha q) :
    (scaled alpha cosine alpha 0 (-alpha)).HasShape q (cosine + sine * I) .bandpass := by
  refine ⟨?one, ?half, ?centre⟩
  case one => simp [h.gain_one]
  case half => simp [h.gain_neg_one]
  case centre =>
    have halpha : (alpha : ℂ) ≠ 0 := Complex.ofReal_ne_zero.2 h.alpha_pos.ne'
    have hsine : (sine : ℂ) ≠ 0 := Complex.ofReal_ne_zero.2 h.sine_pos.ne'
    have hne : 2 * alpha * sine * I * (cosine + sine * I) ≠ 0 :=
      mul_ne_zero (mul_ne_zero (mul_ne_zero (mul_ne_zero two_ne_zero halpha) hsine) Complex.I_ne_zero)
        h.centre_ne_zero
    rw [h.gain_centre, div_eq_one_iff_eq hne, h.centre_sq]
    push_cast
    linear_combination 2 * alpha * h.centre_turned

/-- A placed notch stops its centre and passes both ends unchanged. -/
theorem notch_shape (h : Placed sine cosine alpha q) :
    (scaled alpha cosine 1 (-2 * cosine) 1).HasShape q (cosine + sine * I) .notch := by
  obtain ⟨hlow, hhigh⟩ := abs_lt.1 h.cosine_lt
  refine ⟨?one, ?half, ?centre⟩
  case one =>
    rw [h.gain_one, Complex.ofReal_eq_one, div_eq_one_iff_eq (by linarith)]
    ring
  case half =>
    rw [h.gain_neg_one, Complex.ofReal_eq_one, div_eq_one_iff_eq (by linarith)]
    ring
  case centre =>
    rw [h.gain_centre, h.centre_sq]
    push_cast
    ring

end Placed

/-- A wave's complex frequency has the cosine and the sine of its angle as its parts. -/
theorem turn_eq (frequency sampleRate : ℝ) :
    turn frequency sampleRate =
      Real.cos (angle frequency sampleRate) + Real.sin (angle frequency sampleRate) * I := by
  rw [turn, Complex.exp_mul_I, Complex.ofReal_cos, Complex.ofReal_sin]

/-- At a frequency below half the sample rate and with any quality, every design is stable, its poles
are inside the unit circle, and it has the shape of its response. The gains are those of the samples:
fed with a wave, the filter settles on the wave times its gain. -/
theorem designed_shape (response : Response) {frequency q sampleRate : ℝ} (hlow : 0 < frequency)
    (hhigh : frequency < sampleRate / 2) (hq : 0 < q) :
    let c := realDesign response frequency q sampleRate
    c.Stable ∧ (∀ z : ℂ, z ^ 2 + c.a1 * z + c.a2 = 0 → ‖z‖ < 1) ∧
      c.HasShape q (turn frequency sampleRate) response ∧
      ∀ a z : ℂ, ‖z‖ = 1 →
        Tendsto (fun n => c.filtered (wave a z) n - wave (a * c.gain z) z n) atTop (𝓝 0) := by
  intro c
  have hplaced := placed_angle hlow hhigh hq
  have hdesign : c.Stable ∧ c.HasShape q (turn frequency sampleRate) response := by
    have hc : c = _ := real_design_eq response frequency q sampleRate
    rw [turn_eq, hc]
    cases response with
    | lowpass => exact ⟨hplaced.stable _ _ _, hplaced.lowpass_shape⟩
    | highpass => exact ⟨hplaced.stable _ _ _, hplaced.highpass_shape⟩
    | bandpass => exact ⟨hplaced.stable _ _ _, hplaced.bandpass_shape⟩
    | notch => exact ⟨hplaced.stable _ _ _, hplaced.notch_shape⟩
  exact ⟨hdesign.1, fun z hz => hdesign.1.pole_lt hz, hdesign.2,
    fun a z hz => hdesign.1.settles hz a⟩

/-- A resonant lowpass at a quarter of the sample rate, switched on: a constant input is passed on in
the end, though a wave at the centre is made ten times as strong. -/
theorem designed_shape_resonant :
    let c := realDesign .lowpass 11025 10 44100
    (0 : ℝ) < 11025 ∧ (11025 : ℝ) < 44100 / 2 ∧ (0 : ℝ) < 10 ∧ c.Stable ∧ ‖c.gain I‖ = 10 ∧
      Tendsto (c.filtered fun _ => 1) atTop (𝓝 1) := by
  intro c
  have hlow : (0 : ℝ) < 11025 := by norm_num
  have hhigh : (11025 : ℝ) < 44100 / 2 := by norm_num
  have hq : (0 : ℝ) < 10 := by norm_num
  obtain ⟨hstable, -, ⟨hone, -, hcentre⟩, hsettles⟩ := designed_shape .lowpass hlow hhigh hq
  have hturn : turn 11025 44100 = I := by
    have hangle : angle 11025 44100 = Real.pi / 2 := by
      unfold angle
      ring
    rw [turn_eq, hangle, Real.cos_pi_div_two, Real.sin_pi_div_two]
    simp
  have hconstant : wave 1 1 = fun _ => (1 : ℝ) := by
    funext n
    simp [wave]
  have hsettled := hsettles 1 1 norm_one
  rw [hone, mul_one, hconstant] at hsettled
  exact ⟨hlow, hhigh, hq, hstable, hturn ▸ hcentre, tendsto_sub_nhds_zero_iff.1 hsettled⟩

end Coefficients

end SynthRack
