import Mathlib
import SynthRack.Signal.Filter
import SynthRack.Proofs.Signal.Exact

/-!
# Filters as difference equations

A filter keeps two taps, and they hold neither past inputs nor past outputs but a signal of its own.
Over exact numbers this cannot be heard: `is_filter` says that the output is the one solution of the
difference equation of the coefficients, started from silence. The taps are the last two values of
the inner signal (`taps_eq`). It is the input after feedback (`inner_eq`), the output is a sum of
it and its delays (`filtered_eq`), and as delays commute with such sums, so do the two equations
(`solves_filtered`).

Signals are sequences from sample zero on, with silence before: `delayed k` moves a signal `k`
samples later.
-/

namespace SynthRack

variable {K : Type} [Field K]

/-! ## Delays -/

/-- A signal `k` samples later, after silence. -/
def delayed (k : ℕ) : (ℕ → K) →ₗ[K] ℕ → K where
  toFun x n := if k ≤ n then x (n - k) else 0
  map_add' x y := by
    funext n
    by_cases h : k ≤ n <;> simp [h]
  map_smul' a x := by
    funext n
    by_cases h : k ≤ n <;> simp [h]

/-- A delayed signal is silent until the delay is over, and then the signal. -/
theorem delayed_apply (k : ℕ) (x : ℕ → K) (n : ℕ) :
    delayed k x n = if k ≤ n then x (n - k) else 0 := rfl

/-- No delay changes nothing. -/
theorem delayed_zero (x : ℕ → K) : delayed 0 x = x := rfl

/-- Delays add up. -/
theorem delayed_delayed (j k : ℕ) (x : ℕ → K) : delayed j (delayed k x) = delayed (j + k) x := by
  funext n
  simp only [delayed_apply]
  by_cases hj : j ≤ n
  · have hsum : k ≤ n - j ↔ j + k ≤ n := by omega
    rw [if_pos hj, Nat.sub_sub]
    simp only [hsum]
  · rw [if_neg hj, if_neg (by omega)]

/-- The order of two delays does not matter. -/
theorem delayed_comm (j k : ℕ) (x : ℕ → K) : delayed j (delayed k x) = delayed k (delayed j x) := by
  rw [delayed_delayed, delayed_delayed, Nat.add_comm]

namespace Coefficients

variable {c : Coefficients K} {x y z : ℕ → K}

/-! ## The difference equation -/

/-- The signals are input and output of the difference equation, with silence before them. -/
def Solves (c : Coefficients K) (x y : ℕ → K) : Prop :=
  y = c.b0 • x + c.b1 • delayed 1 x + c.b2 • delayed 2 x - c.a1 • delayed 1 y - c.a2 • delayed 2 y

/-- A later value of a solution is fixed by earlier ones, so there is one solution only. -/
theorem Solves.eq (hy : c.Solves x y) (hz : c.Solves x z) : y = z := by
  funext n
  induction n using Nat.strong_induction_on with
  | h n ih =>
      have hdelayed {k : ℕ} (hk : 0 < k) : delayed k y n = delayed k z n := by
        rw [delayed_apply, delayed_apply]
        split
        case isTrue hle => exact ih (n - k) (by omega)
        case isFalse => rfl
      have hyn := congrFun hy n
      have hzn := congrFun hz n
      simp only [Pi.sub_apply, Pi.add_apply, Pi.smul_apply] at hyn hzn
      rw [hyn, hzn, hdelayed one_pos, hdelayed two_pos]

/-- The outputs of two inputs add up to an output of their sum. -/
theorem Solves.add {x' y' : ℕ → K} (h : c.Solves x y) (h' : c.Solves x' y') :
    c.Solves (x + x') (y + y') := by
  unfold Solves at h h' ⊢
  simp only [map_add]
  nth_rewrite 1 [h, h']
  module

/-- Scaling the input scales the output. -/
theorem Solves.smul (h : c.Solves x y) (a : K) : c.Solves (a • x) (a • y) := by
  unfold Solves at h ⊢
  simp only [map_smul]
  nth_rewrite 1 [h]
  module

/-- Delaying the input delays the output. -/
theorem Solves.delayed (h : c.Solves x y) (k : ℕ) :
    c.Solves (SynthRack.delayed k x) (SynthRack.delayed k y) := by
  have hdelayed := congrArg (SynthRack.delayed k) h
  simp only [map_sub, map_add, map_smul, delayed_comm k] at hdelayed
  exact hdelayed

/-- A map of signals is the filter with these coefficients, started from silence. -/
structure IsFilter (c : Coefficients K) (filter : (ℕ → K) → ℕ → K) : Prop where
  equation : ∀ x n, filter x n =
    c.b0 * x n + c.b1 * delayed 1 x n + c.b2 * delayed 2 x n -
      c.a1 * delayed 1 (filter x) n - c.a2 * delayed 2 (filter x) n
  linear : IsLinearMap K filter
  /-- An input that starts later gives the same output, later. -/
  time_invariant : ∀ k x, filter (delayed k x) = delayed k (filter x)

/-! ## The inner signal -/

variable [LinearOrder K] [FloorRing K]

/-- One sample over exact numbers: the output and the next taps. -/
def exactTick (c : Coefficients K) (signal z1 z2 : K) : K × K × K :=
  @tick K Number.exact c signal z1 z2

/-- The taps before sample `n`, from zero on. -/
def taps (c : Coefficients K) (x : ℕ → K) : ℕ → K × K
  | 0 => (0, 0)
  | n + 1 => (c.exactTick (x n) (c.taps x n).1 (c.taps x n).2).2

/-- The outputs of a filter that starts from silence. -/
def filtered (c : Coefficients K) (x : ℕ → K) (n : ℕ) : K :=
  (c.exactTick (x n) (c.taps x n).1 (c.taps x n).2).1

/-- The inner signal: what the first tap holds after each sample. -/
def inner (c : Coefficients K) (x : ℕ → K) (n : ℕ) : K := (c.taps x (n + 1)).1

/-- One sample over exact numbers, in terms of the inner signal and the two before it. -/
theorem exact_tick_eq (c : Coefficients K) (signal z1 z2 : K) :
    c.exactTick signal z1 z2 =
      (c.b0 * (signal - c.a1 * z1 - c.a2 * z2) + c.b1 * z1 + c.b2 * z2,
        signal - c.a1 * z1 - c.a2 * z2, z1) := rfl

/-- The taps are the last two values of the inner signal. -/
theorem taps_eq (c : Coefficients K) (x : ℕ → K) (n : ℕ) :
    c.taps x n = (delayed 1 (c.inner x) n, delayed 2 (c.inner x) n) := by
  cases n with
  | zero => rfl
  | succ n =>
      refine Prod.ext rfl ?_
      show (c.taps x n).1 = _
      cases n with
      | zero => rfl
      | succ n => rfl

/-- The inner signal is the input after feedback. -/
theorem inner_eq (c : Coefficients K) (x : ℕ → K) :
    c.inner x = x - c.a1 • delayed 1 (c.inner x) - c.a2 • delayed 2 (c.inner x) := by
  funext n
  show (c.exactTick (x n) (c.taps x n).1 (c.taps x n).2).2.1 = _
  rw [exact_tick_eq, taps_eq]
  rfl

/-- The output is a sum of the inner signal and its delays. -/
theorem filtered_eq (c : Coefficients K) (x : ℕ → K) :
    c.filtered x =
      c.b0 • c.inner x + c.b1 • delayed 1 (c.inner x) + c.b2 • delayed 2 (c.inner x) := by
  funext n
  have hinner := congrFun (c.inner_eq x) n
  show (c.exactTick (x n) (c.taps x n).1 (c.taps x n).2).1 = _
  rw [exact_tick_eq, taps_eq]
  show c.b0 * (x n - c.a1 * delayed 1 (c.inner x) n - c.a2 * delayed 2 (c.inner x) n) +
    c.b1 * delayed 1 (c.inner x) n + c.b2 * delayed 2 (c.inner x) n = _
  rw [← show c.inner x n = x n - c.a1 * delayed 1 (c.inner x) n - c.a2 * delayed 2 (c.inner x) n
    from hinner]
  rfl

/-! ## Filters of signals -/

/-- The input is the inner signal with its feedback undone. -/
theorem delayed_input (c : Coefficients K) (x : ℕ → K) (k : ℕ) :
    delayed k x = delayed k (c.inner x) + c.a1 • delayed (k + 1) (c.inner x) +
      c.a2 • delayed (k + 2) (c.inner x) := by
  have hinput : x = c.inner x + c.a1 • delayed 1 (c.inner x) + c.a2 • delayed 2 (c.inner x) := by
    nth_rewrite 1 [c.inner_eq x]
    abel
  nth_rewrite 1 [hinput]
  simp only [map_add, map_smul, delayed_delayed]

/-- The output is made of the inner signal and the two samples of it before. -/
theorem delayed_filtered (c : Coefficients K) (x : ℕ → K) (k : ℕ) :
    delayed k (c.filtered x) = c.b0 • delayed k (c.inner x) + c.b1 • delayed (k + 1) (c.inner x) +
      c.b2 • delayed (k + 2) (c.inner x) := by
  simp only [filtered_eq, map_add, map_smul, delayed_delayed]

/-- Input and output of a filter solve its difference equation: written with the inner signal, both
sides are the same sum of its delays. -/
theorem solves_filtered (c : Coefficients K) (x : ℕ → K) : c.Solves x (c.filtered x) := by
  have hinput := c.delayed_input x 0
  have houtput := c.delayed_filtered x 0
  rw [delayed_zero] at hinput houtput
  unfold Solves
  rw [c.delayed_input x 1, c.delayed_input x 2, c.delayed_filtered x 1, c.delayed_filtered x 2,
    houtput]
  generalize c.inner x = w at hinput ⊢
  rw [hinput]
  module

/-- The samples of a filter are those of its difference equation, for every input; they depend on the
input linearly and not on when it starts. With the identity's coefficients they are the input. -/
theorem is_filter (c : Coefficients K) :
    c.IsFilter c.filtered ∧ ∀ x : ℕ → K, (⟨0, 0, 1, 0, 0⟩ : Coefficients K).filtered x = x := by
  refine ⟨⟨fun x n => congrFun (c.solves_filtered x) n, ⟨fun x y => ?add, fun a x => ?smul⟩,
    fun k x => ?time⟩, fun x => ?identity⟩
  case add => exact (c.solves_filtered _).eq ((c.solves_filtered x).add (c.solves_filtered y))
  case smul => exact (c.solves_filtered _).eq ((c.solves_filtered x).smul a)
  case time => exact (c.solves_filtered _).eq ((c.solves_filtered x).delayed k)
  case identity =>
    refine (solves_filtered _ x).eq ?_
    unfold Solves
    module

end Coefficients

end SynthRack
