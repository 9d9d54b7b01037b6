import Mathlib
import SynthRack.Proofs.Signal.Envelope

/-!
# The course of an envelope

With constant times an envelope over exact numbers follows three straight lines. `held` gives its
stage and level after any number of samples of an open gate, and `released` after the gate dropped;
one sample leads from each to the next (`held_next`, `released_next`), so runs of any length are known
(`run_held`, `run_released`). The times need not be whole numbers of samples: a stage ends with the
first sample that reaches its end. `follows_course` collects what this says of the stages, of when they
begin and of the order of the levels.
-/

namespace SynthRack

namespace Adsr

variable {K : Type} [Field K] [LinearOrder K] [IsStrictOrderedRing K] [FloorRing K]

/-- Samples of one length and with the same times, one for each gate. -/
def readings (times : Adsr K) (dt : K) (gates : List K) : List (Reading K) :=
  gates.map fun gate => ⟨times, gate, dt⟩

/-- Times and samples that last, and a sustain level below one. -/
structure Steady (times : Adsr K) (dt : K) : Prop where
  attack : 0 < times.attack
  decay : 0 < times.decay
  release : 0 < times.release
  sustain : times.sustain < 1
  dt : 0 < dt

/-- The stage and the level after `k` samples of an open gate. -/
def held (times : Adsr K) (dt : K) (k : ℕ) : Stage × K :=
  let peak := ⌈times.attack / dt⌉₊
  if k < peak then (.attack, k * dt / times.attack)
  else if k < peak + ⌈times.decay / dt⌉₊ then
    (.decay, 1 - (1 - times.sustain) * (k - peak : ℕ) * dt / times.decay)
  else (.sustain, times.sustain)

/-- The stage and the level `m` samples after the gate dropped at a level; at least one sample. -/
def released (times : Adsr K) (dt level : K) (m : ℕ) : Stage × K :=
  (.attack, max 0 (level - m * dt / times.release))

variable {times : Adsr K} {dt gate level : K}

/-- A duration is longer than some samples when it covers more samples. -/
theorem lt_samples_iff (hdt : 0 < dt) (duration : K) (k : ℕ) :
    k < ⌈duration / dt⌉₊ ↔ k * dt < duration := by
  rw [Nat.lt_ceil, lt_div_iff₀ hdt]

/-! ## A held gate -/

/-- Until the attack is over, the level of a held envelope is a straight line from zero. -/
theorem held_attack (hdt : 0 < dt) {k : ℕ} (hk : k * dt < times.attack) :
    times.held dt k = (.attack, k * dt / times.attack) :=
  if_pos ((lt_samples_iff hdt _ _).2 hk)

/-- Until the decay is over, the level is a straight line from one to the sustain level. -/
theorem held_decay (hdt : 0 < dt) {j : ℕ} (hj : j * dt < times.decay) :
    times.held dt (⌈times.attack / dt⌉₊ + j) =
      (.decay, 1 - (1 - times.sustain) * j * dt / times.decay) := by
  have hlast := (lt_samples_iff hdt _ _).2 hj
  unfold held
  rw [if_neg (by omega), if_pos (by omega), Nat.add_sub_cancel_left]

omit [IsStrictOrderedRing K] in
/-- After attack and decay, the level of a held envelope is the sustain level. -/
theorem held_sustain {k : ℕ} (hk : ⌈times.attack / dt⌉₊ + ⌈times.decay / dt⌉₊ ≤ k) :
    times.held dt k = (.sustain, times.sustain) := by
  unfold held
  rw [if_neg (by omega), if_neg (by omega)]

/-- The attack ends at one, on the first sample that reaches it. -/
theorem held_peak (h : times.Steady dt) : times.held dt ⌈times.attack / dt⌉₊ = (.decay, 1) := by
  simpa using held_decay (j := 0) h.dt (by simpa using h.decay)

/-- One sample of an open gate leads from each place of the course to the next. -/
theorem held_next (h : times.Steady dt) (hgate : 0 < gate) (k : ℕ) :
    Reading.exactNext ⟨times, gate, dt⟩ (times.held dt k) = times.held dt (k + 1) := by
  rcases Nat.lt_or_ge k ⌈times.attack / dt⌉₊ with hrising | hpast
  · have hlevel : (k : K) * dt / times.attack + dt / times.attack =
        (k + 1 : ℕ) * dt / times.attack := by
      push_cast
      ring
    rw [held_attack h.dt ((lt_samples_iff h.dt _ _).1 hrising), exact_attack hgate]
    dsimp only
    rw [hlevel]
    split
    case isTrue hmore => rw [held_attack h.dt ((div_lt_one h.attack).1 hmore)]
    case isFalse hend =>
      rw [div_lt_one h.attack, ← lt_samples_iff h.dt] at hend
      have hpeak : k + 1 = ⌈times.attack / dt⌉₊ := by omega
      rw [hpeak, held_peak h]
  obtain ⟨j, rfl⟩ := Nat.exists_eq_add_of_le hpast
  rcases Nat.lt_or_ge j ⌈times.decay / dt⌉₊ with hfalling | hdone
  · have hlevel : 1 - (1 - times.sustain) * j * dt / times.decay -
        (1 - times.sustain) * dt / times.decay =
          1 - (1 - times.sustain) * (j + 1 : ℕ) * dt / times.decay := by
      push_cast
      ring
    have hmore : times.sustain < 1 - (1 - times.sustain) * (j + 1 : ℕ) * dt / times.decay ↔
        (j + 1 : ℕ) * dt < times.decay := by
      have hrest : 0 < 1 - times.sustain := sub_pos.2 h.sustain
      rw [lt_sub_comm, mul_assoc, mul_div_assoc, mul_lt_iff_lt_one_right hrest, div_lt_one h.decay]
    rw [held_decay h.dt ((lt_samples_iff h.dt _ _).1 hfalling), exact_decay hgate]
    dsimp only
    rw [hlevel, Nat.add_assoc]
    split
    case isTrue habove => rw [held_decay h.dt (hmore.1 habove)]
    case isFalse hend =>
      rw [hmore, ← lt_samples_iff h.dt] at hend
      rw [held_sustain (by omega)]
  · rw [held_sustain (by omega), held_sustain (by omega), exact_sustain hgate]
    dsimp only
    rw [sub_self, abs_zero, if_pos (div_pos h.dt h.decay)]

/-- An open gate, however long, takes the envelope along its course. -/
theorem run_held (h : times.Steady dt) {gates : List K} (hgates : ∀ gate ∈ gates, 0 < gate) :
    exactRun (.attack, 0) (times.readings dt gates) = times.held dt gates.length := by
  induction gates using List.reverseRecOn with
  | nil =>
      have hstart : times.held dt 0 = (.attack, 0) := by
        simpa using held_attack (k := 0) h.dt (by simpa using h.attack)
      exact hstart.symm
  | append_singleton gates gate ih =>
      simp only [List.mem_append, List.mem_singleton] at hgates
      rw [readings, List.map_append, List.map_singleton, exact_run_concat, ← readings,
        ih fun g hg => hgates g (.inl hg), held_next h (hgates gate (.inr rfl)), List.length_append,
        List.length_singleton]

/-- Levels rise to the peak. -/
theorem held_rises (h : times.Steady dt) {k l : ℕ} (hkl : k ≤ l) (hl : l ≤ ⌈times.attack / dt⌉₊) :
    (times.held dt k).2 ≤ (times.held dt l).2 := by
  rcases Nat.lt_or_ge k ⌈times.attack / dt⌉₊ with hk | hk
  · have hlow := (lt_samples_iff h.dt _ _).1 hk
    rw [held_attack h.dt hlow]
    rcases Nat.lt_or_ge l ⌈times.attack / dt⌉₊ with hl | hl'
    · rw [held_attack h.dt ((lt_samples_iff h.dt _ _).1 hl)]
      have hcast : (k : K) ≤ l := Nat.cast_le.2 hkl
      exact div_le_div_of_nonneg_right (mul_le_mul_of_nonneg_right hcast h.dt.le) h.attack.le
    · obtain rfl := le_antisymm hl hl'
      rw [held_peak h]
      exact (div_le_one h.attack).2 hlow.le
  · rw [le_antisymm hkl (hl.trans hk)]

/-- Levels fall from the peak. -/
theorem held_falls (h : times.Steady dt) {k l : ℕ} (hk : ⌈times.attack / dt⌉₊ ≤ k) (hkl : k ≤ l) :
    (times.held dt l).2 ≤ (times.held dt k).2 := by
  induction l, hkl using Nat.le_induction with
  | base => exact le_rfl
  | succ l hl ih =>
      refine le_trans ?_ ih
      have hrest : 0 ≤ 1 - times.sustain := (sub_pos.2 h.sustain).le
      have hfall : 0 ≤ (1 - times.sustain) * dt / times.decay :=
        div_nonneg (mul_nonneg hrest h.dt.le) h.decay.le
      rw [← held_next h zero_lt_one l]
      obtain ⟨j, rfl⟩ := Nat.exists_eq_add_of_le (hk.trans hl)
      rcases Nat.lt_or_ge j ⌈times.decay / dt⌉₊ with hfalling | hdone
      · have hj := (lt_samples_iff h.dt _ _).1 hfalling
        have habove : times.sustain ≤ 1 - (1 - times.sustain) * j * dt / times.decay := by
          rw [le_sub_comm, mul_assoc, mul_div_assoc]
          exact mul_le_of_le_one_right hrest ((div_le_one h.decay).2 hj.le)
        rw [held_decay h.dt hj, exact_decay zero_lt_one]
        split
        case isTrue => exact sub_le_self _ hfall
        case isFalse => exact habove
      · rw [held_next h zero_lt_one, held_sustain (by omega), held_sustain (by omega)]

/-! ## A dropped gate -/

/-- One sample of a dropped gate lowers the level until it is zero. -/
theorem released_next (h : times.Steady dt) (hgate : gate ≤ 0) (level : K) (m : ℕ) :
    Reading.exactNext ⟨times, gate, dt⟩ (times.released dt level m) =
      times.released dt level (m + 1) := by
  have hfall : 0 < dt / times.release := div_pos h.dt h.release
  have hlevel : level - (m + 1 : ℕ) * dt / times.release =
      level - m * dt / times.release - dt / times.release := by
    push_cast
    ring
  unfold released
  rw [hlevel]
  rcases lt_or_ge 0 (level - m * dt / times.release) with hpos | hzero
  · rw [max_eq_right hpos.le, exact_released hgate hpos]
  · rw [max_eq_left hzero, exact_silent hgate le_rfl, max_eq_left (by linarith)]

/-- A dropped gate lowers any level, and the stage is the attack from the first sample on. -/
theorem run_released (h : times.Steady dt) (stage : Stage) (hlevel : 0 < level) {gates : List K}
    (hgates : ∀ gate ∈ gates, gate ≤ 0) (hsome : gates ≠ []) :
    exactRun (stage, level) (times.readings dt gates) = times.released dt level gates.length := by
  induction gates using List.reverseRecOn with
  | nil => exact absurd rfl hsome
  | append_singleton gates gate ih =>
      simp only [List.mem_append, List.mem_singleton] at hgates
      rw [readings, List.map_append, List.map_singleton, exact_run_concat, ← readings,
        List.length_append, List.length_singleton]
      rcases eq_or_ne gates [] with rfl | hmore
      · have hfirst := exact_released (r := ⟨times, gate, dt⟩) (hgates gate (.inr rfl)) hlevel stage
        simpa [released, readings, exactRun, run] using hfirst
      · rw [ih (fun g hg => hgates g (.inl hg)) hmore, released_next h (hgates gate (.inr rfl))]

/-- The level after a release is zero when the samples cover the way from it to zero. -/
theorem released_eq_zero_iff (h : times.Steady dt) (level : K) (m : ℕ) :
    (times.released dt level m).2 = 0 ↔ ⌈level * times.release / dt⌉₊ ≤ m := by
  unfold released
  rw [max_eq_left_iff, sub_nonpos, le_div_iff₀ h.release, Nat.ceil_le, div_le_iff₀ h.dt]

/-! ## The course -/

/-- Where an envelope with constant times is after any number of samples. -/
structure FollowsCourse (times : Adsr K) (dt : K) : Prop where
  /-- The attack rises from zero in a straight line. -/
  attack : ∀ gates : List K, (∀ gate ∈ gates, 0 < gate) → gates.length * dt < times.attack →
    exactRun (.attack, 0) (times.readings dt gates) =
      (.attack, gates.length * dt / times.attack)
  peak : ∀ gates : List K, (∀ gate ∈ gates, 0 < gate) →
    gates.length = ⌈times.attack / dt⌉₊ →
    exactRun (.attack, 0) (times.readings dt gates) = (.decay, 1)
  /-- The decay falls from one in a straight line. -/
  decay : ∀ (gates : List K) (j : ℕ), (∀ gate ∈ gates, 0 < gate) →
    gates.length = ⌈times.attack / dt⌉₊ + j → j * dt < times.decay →
    exactRun (.attack, 0) (times.readings dt gates) =
      (.decay, 1 - (1 - times.sustain) * j * dt / times.decay)
  sustain : ∀ gates : List K, (∀ gate ∈ gates, 0 < gate) →
    ⌈times.attack / dt⌉₊ + ⌈times.decay / dt⌉₊ ≤ gates.length →
    exactRun (.attack, 0) (times.readings dt gates) = (.sustain, times.sustain)
  rises : ∀ gates more : List K, (∀ gate ∈ gates ++ more, 0 < gate) →
    (gates ++ more).length ≤ ⌈times.attack / dt⌉₊ →
    (exactRun (.attack, 0) (times.readings dt gates)).2 ≤
      (exactRun (.attack, 0) (times.readings dt (gates ++ more))).2
  falls : ∀ gates more : List K, (∀ gate ∈ gates ++ more, 0 < gate) →
    ⌈times.attack / dt⌉₊ ≤ gates.length →
    (exactRun (.attack, 0) (times.readings dt (gates ++ more))).2 ≤
      (exactRun (.attack, 0) (times.readings dt gates)).2
  /-- From any stage and level, a dropped gate leads down in a straight line. -/
  release : ∀ (state : Stage × K) (gates : List K), 0 < state.2 → (∀ gate ∈ gates, gate ≤ 0) →
    gates ≠ [] → exactRun state (times.readings dt gates) =
      (.attack, max 0 (state.2 - gates.length * dt / times.release))
  /-- The level is zero from a certain sample on and not before. -/
  silence : ∀ (state : Stage × K) (gates : List K), 0 < state.2 → (∀ gate ∈ gates, gate ≤ 0) →
    ((exactRun state (times.readings dt gates)).2 = 0 ↔
      ⌈state.2 * times.release / dt⌉₊ ≤ gates.length)

/-- An envelope with constant times follows the course of its times. -/
theorem follows_course (times : Adsr K) (dt : K) (h : times.Steady dt) :
    times.FollowsCourse dt where
  attack gates hgates hlength := by rw [run_held h hgates, held_attack h.dt hlength]
  peak gates hgates hlength := by rw [run_held h hgates, hlength, held_peak h]
  decay gates j hgates hlength hj := by rw [run_held h hgates, hlength, held_decay h.dt hj]
  sustain gates hgates hlength := by rw [run_held h hgates, held_sustain hlength]
  rises gates more hgates hlength := by
    rw [run_held h fun g hg => hgates g (List.mem_append_left _ hg), run_held h hgates]
    exact held_rises h (by simp) hlength
  falls gates more hgates hlength := by
    rw [run_held h fun g hg => hgates g (List.mem_append_left _ hg), run_held h hgates]
    exact held_falls h hlength (by simp)
  release state gates hlevel hgates hsome := run_released h state.1 hlevel hgates hsome
  silence state gates hlevel hgates := by
    rcases eq_or_ne gates [] with rfl | hsome
    · have hlong : 0 < ⌈state.2 * times.release / dt⌉₊ :=
        Nat.ceil_pos.2 (div_pos (mul_pos hlevel h.release) h.dt)
      exact iff_of_false hlevel.ne' (by simpa using hlong)
    · rw [run_released h state.1 hlevel hgates hsome, released_eq_zero_iff h]

/-- Times that are no whole numbers of samples, and gates of different heights. -/
theorem follows_course_uneven :
    let times : Adsr ℚ := ⟨1 / 2, 2 / 5, 1 / 4, 3 / 5⟩
    times.Steady (1 / 4) ∧
      exactRun (.attack, 0) (times.readings (1 / 4) [1, 1 / 2, 3]) = (.decay, 17 / 32) ∧
      exactRun (.decay, 17 / 32) (times.readings (1 / 4) [0, -1]) = (.attack, 0) := by
  intro times
  have hsteady : times.Steady (1 / 4) := by constructor <;> norm_num [times]
  have hpeak : ⌈times.attack / (1 / 4)⌉₊ = 2 := by norm_num [times]
  have hcourse := follows_course times (1 / 4) hsteady
  refine ⟨hsteady, ?_, ?_⟩
  · rw [hcourse.decay _ 1 (by decide +kernel) (by rw [hpeak]; rfl) (by norm_num [times])]
    norm_num [times]
  · rw [hcourse.release _ _ (by norm_num) (by decide +kernel) (by simp)]
    norm_num [times]

end Adsr

end SynthRack
