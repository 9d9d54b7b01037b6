import Mathlib
import SynthRack.Proofs.Signal.Addition
import SynthRack.Proofs.Signal.Envelope

/-!
# Pressing an envelope again

A dropped gate arms the attack where it lowers the level. An envelope that holds at no level has
nothing to lower: it is `Stuck`. `rearms_unless_stuck` says that this is the only exception in single
precision: after any run a sample with a dropped gate leaves the envelope in the attack, and the next
press climbs to one from the current level, unless the envelope was stuck; then it stays as it is, and
the next press goes on holding. It rests on the levels that go with a stage, `Reached`: a decay is
above zero at all times. `pluck_stuck` is an envelope that falls to silence while it is held. Without
rounding this takes a sustain level of zero: `rearms_of_sustain_pos`.
-/

namespace SynthRack

namespace Adsr

open Addition (leastRaise)

variable {state : Stage × Float32} {r : Reading Float32}

/-- The envelope holds, and at no level. -/
def Stuck (state : Stage × Float32) : Prop := state.1 = .sustain ∧ ¬ 0 < state.2

/-- The levels that a stage is reached with. -/
structure Reached (state : Stage × Float32) : Prop where
  attack : state.1 = .attack → 0 ≤ state.2
  decay : state.1 = .decay → 0 < state.2

/-- An envelope starts at a level that goes with its stage. -/
theorem reached_start : Reached (.attack, 0) := ⟨fun _ => by decide, nofun⟩

/-- A sample leaves a level that goes with its stage. -/
theorem reached_next (h : r.Proper) (hstate : Reached state) : Reached (r.next state) := by
  obtain ⟨stage, level⟩ := state
  by_cases hgate : 0 < r.gate
  · cases stage with
    | attack =>
        rw [next_attack hgate]
        split
        case isTrue hlow =>
          have hraise : ¬ r.dt / r.attack < 0 := Addition.not_neg_div h.dt h.attack
          exact ⟨fun _ => Addition.nonneg_add (hstate.attack rfl) hraise hlow, nofun⟩
        case isFalse => exact ⟨nofun, fun _ => by decide⟩
    | decay =>
        rw [next_decay hgate]
        split
        case isTrue habove => exact ⟨nofun, fun _ => Addition.pos_of_nonneg_of_lt h.sustain_nonneg habove⟩
        case isFalse => exact ⟨nofun, nofun⟩
    | sustain =>
        rw [next_sustain hgate]
        exact ⟨nofun, nofun⟩
  · by_cases hlevel : 0 < level
    · rw [next_released hgate hlevel]
      refine ⟨fun _ => ?_, nofun⟩
      split
      case isTrue hpos => exact Duration.le_of_lt hpos
      case isFalse => decide
    · rw [next_silent hgate hlevel]
      exact hstate

/-- A run leaves a level that goes with its stage. -/
theorem reached_run {readings : List (Reading Float32)} (h : ∀ r ∈ readings, r.Proper)
    (hstate : Reached state) : Reached (run state readings) :=
  run_keeps (fun r hr _ => reached_next (h r hr)) hstate

/-- A sample with a dropped gate leads to the attack, except from where the envelope is stuck. -/
theorem released_attack_iff (hstate : Reached state) (hgate : ¬ 0 < r.gate) :
    (r.next state).1 = .attack ↔ ¬ Stuck state := by
  obtain ⟨stage, level⟩ := state
  by_cases hlevel : 0 < level
  · rw [next_released hgate hlevel]
    exact iff_of_true rfl fun hstuck => hstuck.2 hlevel
  · rw [next_silent hgate hlevel]
    cases stage with
    | attack => exact iff_of_true rfl fun hstuck => nomatch hstuck.1
    | decay => exact absurd (hstate.decay rfl) hlevel
    | sustain => exact iff_of_false nofun fun hnot => hnot ⟨rfl, hlevel⟩

/-- An attack that is held climbs to one: with every sample the level gets past one multiple of
`2 ^ -24` more. -/
theorem attack_climbs {level : Float32} {n : Nat} {held : List (Reading Float32)}
    (hlevel : 0 ≤ level) (hn : n < 2 ^ 24) (hsize : (n : Rat) * 2 ^ (-24 : Int) ≤ Addition.size level)
    (hheld : ∀ r ∈ held, 0 < r.gate ∧ leastRaise ≤ r.dt / r.attack) (hlong : 2 ^ 24 ≤ n + held.length) :
    ∃ k, n + k ≤ 2 ^ 24 ∧ run (.attack, level) (held.take k) = (.decay, 1) ∧
      ∀ j < k, (run (.attack, level) (held.take j)).1 = .attack := by
  induction held generalizing level n with
  | nil => exact absurd hlong (Nat.not_le.2 hn)
  | cons r rest ih =>
      obtain ⟨hgate, hraise⟩ := hheld r List.mem_cons_self
      have hnext := next_attack hgate level
      by_cases hlow : level + r.dt / r.attack < 1
      · rw [if_pos hlow] at hnext
        have hraised := Addition.nonneg_add hlevel (Duration.lt_asymm (Addition.pos_of_raise hraise)) hlow
        have hreached := Addition.reaches_next hlevel hraise hlow hn hsize
        have hbelow : n + 1 < 2 ^ 24 := by
          have hlt := hreached.trans_lt (Addition.size_lt_one hraised hlow)
          have hunit : (0 : Rat) < 2 ^ (-24 : Int) := two_zpow_pos _
          have hone : (1 : Rat) = (2 ^ 24 : Nat) * 2 ^ (-24 : Int) := by norm_num
          rw [hone] at hlt
          exact Nat.cast_lt.1 (lt_of_mul_lt_mul_right hlt hunit.le)
        obtain ⟨k, hk, hpeak, hbefore⟩ := ih hraised hbelow hreached
          (fun q hq => hheld q (List.mem_cons_of_mem _ hq))
          (by rw [List.length_cons] at hlong; omega)
        refine ⟨k + 1, by omega, ?_, fun j hj => ?_⟩
        · rw [List.take_succ_cons]
          exact (congrArg (run · _) hnext).trans hpeak
        · cases j with
          | zero => rfl
          | succ j =>
              rw [List.take_succ_cons]
              exact (congrArg (fun s => (run s _).1) hnext).trans (hbefore j (by omega))
      · rw [if_neg hlow] at hnext
        refine ⟨1, by omega, hnext, fun j hj => ?_⟩
        rw [Nat.lt_one_iff.1 hj]
        rfl

/-- What a sample with a dropped gate leaves of an envelope. -/
structure Rearms (before after : Stage × Float32) : Prop where
  armed_iff : after.1 = .attack ↔ ¬ Stuck before
  /-- The next press runs the attack from the current level. -/
  ramp : ¬ Stuck before → ∀ pressed : Reading Float32, 0 < pressed.gate →
    pressed.next after =
      if after.2 + pressed.dt / pressed.attack < 1 then
        (.attack, after.2 + pressed.dt / pressed.attack)
      else (.decay, 1)
  /-- Held long enough it climbs to one, if no raise is so small that rounding swallows it. -/
  climbs : ¬ Stuck before → ∀ held : List (Reading Float32),
    (∀ r ∈ held, 0 < r.gate ∧ leastRaise ≤ r.dt / r.attack) → 2 ^ 24 ≤ held.length →
    ∃ k ≤ 2 ^ 24, run after (held.take k) = (.decay, 1) ∧
      ∀ j < k, (run after (held.take j)).1 = .attack
  /-- What is stuck stays as it is, and the next press goes on holding. -/
  stuck : Stuck before → after = before ∧ ∀ pressed : Reading Float32, 0 < pressed.gate →
    pressed.next after =
      (.sustain, moveTowards after.2 pressed.sustain (pressed.dt / pressed.decay))

/-- After any samples, a dropped gate arms the attack unless the envelope is stuck. -/
theorem rearms_unless_stuck (past : List (Reading Float32)) (released : Reading Float32)
    (hpast : ∀ r ∈ past, r.Proper) (hreleased : released.Proper) (hgate : ¬ 0 < released.gate) :
    Rearms (run (.attack, 0) past) (run (.attack, 0) (past ++ [released])) := by
  have hbefore := reached_run hpast reached_start
  rw [run_concat]
  generalize run (.attack, 0) past = before at hbefore ⊢
  have hafter := reached_next hreleased hbefore
  have harmed := released_attack_iff hbefore hgate
  refine ⟨harmed, ?ramp, ?climbs, ?stuck⟩
  case ramp =>
    intro hfree pressed hpressed
    have hattack := harmed.2 hfree
    generalize released.next before = after at hattack ⊢
    obtain ⟨stage, level⟩ := after
    obtain rfl : stage = .attack := hattack
    exact next_attack hpressed level
  case climbs =>
    intro hfree held hheld hlong
    have hattack := harmed.2 hfree
    generalize released.next before = after at hattack hafter ⊢
    obtain ⟨stage, level⟩ := after
    obtain rfl : stage = .attack := hattack
    obtain ⟨k, hk, hclimb⟩ := attack_climbs (n := 0) (hafter.attack rfl) (by decide)
      (by simpa using Addition.size_nonneg level) hheld (by simpa using hlong)
    exact ⟨k, by simpa using hk, hclimb⟩
  case stuck =>
    rintro ⟨hsustain, hnone⟩
    obtain ⟨stage, level⟩ := before
    obtain rfl : stage = .sustain := hsustain
    rw [next_silent hgate hnone]
    exact ⟨rfl, fun pressed hpressed => next_sustain hpressed level⟩

/-- A press is let go from full level, and pressed again before the level is gone. -/
theorem rearms_unless_stuck_held :
    let press : Reading Float32 := ⟨⟨2, 2, 1, 4⟩, 1, 1⟩
    let released : Reading Float32 := { press with gate := 0 }
    let past := [press, press, press]
    (∀ r ∈ past, r.Proper) ∧ released.Proper ∧ ¬ 0 < released.gate ∧
      run (.attack, 0) past = (.sustain, 1) ∧
      (run (.attack, 0) (past ++ [released])).1 = .attack ∧
      ∃ k ≤ 2 ^ 24, run (run (.attack, 0) (past ++ [released]))
        ((List.replicate (2 ^ 24) press).take k) = (.decay, 1) := by
  intro press released past
  have hpast : ∀ r ∈ past, r.Proper := by decide +kernel
  have hreleased : released.Proper := by decide +kernel
  have hgate : ¬ 0 < released.gate := by decide +kernel
  have hheld : run (.attack, 0) past = (.sustain, 1) := by decide +kernel
  have hfree : ¬ Stuck (run (.attack, 0) past) := by
    rw [hheld]
    exact fun hstuck => hstuck.2 (by decide +kernel)
  have hrearms := rearms_unless_stuck past released hpast hreleased hgate
  refine ⟨hpast, hreleased, hgate, hheld, hrearms.armed_iff.2 hfree, ?_⟩
  obtain ⟨k, hk, hpeak, -⟩ := hrearms.climbs hfree (List.replicate (2 ^ 24) press)
    (fun r hr => by rw [List.eq_of_mem_replicate hr]; decide +kernel) (by rw [List.length_replicate])
  exact ⟨k, hk, hpeak⟩

/-- An envelope that falls to silence while it is held: letting go does not arm the attack, and the
next press stays silent. -/
theorem pluck_stuck :
    let press : Reading Float32 := ⟨⟨1, 1, 0, 1⟩, 1, 1⟩
    let released : Reading Float32 := { press with gate := 0 }
    press.Proper ∧ released.Proper ∧ ¬ 0 < released.gate ∧
      (run (.attack, 0) [press, press, released]).1 ≠ .attack ∧
      run (.attack, 0) [press, press, released, press] = (.sustain, 0) := by
  decide +kernel

/-! ## Without rounding -/

section Exact

variable {K : Type} [Field K] [LinearOrder K] [IsStrictOrderedRing K] [FloorRing K]

/-- While sustain levels are above zero, a level is zero in the attack only. -/
theorem attack_or_pos_next {r : Reading K} {state : Stage × K} (h : r.Proper)
    (hsustain : 0 < r.sustain) (hstate : state.1 = .attack ∨ 0 < state.2) :
    (r.exactNext state).1 = .attack ∨ 0 < (r.exactNext state).2 := by
  obtain ⟨stage, level⟩ := state
  rcases lt_or_ge 0 r.gate with hgate | hgate
  · cases stage with
    | attack =>
        rw [exact_attack hgate]
        split
        case isTrue => exact .inl rfl
        case isFalse => exact .inr zero_lt_one
    | decay =>
        rw [exact_decay hgate]
        split
        case isTrue habove => exact .inr (hsustain.trans habove)
        case isFalse => exact .inr hsustain
    | sustain =>
        have hlevel : 0 < level := hstate.resolve_left nofun
        have hbetween := (sustain_between h hgate level).1
        exact .inr ((lt_min hlevel hsustain).trans_le hbetween)
  · rcases lt_or_ge 0 level with hlevel | hlevel
    · rw [exact_released hgate hlevel]
      exact .inl rfl
    · rw [exact_silent hgate hlevel]
      exact .inl (hstate.resolve_right hlevel.not_gt)

/-- Over exact numbers an envelope gets stuck by a sustain level of zero and by nothing else. -/
theorem rearms_of_sustain_pos {past : List (Reading K)} {released : Reading K}
    (hpast : ∀ r ∈ past, r.Proper ∧ 0 < r.sustain) (hgate : released.gate ≤ 0) :
    (exactRun (.attack, 0) (past ++ [released])).1 = .attack := by
  have hstate : (exactRun (.attack, 0) past).1 = .attack ∨ 0 < (exactRun (.attack, 0) past).2 :=
    exact_run_keeps (motive := fun s => s.1 = .attack ∨ 0 < s.2)
      (fun r hr _ => attack_or_pos_next (hpast r hr).1 (hpast r hr).2) (.inl rfl)
  rw [exact_run_concat]
  generalize exactRun (.attack, 0) past = state at hstate ⊢
  obtain ⟨stage, level⟩ := state
  rcases lt_or_ge 0 level with hlevel | hlevel
  · rw [exact_released hgate hlevel]
  · rw [exact_silent hgate hlevel]
    exact hstate.resolve_right hlevel.not_gt

end Exact

end Adsr

end SynthRack
