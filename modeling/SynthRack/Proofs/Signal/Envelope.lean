import Mathlib
import SynthRack.Signal.Envelope
import SynthRack.Proofs.Signal.Exact

/-!
# Envelopes from sample to sample

An envelope reads its times, its gate and the length of the sample anew in every sample: a `Reading`.
`run` takes a stage and a level through readings one after another, in single precision or, as
`exactRun`, without rounding. Over exact numbers one sample has an equation for each stage
(`exact_attack` to `exact_silent`), and `level_modulated` says what holds of every sample however the
readings change: no stage relies on the level that another reading would have left.
-/

namespace SynthRack

namespace Adsr

/-- The numbers that an envelope reads in one sample. -/
structure Reading (α : Type) extends Adsr α where
  gate : α
  /-- The length of the sample in seconds. -/
  dt : α

/-- Times that last, and a sustain level between zero and one. -/
structure Reading.Proper {α : Type} [Zero α] [One α] [LT α] [LE α] (r : Reading α) : Prop where
  attack : 0 < r.attack
  decay : 0 < r.decay
  release : 0 < r.release
  sustain_nonneg : 0 ≤ r.sustain
  sustain_le_one : r.sustain ≤ 1
  dt : 0 < r.dt

instance {α : Type} [Zero α] [One α] [LT α] [LE α] [DecidableLT α] [DecidableLE α]
    (r : Reading α) : Decidable r.Proper :=
  decidable_of_iff (0 < r.attack ∧ 0 < r.decay ∧ 0 < r.release ∧ 0 ≤ r.sustain ∧ r.sustain ≤ 1 ∧
      0 < r.dt)
    ⟨fun ⟨ha, hd, hr, hlow, hhigh, hdt⟩ => ⟨ha, hd, hr, hlow, hhigh, hdt⟩,
      fun ⟨ha, hd, hr, hlow, hhigh, hdt⟩ => ⟨ha, hd, hr, hlow, hhigh, hdt⟩⟩

section Run

variable {α : Type} [Number α]

/-- The stage and the level after one sample. -/
def Reading.next (r : Reading α) (state : Stage × α) : Stage × α :=
  r.advance state.1 state.2 r.gate r.dt

/-- The stage and the level after samples one after another. -/
def run (state : Stage × α) (readings : List (Reading α)) : Stage × α :=
  readings.foldl (fun state r => r.next state) state

/-- The last sample of a run goes on from the samples before it. -/
theorem run_concat (state : Stage × α) (past : List (Reading α)) (r : Reading α) :
    run state (past ++ [r]) = r.next (run state past) := List.foldl_append

/-- What every sample keeps holds after all of them. -/
theorem run_keeps {motive : Stage × α → Prop} {state : Stage × α} {readings : List (Reading α)}
    (hnext : ∀ r ∈ readings, ∀ state, motive state → motive (r.next state)) (h : motive state) :
    motive (run state readings) :=
  List.foldlRecOn readings _ h fun state hstate r hr => hnext r hr state hstate

variable {r : Reading α} {level : α}

/-- In the attack a held gate raises the level, and hands over to the decay at one. -/
theorem next_attack (h : 0 < r.gate) (level : α) : r.next (.attack, level) =
    if level + r.dt / r.attack < 1 then (.attack, level + r.dt / r.attack) else (.decay, 1) := if_pos h

/-- In the decay a held gate lowers the level, and hands over at the sustain level. -/
theorem next_decay (h : 0 < r.gate) (level : α) : r.next (.decay, level) =
    if r.sustain < level - (1 - r.sustain) * r.dt / r.decay then
      (.decay, level - (1 - r.sustain) * r.dt / r.decay)
    else (.sustain, r.sustain) := if_pos h

/-- In the sustain a held gate moves the level towards the sustain level. -/
theorem next_sustain (h : 0 < r.gate) (level : α) : r.next (.sustain, level) =
    (.sustain, moveTowards level r.sustain (r.dt / r.decay)) := if_pos h

/-- A dropped gate lowers a positive level, not below zero, and sets the stage back to the
attack. -/
theorem next_released (h : ¬ 0 < r.gate) (hlevel : 0 < level) (stage : Stage) :
    r.next (stage, level) = (.attack,
      if 0 < level - r.dt / r.release then level - r.dt / r.release else 0) :=
  (if_neg h).trans (if_pos hlevel)

/-- A dropped gate leaves a silent envelope as it is. -/
theorem next_silent (h : ¬ 0 < r.gate) (hlevel : ¬ 0 < level) (stage : Stage) :
    r.next (stage, level) = (stage, level) := (if_neg h).trans (if_neg hlevel)

end Run

/-! ## Without rounding -/

variable {K : Type} [Field K] [LinearOrder K] [IsStrictOrderedRing K] [FloorRing K]

/-- One sample over exact numbers. -/
def Reading.exactNext (r : Reading K) : Stage × K → Stage × K := @Reading.next K .exact r

/-- Samples one after another over exact numbers. -/
def exactRun : Stage × K → List (Reading K) → Stage × K := @run K .exact

variable {r : Reading K} {state : Stage × K} {stage : Stage} {level : K}

section Equations

omit [IsStrictOrderedRing K]

/-- Over exact numbers too the last sample goes on from the samples before it. -/
theorem exact_run_concat (state : Stage × K) (past : List (Reading K)) (r : Reading K) :
    exactRun state (past ++ [r]) = r.exactNext (exactRun state past) := @run_concat K .exact ..

/-- What every sample of a run keeps, the run keeps. -/
theorem exact_run_keeps {motive : Stage × K → Prop} {readings : List (Reading K)}
    (hnext : ∀ r ∈ readings, ∀ state, motive state → motive (r.exactNext state))
    (h : motive state) : motive (exactRun state readings) :=
  @run_keeps K .exact motive state readings hnext h

/-- The attack over exact numbers. -/
theorem exact_attack (h : 0 < r.gate) (level : K) : r.exactNext (.attack, level) =
    if level + r.dt / r.attack < 1 then (.attack, level + r.dt / r.attack) else (.decay, 1) :=
  @next_attack K .exact r h level

/-- The decay over exact numbers. -/
theorem exact_decay (h : 0 < r.gate) (level : K) : r.exactNext (.decay, level) =
    if r.sustain < level - (1 - r.sustain) * r.dt / r.decay then
      (.decay, level - (1 - r.sustain) * r.dt / r.decay)
    else (.sustain, r.sustain) := @next_decay K .exact r h level

/-- The sustain over exact numbers, with the step towards its level written out. -/
theorem exact_sustain (h : 0 < r.gate) (level : K) : r.exactNext (.sustain, level) =
    (.sustain, if |level - r.sustain| < r.dt / r.decay then r.sustain
      else if r.sustain < level then level - r.dt / r.decay
      else level + r.dt / r.decay) := @next_sustain K .exact r h level

/-- The release over exact numbers: a straight line down to zero. -/
theorem exact_released (h : r.gate ≤ 0) (hlevel : 0 < level) (stage : Stage) :
    r.exactNext (stage, level) = (.attack, max 0 (level - r.dt / r.release)) := by
  have hnext : r.exactNext (stage, level) =
      (.attack, if 0 < level - r.dt / r.release then level - r.dt / r.release else 0) :=
    @next_released K .exact r level h.not_gt hlevel stage
  rw [hnext]
  split
  case isTrue hpos => rw [max_eq_right hpos.le]
  case isFalse hend => rw [max_eq_left (not_lt.1 hend)]

/-- A dropped gate and no level, over exact numbers: nothing changes. -/
theorem exact_silent (h : r.gate ≤ 0) (hlevel : level ≤ 0) (stage : Stage) :
    r.exactNext (stage, level) = (stage, level) :=
  @next_silent K .exact r level h.not_gt hlevel.not_gt stage

end Equations

/-! ## Levels under modulation -/

/-- An open gate moves the held level towards the sustain level and not beyond. -/
theorem sustain_between (h : r.Proper) (hgate : 0 < r.gate) (level : K) :
    (r.exactNext (.sustain, level)).2 ∈ Set.uIcc level r.sustain := by
  have hlimit : 0 < r.dt / r.decay := div_pos h.dt h.decay
  rw [exact_sustain hgate]
  dsimp only
  split
  case isTrue => exact Set.right_mem_uIcc
  case isFalse hfar =>
    rw [not_lt] at hfar
    split
    case isTrue habove =>
      rw [abs_of_pos (sub_pos.2 habove)] at hfar
      exact Set.mem_uIcc.2 (.inr ⟨by linarith, by linarith⟩)
    case isFalse hbelow =>
      rw [abs_of_nonpos (sub_nonpos.2 (not_lt.1 hbelow))] at hfar
      exact Set.mem_uIcc.2 (.inl ⟨by linarith, by linarith⟩)

/-- Whatever the readings of a sample are, it keeps the level between zero and one. -/
theorem level_next (h : r.Proper) (hlevel : state.2 ∈ Set.Icc 0 1) :
    (r.exactNext state).2 ∈ Set.Icc 0 1 := by
  obtain ⟨stage, level⟩ := state
  obtain ⟨hlow, hhigh⟩ := hlevel
  have hsustain : r.sustain ∈ Set.Icc 0 1 := ⟨h.sustain_nonneg, h.sustain_le_one⟩
  rcases lt_or_ge 0 r.gate with hgate | hgate
  · cases stage with
    | attack =>
        have hrise : 0 < r.dt / r.attack := div_pos h.dt h.attack
        rw [exact_attack hgate]
        split
        case isTrue hmore => exact ⟨add_nonneg hlow hrise.le, hmore.le⟩
        case isFalse => exact ⟨zero_le_one, le_rfl⟩
    | decay =>
        have hfall : 0 ≤ (1 - r.sustain) * r.dt / r.decay :=
          div_nonneg (mul_nonneg (sub_nonneg.2 h.sustain_le_one) h.dt.le) h.decay.le
        rw [exact_decay hgate]
        split
        case isTrue hmore =>
          exact ⟨h.sustain_nonneg.trans hmore.le, (sub_le_self level hfall).trans hhigh⟩
        case isFalse => exact hsustain
    | sustain =>
        exact Set.uIcc_subset_Icc ⟨hlow, hhigh⟩ hsustain (sustain_between h hgate level)
  · rcases lt_or_ge 0 level with hpos | hzero
    · have hfall : 0 < r.dt / r.release := div_pos h.dt h.release
      rw [exact_released hgate hpos]
      exact ⟨le_max_left .., max_le zero_le_one (by linarith)⟩
    · rw [exact_silent hgate hzero]
      exact ⟨hlow, hhigh⟩

/-- Levels stay between zero and one. -/
theorem level_run {readings : List (Reading K)} (h : ∀ r ∈ readings, r.Proper)
    (hlevel : state.2 ∈ Set.Icc 0 1) : (exactRun state readings).2 ∈ Set.Icc 0 1 :=
  exact_run_keeps (motive := fun s => s.2 ∈ Set.Icc 0 1) (fun r hr _ => level_next (h r hr)) hlevel

/-- What the sample of a reading makes of a stage and a level. -/
structure Reading.Modulates (r : Reading K) (before after : Stage × K) : Prop where
  level : 0 ≤ after.2 ∧ after.2 ≤ 1
  /-- An attack never falls. -/
  attack : before.1 = .attack → 0 < r.gate → before.2 ≤ after.2
  release : r.gate ≤ 0 → after.2 ≤ before.2
  /-- A held level gets no farther from the sustain level of the sample. -/
  nearer : before.1 = .sustain → 0 < r.gate → |after.2 - r.sustain| ≤ |before.2 - r.sustain|
  /-- It does not pass the sustain level either. -/
  between : before.1 = .sustain → 0 < r.gate → after.2 ∈ Set.uIcc before.2 r.sustain

/-- However gates, times, sustain levels and sample lengths change, every sample keeps the level
between zero and one, rises in the attack, falls after the release and holds on to the sustain
level. -/
theorem level_modulated (past : List (Reading K)) (r : Reading K) (hpast : ∀ q ∈ past, q.Proper)
    (h : r.Proper) :
    r.Modulates (exactRun (.attack, 0) past) (exactRun (.attack, 0) (past ++ [r])) := by
  have hbefore : (exactRun (.attack, 0) past).2 ∈ Set.Icc 0 1 := level_run hpast ⟨le_rfl, zero_le_one⟩
  rw [exact_run_concat]
  generalize exactRun (.attack, 0) past = state at hbefore ⊢
  have hafter := level_next h hbefore
  obtain ⟨stage, level⟩ := state
  refine ⟨hafter, ?attack, ?release, ?nearer, ?between⟩
  case attack =>
    rintro rfl hgate
    have hrise : 0 < r.dt / r.attack := div_pos h.dt h.attack
    rw [exact_attack hgate]
    split
    case isTrue => exact le_add_of_nonneg_right hrise.le
    case isFalse => exact hbefore.2
  case release =>
    intro hgate
    rcases lt_or_ge 0 level with hpos | hzero
    · have hfall : 0 < r.dt / r.release := div_pos h.dt h.release
      rw [exact_released hgate hpos]
      exact max_le hpos.le (sub_le_self level hfall.le)
    · rw [exact_silent hgate hzero]
  case nearer =>
    rintro rfl hgate
    have hnearer := Set.abs_sub_right_of_mem_uIcc (sustain_between h hgate level)
    rwa [abs_sub_comm, abs_sub_comm r.sustain] at hnearer
  case between =>
    rintro rfl hgate
    exact sustain_between h hgate level

/-- The sustain level is lowered while the gate is held, and the level follows it halfway. -/
theorem level_modulated_lowered :
    let past : List (Reading ℚ) := [⟨⟨1 / 2, 1 / 4, 3 / 4, 1⟩, 1, 1⟩, ⟨⟨1 / 2, 1 / 4, 3 / 4, 1⟩, 2, 1⟩]
    let r : Reading ℚ := ⟨⟨1, 4, 1 / 4, 2⟩, 1, 1⟩
    (∀ q ∈ past, q.Proper) ∧ r.Proper ∧ exactRun (.attack, 0) past = (.sustain, 3 / 4) ∧
      exactRun (.attack, 0) (past ++ [r]) = (.sustain, 1 / 2) ∧
      r.Modulates (exactRun (.attack, 0) past) (exactRun (.attack, 0) (past ++ [r])) := by
  intro past r
  have hpast : ∀ q ∈ past, q.Proper := by decide +kernel
  have hr : r.Proper := by decide +kernel
  exact ⟨hpast, hr, by decide +kernel, by decide +kernel, level_modulated past r hpast hr⟩

end Adsr

end SynthRack
