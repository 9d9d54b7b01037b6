import Mathlib
import SynthRack.Numeral.Shortest
import SynthRack.Proofs.Numeral.Rounding

/-!
# The search for the shortest decimal

A decimal that the search finds lies in the interval of its number (`point_holds`), and every grid
finer than half a last place has a point there (`point_found`). A search that starts on a coarse
grid and may reach a fine one therefore finds a decimal within half a last place (`search_near`).
-/

namespace SynthRack

/-- Powers of ten are positive. -/
theorem ten_zpow_pos (p : Int) : (0 : Rat) < 10 ^ p := zpow_pos (by norm_num) p

/-- The positive part of an exponent makes up for the negative one. -/
theorem zpow_mul_to_nat {b : Nat} (hb : 0 < b) (e : Int) :
    (b : Rat) ^ e * (b ^ (-e).toNat : Nat) = (b ^ e.toNat : Nat) := by
  have hb : (b : Rat) ≠ 0 := Nat.cast_ne_zero.2 hb.ne'
  rw [Nat.cast_pow, Nat.cast_pow, ← zpow_natCast, ← zpow_natCast, ← zpow_add₀ hb]
  congr 1
  omega

namespace Interval

variable {i : Interval} {power : Int}

/-- Both scales are the numbers they stand for, times one common denominator. -/
theorem scale_eq (i : Interval) (power : Int) :
    ∃ c : Rat, 0 < c ∧ ((i.scale power).up : Rat) = 2 ^ i.exponent * c ∧
      ((i.scale power).unit : Rat) = 10 ^ power * c := by
  have htwo := zpow_mul_to_nat two_pos i.exponent
  have hten := zpow_mul_to_nat (Nat.succ_pos 9) power
  push_cast at htwo hten
  refine ⟨2 ^ (-i.exponent).toNat * 10 ^ (-power).toNat, by positivity, ?_, ?_⟩
  · unfold scale
    push_cast [Nat.pow_eq]
    rw [← htwo, mul_assoc]
  · unfold scale
    push_cast [Nat.pow_eq]
    rw [← hten]
    ring

/-- The unit of a scaled interval is positive. -/
theorem unit_pos (i : Interval) (power : Int) : 0 < (i.scale power).unit := by
  unfold scale
  simp only [Nat.pow_eq]
  positivity

/-- A grid point in the interval lies between its ends. -/
theorem holds_bounds {digits : Nat} (h : i.holds (i.scale power) digits = true) :
    (i.low : Rat) * 2 ^ i.exponent ≤ digits * 10 ^ power ∧
      (digits : Rat) * 10 ^ power ≤ i.high * 2 ^ i.exponent := by
  obtain ⟨c, hc, hup, hunit⟩ := i.scale_eq power
  have hbounds : i.low * (i.scale power).up ≤ digits * (i.scale power).unit ∧
      digits * (i.scale power).unit ≤ i.high * (i.scale power).up := by
    unfold holds at h
    cases hclosed : i.closed with
    | true =>
        simpa [hclosed] using h
    | false =>
        obtain ⟨hlow, hhigh⟩ : i.low * (i.scale power).up < digits * (i.scale power).unit ∧
            digits * (i.scale power).unit < i.high * (i.scale power).up := by
          simpa [hclosed] using h
        exact ⟨hlow.le, hhigh.le⟩
  obtain ⟨hlow, hhigh⟩ := hbounds
  have hlow : (i.low : Rat) * (i.scale power).up ≤ digits * (i.scale power).unit := by
    exact_mod_cast hlow
  have hhigh : (digits : Rat) * (i.scale power).unit ≤ i.high * (i.scale power).up := by
    exact_mod_cast hhigh
  rw [hup, hunit, ← mul_assoc, ← mul_assoc] at hlow hhigh
  exact ⟨le_of_mul_le_mul_right hlow hc, le_of_mul_le_mul_right hhigh hc⟩

/-- A grid point that is found lies in the interval. -/
theorem point_holds {tie : Tie} {digits : Nat} (h : i.pointAt? tie power = some digits) :
    i.holds (i.scale power) digits = true := by
  unfold pointAt? at h
  dsimp only at h
  generalize i.middle * (i.scale power).up / (i.scale power).unit = below at h
  cases hbelow : i.holds (i.scale power) below <;>
    cases habove : i.holds (i.scale power) (below + 1) <;> rw [hbelow, habove] at h
  · cases h
  · cases h
    exact habove
  · cases h
    exact hbelow
  · -- Both neighbours are in the interval, so the choice between them does not matter.
    have hchoice : digits = below ∨ digits = below + 1 := by
      dsimp only at h
      split at h
      · left
        simpa using h.symm
      · split at h
        · right
          simpa using h.symm
        · cases tie with
          | up =>
              right
              simpa using h.symm
          | toEven =>
              have heven : below + below % 2 = digits := by simpa using h
              omega
    rcases hchoice with rfl | rfl
    · exact hbelow
    · exact habove

/-- A grid finer than the upper half of the interval has a point in it. -/
theorem point_found (tie : Tie) (hlow : i.low ≤ i.middle) (hhigh : i.middle + 2 ≤ i.high)
    (hfine : (10 : Rat) ^ power < 2 ^ (i.exponent + 1)) :
    ∃ digits, i.pointAt? tie power = some digits := by
  obtain ⟨c, hc, hup, hunit⟩ := i.scale_eq power
  have hpos := i.unit_pos power
  have hsmall : (i.scale power).unit < 2 * (i.scale power).up := by
    have hcast : ((i.scale power).unit : Rat) < 2 * (i.scale power).up := by
      rw [hup, hunit, ← mul_assoc, mul_comm 2, ← zpow_add_one₀ two_ne_zero]
      exact mul_lt_mul_of_pos_right hfine hc
    exact_mod_cast hcast
  -- The grid point above the middle is less than one unit away, and the interval reaches further.
  have hin : i.holds (i.scale power)
      (i.middle * (i.scale power).up / (i.scale power).unit + 1) = true := by
    have hsplit := Nat.div_add_mod' (i.middle * (i.scale power).up) (i.scale power).unit
    have hrest := Nat.mod_lt (i.middle * (i.scale power).up) hpos
    have hbelow : i.low * (i.scale power).up ≤ i.middle * (i.scale power).up :=
      Nat.mul_le_mul_right _ hlow
    have habove : (i.middle + 2) * (i.scale power).up ≤ i.high * (i.scale power).up :=
      Nat.mul_le_mul_right _ hhigh
    unfold holds
    dsimp only
    rw [add_mul] at habove ⊢
    rw [one_mul]
    split
    all_goals
      rw [Bool.and_eq_true, decide_eq_true_eq, decide_eq_true_eq]
      omega
  unfold pointAt?
  dsimp only
  rw [hin]
  cases i.holds (i.scale power) (i.middle * (i.scale power).up / (i.scale power).unit) with
  | false => exact ⟨_, rfl⟩
  | true =>
      dsimp only
      split
      · exact ⟨_, rfl⟩
      · split
        · exact ⟨_, rfl⟩
        · cases tie <;> exact ⟨_, rfl⟩

/-- A search that reaches a fine grid ends on a point of the interval, and on no finer grid than it
has to. -/
theorem search_near (tie : Tie) (hlow : i.low ≤ i.middle) (hhigh : i.middle + 2 ≤ i.high)
    (steps : Nat) (hcoarse : (2 : Rat) ^ (i.exponent + 1) ≤ 10 ^ (power + 1))
    (hfine : (10 : Rat) ^ (power + 1 - steps) < 2 ^ (i.exponent + 1)) :
    ∃ d, i.search tie power steps = some d ∧
      (i.low : Rat) * 2 ^ i.exponent ≤ d.digits * 10 ^ d.exponent ∧
      (d.digits : Rat) * 10 ^ d.exponent ≤ i.high * 2 ^ i.exponent ∧
      (2 : Rat) ^ (i.exponent + 1) ≤ 10 ^ (d.exponent + 1) ∧
      power - steps < d.exponent ∧ d.exponent ≤ power := by
  -- The grid before the one at hand had no point; so it was not fine.
  induction steps generalizing power with
  | zero =>
      rw [Nat.cast_zero, sub_zero] at hfine
      exact absurd hcoarse (not_le.2 hfine)
  | succ steps ih =>
      unfold search
      cases hpoint : i.pointAt? tie power with
      | some digits =>
          obtain ⟨hbelow, habove⟩ := holds_bounds (point_holds hpoint)
          refine ⟨⟨digits, power⟩, rfl, hbelow, habove, hcoarse, ?_, le_refl _⟩
          push_cast
          omega
      | none =>
          have hnext : (2 : Rat) ^ (i.exponent + 1) ≤ 10 ^ (power - 1 + 1) := by
            by_contra hlt
            rw [sub_add_cancel] at hlt
            obtain ⟨digits, hfound⟩ := point_found tie hlow hhigh (not_le.1 hlt)
            rw [hfound] at hpoint
            cases hpoint
          have hreach : (10 : Rat) ^ (power - 1 + 1 - steps) < 2 ^ (i.exponent + 1) := by
            have hplaces : power - 1 + 1 - (steps : Int) = power + 1 - (steps + 1 : Nat) := by
              push_cast
              ring
            rw [hplaces]
            exact hfine
          obtain ⟨d, hsearch, hbelow, habove, hleast, hbound, hle⟩ := ih hnext hreach
          refine ⟨d, hsearch, hbelow, habove, hleast, ?_, by omega⟩
          push_cast
          omega

end Interval

namespace Decimal

/-- Whether a power of ten is at least a power of two. -/
def passes (b a : Int) : Bool :=
  2 ^ a.toNat * 10 ^ (-b).toNat ≤ 10 ^ b.toNat * 2 ^ (-a).toNat

/-- The comparison of powers in whole numbers is that of the powers themselves. -/
theorem passes_iff (b a : Int) : passes b a = true ↔ (2 : Rat) ^ a ≤ 10 ^ b := by
  have htwo := zpow_mul_to_nat two_pos a
  have hten := zpow_mul_to_nat (Nat.succ_pos 9) b
  have hpos : (0 : Rat) < (2 ^ (-a).toNat : Nat) * (10 ^ (-b).toNat : Nat) := by positivity
  unfold passes
  rw [decide_eq_true_eq, ← mul_le_mul_iff_of_pos_right hpos, ← mul_assoc]
  push_cast at htwo hten ⊢
  rw [htwo, mul_comm ((2 : Rat) ^ (-a).toNat), ← mul_assoc, hten]
  exact_mod_cast Iff.rfl

/-- The first grid of the search is coarse, and the last one fine, over the whole range of single
precision. -/
theorem grids_reach {e : Int} (hlow : -201 ≤ e) (hhigh : e ≤ 75) :
    (2 : Rat) ^ (e - 1) ≤ 10 ^ (powerAbove (53 + e) + 1) ∧
      (10 : Rat) ^ (powerAbove (53 + e) + 1 - 22) < 2 ^ (e - 1) := by
  have hall : ∀ k : Nat, k < 277 →
      passes (powerAbove ((k : Int) - 148) + 1) ((k : Int) - 202) = true ∧
        passes (powerAbove ((k : Int) - 148) + 1 - 22) ((k : Int) - 202) = false := by
    decide +kernel
  obtain ⟨hcoarse, hfine⟩ := hall (e + 201).toNat (by omega)
  have hplace : ((e + 201).toNat : Int) - 202 = e - 1 := by omega
  have hbits : ((e + 201).toNat : Int) - 148 = 53 + e := by omega
  rw [hplace, hbits] at hcoarse hfine
  refine ⟨(passes_iff _ _).1 hcoarse, ?_⟩
  rw [← not_le, ← passes_iff, hfine]
  decide

/-- What lies in the interval of a double with all its bits is off by half a last place at most. -/
theorem near_of_interval {s : Nat} {e : Int} {v : Rat} (hfull : 2 ^ 52 ≤ s)
    (hbelow : (Interval.ofNumber .double s e).low * 2 ^ (e - 2) ≤ v)
    (habove : v ≤ (Interval.ofNumber .double s e).high * 2 ^ (e - 2)) :
    Near v (s * 2 ^ e) 53 := by
  have hpos := two_zpow_pos e
  have hfullCast : (2 : Rat) ^ 52 ≤ s := by exact_mod_cast hfull
  have hquarter : (2 : Rat) ^ (e - 2) = 2 ^ e / 4 := by
    rw [zpow_sub₀ two_ne_zero]
    norm_num
  have hlowEnd : (4 * s : Rat) ≤ (Interval.ofNumber .double s e).low + 2 := by
    have hnat : 4 * s ≤ (Interval.ofNumber .double s e).low + 2 := by
      unfold Interval.ofNumber
      dsimp only
      split <;> omega
    exact_mod_cast hnat
  have hhighEnd : ((Interval.ofNumber .double s e).high : Rat) = 4 * s + 2 := by
    unfold Interval.ofNumber
    push_cast
    ring
  rw [hquarter] at hbelow habove
  rw [hhighEnd] at habove
  have hhalf : |v - s * 2 ^ e| ≤ 2 ^ e / 2 := by
    rw [abs_le]
    constructor <;> nlinarith
  refine hhalf.trans ?_
  rw [le_div_iff₀ (by positivity)]
  nlinarith

/-- On a grid of which ten times the unit is half a last place, numbers have few digits. -/
theorem digits_few {s digits : Nat} {e power : Int} (hsize : s < 2 ^ 53)
    (hnear : Near (digits * 10 ^ power) (s * 2 ^ e) 53) (hs : 0 < s)
    (hcoarse : (2 : Rat) ^ (e - 1) ≤ 10 ^ (power + 1)) : digits < 2 ^ 60 := by
  have hsizeCast : (s : Rat) < 2 ^ 53 := by exact_mod_cast hsize
  have hpos := two_zpow_pos e
  have hten := ten_zpow_pos power
  have hexact : (0 : Rat) < s * 2 ^ e := mul_pos (Nat.cast_pos.2 hs) hpos
  obtain ⟨-, hdouble⟩ := hnear.bounds hexact
  rw [zpow_sub_one₀ two_ne_zero, zpow_add_one₀ (by norm_num)] at hcoarse
  have hfew : (digits : Rat) < (2 ^ 60 : Nat) := by
    push_cast
    by_contra hge
    nlinarith
  exact_mod_cast hfew

/-- A double in the range of single precision has a shortest decimal. It is off by half a last
place at most and has no more digits than fit 64 bits. -/
theorem shortest_near {s : Nat} {e : Int} (tie : Tie) (hfull : 2 ^ 52 ≤ s) (hsize : s < 2 ^ 53)
    (hlow : -201 ≤ e) (hhigh : e ≤ 75) :
    ∃ d, shortest? .double tie s e = some d ∧
      Near (d.digits * 10 ^ d.exponent) (s * 2 ^ e) 53 ∧
      0 < d.digits ∧ d.digits < 2 ^ 60 ∧ -70 ≤ d.exponent ∧ d.exponent ≤ 70 := by
  obtain ⟨hcoarse, hfine⟩ := grids_reach hlow hhigh
  have hlog : s.log2 = 52 := (Nat.log2_eq_iff (by omega)).2 ⟨hfull, hsize⟩
  have hstart : ((s.log2 : Int) + 1 + e) = 53 + e := by
    rw [hlog]
    rfl
  have hplace : (Interval.ofNumber .double s e).exponent + 1 = e - 1 := by
    show e - 2 + 1 = e - 1
    ring
  rw [← hplace] at hcoarse hfine
  obtain ⟨d, hsearch, hbelow, habove, hleast, hbound, hle⟩ :=
    Interval.search_near (i := .ofNumber .double s e) tie (Nat.sub_le ..) (le_refl _) 22
      hcoarse hfine
  rw [hplace] at hleast
  have hs : 0 < s := by omega
  have hnear : Near (d.digits * 10 ^ d.exponent) (s * 2 ^ e) 53 :=
    near_of_interval hfull hbelow habove
  refine ⟨d, ?_, hnear, ?_, digits_few hsize hnear hs hleast, ?_, ?_⟩
  · unfold shortest?
    rw [hstart]
    exact hsearch
  · have hexact : (0 : Rat) < s * 2 ^ e := mul_pos (Nat.cast_pos.2 hs) (two_zpow_pos e)
    have hlarge := lt_of_lt_of_le (half_pos hexact) (hnear.bounds hexact).1
    exact Nat.cast_pos.1 (pos_of_mul_pos_left hlarge (ten_zpow_pos _).le)
  · unfold powerAbove at hbound
    omega
  · unfold powerAbove at hle
    omega

end Decimal

end SynthRack
