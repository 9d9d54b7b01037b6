import Mathlib
import SynthRack.Proofs.Signal.Length

/-!
# Sums in single precision

A sum is rounded to the nearest number, so a small part may be lost in it. Two things are not: what
is not negative stays so (`not_neg_add`, `not_neg_div`), and a sum is at least every number of the
format that it is at least without rounding (`le_size_of_bits`). Hence a number below one that is
raised by `2 ^ -24` or more gets past the next multiple of `2 ^ -24` (`reaches_next`), and after
`2 ^ 24` raises it is past one.
-/

namespace SynthRack

open Float.Model (UnpackedFloat)
open Float.Model.UnpackedFloat

namespace Addition

variable {x y : Float32} {m n s : Nat} {e d c : Int}

/-! ## Signs -/

/-- A number is negative if it is less than the positive zero once unpacked. -/
theorem neg_iff : x < 0 ↔ x.toModel.unpack.compare (.zero .positive) = some .lt := by
  have hzero : (0 : Float32).toModel.unpack = .zero .positive := rfl
  rw [Duration.lt_iff, hzero]

/-- What is at least a number that is not negative is a zero or positive. -/
theorem unpack_of_le (hle : y ≤ x) (hy : (∃ sign, y.toModel.unpack = .zero sign) ∨
    ∃ n d hn, y.toModel.unpack = .finite .positive n d hn) :
    (∃ sign, x.toModel.unpack = .zero sign) ∨
      (∃ m e hm, x.toModel.unpack = .finite .positive m e hm) ∨
        x.toModel.unpack = .infinity .positive := by
  obtain ⟨order, horder, hle⟩ := Duration.le_iff.1 hle
  cases hx : x.toModel.unpack with
  | notANumber => rcases hy with ⟨s, hy⟩ | ⟨n, d, hn, hy⟩ <;> rw [hx, hy] at horder <;> cases horder
  | zero sign => exact .inl ⟨sign, rfl⟩
  | finite sign m e hm =>
      cases sign with
      | positive => exact .inr (.inl ⟨m, e, hm, rfl⟩)
      | negative =>
          rcases hy with ⟨s, hy⟩ | ⟨n, d, hn, hy⟩ <;> rw [hx, hy] at horder <;> cases horder <;>
            cases hle
  | infinity sign =>
      cases sign with
      | positive => exact .inr (.inr rfl)
      | negative =>
          rcases hy with ⟨s, hy⟩ | ⟨n, d, hn, hy⟩ <;> rw [hx, hy] at horder <;> cases horder <;>
            cases hle

/-- A number that is not negative is a zero, finite and positive, or infinite. -/
theorem unpack_of_nonneg (h : 0 ≤ x) : (∃ sign, x.toModel.unpack = .zero sign) ∨
    (∃ m e hm, x.toModel.unpack = .finite .positive m e hm) ∨
      x.toModel.unpack = .infinity .positive := unpack_of_le h (.inl ⟨.positive, rfl⟩)

/-- What is not negative is no number, a zero or positive. -/
theorem unpack_of_not_neg (h : ¬ x < 0) : x.toModel.unpack = .notANumber ∨
    (∃ sign, x.toModel.unpack = .zero sign) ∨
      (∃ m e hm, x.toModel.unpack = .finite .positive m e hm) ∨
        x.toModel.unpack = .infinity .positive := by
  rw [neg_iff] at h
  cases hx : x.toModel.unpack with
  | notANumber => exact .inl rfl
  | zero sign => exact .inr (.inl ⟨sign, rfl⟩)
  | finite sign m e hm =>
      cases sign with
      | positive => exact .inr (.inr (.inl ⟨m, e, hm, rfl⟩))
      | negative => exact absurd (by rw [hx]; rfl) h
  | infinity sign =>
      cases sign with
      | positive => exact .inr (.inr (.inr rfl))
      | negative => exact absurd (by rw [hx]; rfl) h

/-- What is not negative and can be compared is at least zero. -/
theorem nonneg_of_not_neg (h : ¬ x < 0) (hlt : x < y) : 0 ≤ x := by
  have hzero : (0 : Float32).toModel.unpack = .zero .positive := rfl
  rw [Duration.lt_iff] at hlt
  refine Duration.le_of_not_lt h ?_
  rw [hzero]
  rcases unpack_of_not_neg h with hx | ⟨sign, hx⟩ | ⟨m, e, hm, hx⟩ | hx <;> rw [hx] at hlt ⊢
  · cases hlt
  all_goals exact Option.some_ne_none _

/-- What is above a number that is not negative is positive. -/
theorem pos_of_nonneg_of_lt (hx : 0 ≤ x) (hlt : x < y) : 0 < y := by
  rcases unpack_of_nonneg hx with hzero | hfinite | hinfinite
  · exact Length.pos_iff.2 (Length.unpack_of_lt hlt (.inl hzero))
  · exact Length.pos_iff.2 (Length.unpack_of_lt hlt (.inr hfinite))
  · rw [Duration.lt_iff, hinfinite] at hlt
    cases hy : y.toModel.unpack with
    | notANumber => rw [hy] at hlt; cases hlt
    | zero sign => rw [hy] at hlt; cases hlt
    | finite sign m e hm => rw [hy] at hlt; cases hlt
    | infinity sign => cases sign <;> rw [hy] at hlt <;> cases hlt

/-- A quotient is computed unpacked, and then packed. -/
theorem unpack_div (x y : Float32) : (x / y).toModel.unpack =
    Float32.repack (x.toModel.unpack.div .binary32 y.toModel.unpack) := rfl

/-- A quotient of positive numbers is not negative. -/
theorem not_neg_div (hx : 0 < x) (hy : 0 < y) : ¬ x / y < 0 := by
  rw [neg_iff, unpack_div]
  rcases Length.pos_iff.1 hx with ⟨m, e, hm, hx⟩ | hx <;>
    rcases Length.pos_iff.1 hy with ⟨n, d, hn, hy⟩ | hy <;> rw [hx, hy]
  · exact Format.round_with_accuracy_not_neg _ _ _
  · show (Float32.repack (.zero .positive)).compare _ ≠ _
    decide
  · show (Float32.repack (.infinity .positive)).compare _ ≠ _
    decide
  · show (Float32.repack .notANumber).compare _ ≠ _
    decide

/-- The number of units of two positive numbers together. -/
theorem add_finite (hm : 0 < m) (hn : 0 < n) (e d : Int) :
    ∃ total : Nat, 0 < total ∧ (total : Rat) * 2 ^ min e d = m * 2 ^ e + n * 2 ^ d ∧
      UnpackedFloat.add .binary32 (.finite .positive m e hm) (.finite .positive n d hn) =
        UnpackedFloat.round .binary32 .positive total (min e d) := by
  have hpos : 0 < m * 2 ^ (e - min e d).toNat := by positivity
  have hunits (k : Nat) (a : Int) (ha : min e d ≤ a) :
      ((k * 2 ^ (a - min e d).toNat : Nat) : Rat) * 2 ^ min e d = k * 2 ^ a := by
    rw [Nat.cast_mul, two_zpow_to_nat (by omega), mul_assoc, ← two_zpow_add, sub_add_cancel]
  refine ⟨m * 2 ^ (e - min e d).toNat + n * 2 ^ (d - min e d).toNat, by omega, ?_, ?_⟩
  · rw [Nat.cast_add, add_mul, hunits m e (min_le_left ..), hunits n d (min_le_right ..)]
  · unfold UnpackedFloat.add decreaseExponent
    simp only [Nat.shiftLeft_eq]
    show UnpackedFloat.normalize _ (((_ : Nat) : Int) + ((_ : Nat) : Int)) _ _ = _
    rw [← Nat.cast_add, Format.normalize_nat_cast, if_neg (by omega)]

/-- A sum of numbers that are not negative is not negative. -/
theorem not_neg_add (hx : ¬ x < 0) (hy : ¬ y < 0) : ¬ x + y < 0 := by
  rw [neg_iff, Float32.unpack_add]
  rcases unpack_of_not_neg hx with hx | ⟨s, hx⟩ | ⟨m, e, hm, hx⟩ | hx <;>
    rcases unpack_of_not_neg hy with hy | ⟨t, hy⟩ | ⟨n, d, hn, hy⟩ | hy <;> rw [hx, hy]
  case inr.inr.inl.inr.inr.inl =>
    obtain ⟨total, -, -, hsum⟩ := add_finite hm hn e d
    rw [hsum]
    exact Format.round_positive_not_neg _ _
  case inr.inr.inl.inr.inl =>
    show (Float32.repack (.finite .positive m e hm)).compare _ ≠ _
    rw [Float32.repack_finite hx]
    simp [UnpackedFloat.compare]
  case inr.inl.inr.inr.inl =>
    show (Float32.repack (.finite .positive n d hn)).compare _ ≠ _
    rw [Float32.repack_finite hy]
    simp [UnpackedFloat.compare]
  case inr.inl.inr.inl => cases s <;> cases t <;> decide
  -- What is left has a part that is no number or infinite.
  all_goals
    simp [UnpackedFloat.add, Float32.repack_nan, Float32.repack_infinity, UnpackedFloat.compare]

/-- A sum that stays below something is not negative if neither summand is. -/
theorem nonneg_add (hx : 0 ≤ x) (hy : ¬ y < 0) {z : Float32} (hlt : x + y < z) : 0 ≤ x + y :=
  nonneg_of_not_neg (not_neg_add (Duration.not_lt_of_le hx) hy) hlt

/-! ## Sizes -/

/-- The size of a positive number, and zero for every other. -/
def size (x : Float32) : Rat :=
  match x.toModel.unpack with
  | .finite .positive m e _ => m * 2 ^ e
  | _ => 0

/-- The size of a finite positive number is the number. -/
theorem size_of_finite {hm : 0 < m} (hx : x.toModel.unpack = .finite .positive m e hm) :
    size x = m * 2 ^ e := by
  rw [size, hx]

/-- Sizes are not negative. -/
theorem size_nonneg (x : Float32) : 0 ≤ size x := by
  unfold size
  split
  · positivity
  · exact le_rfl

/-- The bits of a rounded number that is not too small to have all of them. -/
theorem bits_of_round (hm : 0 < m) (hlow : -126 ≤ e + m.log2) :
    ∃ (n : Nat) (d : Int), 0 < n ∧ (n : Rat) * 2 ^ d = m * 2 ^ e ∧
      (pack .binary32 (UnpackedFloat.round .binary32 .positive m e)).toNat =
        Format.single.roundSize n d := by
  have hlast : (Format.ofSpec .binary32).lastPlace m e = e + m.log2 - 23 := by
    have hleast : (Format.ofSpec .binary32).leastExponent = -149 := by decide
    have hplaces : (Format.ofSpec .binary32).fractionBits = 23 := rfl
    unfold Format.lastPlace
    rw [hleast, hplaces]
    omega
  obtain ⟨places, hplaces⟩ : ∃ places, places = (e - (e + m.log2 - 23)).toNat := ⟨_, rfl⟩
  have hlong : (Format.ofSpec .binary32).fractionBits ≤ (m * 2 ^ places).log2 := by
    show 23 ≤ _
    rw [Nat.le_log2 (by positivity)]
    calc 2 ^ 23 ≤ 2 ^ (m.log2 + places) := Nat.pow_le_pow_right (by omega) (by omega)
      _ = 2 ^ m.log2 * 2 ^ places := pow_add ..
      _ ≤ m * 2 ^ places := Nat.mul_le_mul_right _ (Nat.log2_self_le hm.ne')
  have hround : UnpackedFloat.round .binary32 .positive m e =
      roundWithAccuracy .binary32 .positive (m * 2 ^ places) (e - places) .exact := by
    unfold UnpackedFloat.round decreaseExponent
    simp only [Format.target_exponent_eq, hlast, ← hplaces, Nat.shiftLeft_eq]
  refine ⟨4 * (m * 2 ^ places), e - places - 2, by positivity, ?_, ?_⟩
  · have hfour : (2 : Rat) ^ (2 : Int) = 4 := by norm_num
    have hpower : (2 : Rat) ^ e = 2 ^ (e - places - 2) * 2 ^ (places : Int) * 2 ^ (2 : Int) := by
      rw [← two_zpow_add, ← two_zpow_add]
      congr 1
      ring
    rw [hpower, hfour, zpow_natCast]
    push_cast
    ring
  · rw [hround]
    exact (@Format.pack_round_with_accuracy .binary32 (by decide) _ _ .positive .exact
      (by positivity) hlong).trans (Nat.zero_add _)

/-- The number one, unpacked. -/
theorem unpack_one :
    (1 : Float32).toModel.unpack = .finite .positive (2 ^ 23) (-23) (by positivity) := rfl

/-- Infinity is not below one. -/
theorem infinity_not_lt (hx : x.toModel.unpack = .infinity .positive) : ¬ x < 1 := by
  rw [Duration.lt_iff, hx, unpack_one]
  decide

/-- A number below one whose bits were rounded is at least every number of the format that it is at
least without rounding. -/
theorem le_size_of_bits (hs : 0 < s) (h : Format.single.Canonical s c) (hm : 0 < m)
    (hle : (s : Rat) * 2 ^ c ≤ m * 2 ^ e) (hbits : x.toBits.toNat = Format.single.roundSize m e)
    (hlt : x < 1) : (s : Rat) * 2 ^ c ≤ size x := by
  have hpattern := Format.pattern_le_round hs h hm hle
  rw [← hbits] at hpattern
  have hmost : x.toBits.toNat ≤ Format.single.infinity := by
    rw [hbits, Format.round_size_eq hm]
    exact min_le_left ..
  rcases Length.unpack_of_bits hmost with hx | ⟨n, d, hn, hx⟩ | hx
  · have hread : x.reading = .finite false 0 Format.single.leastExponent := by
      rw [Float32.reading_eq, hx]
      rfl
    have hnone := (Format.pattern_of_read (by decide)
      (lt_of_lt_of_eq x.toBits.toNat_lt (by decide)) hread).2
    have hzero : Format.signBits Format.single false +
        Format.single.pattern 0 Format.single.leastExponent = 0 := by decide
    have hsome : s ≤ Format.single.pattern s c := Nat.le_add_left ..
    omega
  · rw [Length.bits_of_finite hx] at hpattern
    rw [size_of_finite hx]
    exact h.le_of_pattern_le (Float32.canonical_of_unpack hx) hpattern
  · exact absurd hlt (infinity_not_lt hx)

/-! ## Raises -/

/-- No number below one swallows a raise of this size. -/
def leastRaise : Float32 := Float32.ofBits 0x33800000

/-- The multiples of `2 ^ -24` up to one are numbers of the format. -/
theorem multiple_canonical {n : Nat} (hn : 0 < n) (hle : n ≤ 2 ^ 24) :
    ∃ s c, 0 < s ∧ Format.single.Canonical s c ∧ (s : Rat) * 2 ^ c = n * 2 ^ (-24 : Int) := by
  rcases hle.lt_or_eq with hlt | rfl
  · have hlog : n.log2 ≤ Format.single.fractionBits :=
      Nat.lt_succ_iff.1 ((Nat.log2_lt hn.ne').2 hlt)
    have hleast : Format.single.leastExponent = -149 := by decide
    have hplaces : Format.single.fractionBits = 23 := rfl
    have hexponents : (2 : Int) ^ Format.single.exponentBits = 256 := rfl
    refine ⟨_, _, by positivity, Format.canonical_scaled (e := -24) hn hlog (by omega) (by omega), ?_⟩
    have hpower : (2 : Rat) ^ ((Format.single.fractionBits - n.log2 : Nat) : Int) *
        2 ^ (-24 + (n.log2 : Int) - Format.single.fractionBits) = 2 ^ (-24 : Int) := by
      rw [← two_zpow_add]
      congr 1
      omega
    rw [← hpower, zpow_natCast]
    push_cast
    ring
  · exact ⟨2 ^ 23, -23, by positivity, ⟨by decide, by decide, by decide, by decide⟩, by norm_num⟩

/-- The least raise that counts, unpacked: `2 ^ -24`. -/
theorem unpack_least_raise :
    leastRaise.toModel.unpack = .finite .positive (2 ^ 23) (-47) (by positivity) := rfl

/-- What is at least the least raise is finite and as large, or infinite. -/
theorem unpack_of_raise (h : leastRaise ≤ x) :
    (∃ m e hm, x.toModel.unpack = .finite .positive m e hm ∧ (2 : Rat) ^ (-24 : Int) ≤ m * 2 ^ e) ∨
      x.toModel.unpack = .infinity .positive := by
  have hnot := Duration.not_lt_of_le h
  rcases unpack_of_le h (.inr ⟨_, _, _, unpack_least_raise⟩) with ⟨sign, hx⟩ | ⟨m, e, hm, hx⟩ | hx
  · rw [Duration.lt_iff, hx, unpack_least_raise] at hnot
    exact absurd rfl hnot
  · have hvalue : ((2 ^ 23 : Nat) : Rat) * 2 ^ (-47 : Int) = 2 ^ (-24 : Int) := by norm_num
    rw [Length.lt_iff hx unpack_least_raise, not_lt, hvalue] at hnot
    exact .inl ⟨m, e, hm, hx, hnot⟩
  · exact .inr hx

/-- A raise that counts is positive. -/
theorem pos_of_raise (h : leastRaise ≤ x) : 0 < x := by
  rcases unpack_of_raise h with ⟨m, e, hm, hx, -⟩ | hx
  · exact Length.pos_iff.2 (.inl ⟨m, e, hm, hx⟩)
  · exact Length.pos_iff.2 (.inr hx)

/-- A number between zero and one has a size below one. -/
theorem size_lt_one (hx : 0 ≤ x) (hlt : x < 1) : size x < 1 := by
  rcases unpack_of_nonneg hx with ⟨sign, hx⟩ | ⟨m, e, hm, hx⟩ | hx
  · rw [size, hx]
    exact one_pos
  · have hvalue : ((2 ^ 23 : Nat) : Rat) * 2 ^ (-23 : Int) = 1 := by norm_num
    rw [Length.lt_iff hx unpack_one, hvalue] at hlt
    rwa [size_of_finite hx]
  · exact absurd hlt (infinity_not_lt hx)

/-- A raise takes a number below one past the next multiple of `2 ^ -24`. -/
theorem reaches_next {n : Nat} (hx : 0 ≤ x) (hy : leastRaise ≤ y) (hlt : x + y < 1)
    (hn : n < 2 ^ 24) (hsize : (n : Rat) * 2 ^ (-24 : Int) ≤ size x) :
    ((n + 1 : Nat) : Rat) * 2 ^ (-24 : Int) ≤ size (x + y) := by
  obtain ⟨s, c, hs, hcanonical, hvalue⟩ := multiple_canonical (n := n + 1) (by omega) (by omega)
  have hmore : ((n + 1 : Nat) : Rat) * 2 ^ (-24 : Int) = n * 2 ^ (-24 : Int) + 2 ^ (-24 : Int) := by
    push_cast
    ring
  rcases unpack_of_raise hy with ⟨m, e, hm, hy, hraise⟩ | hy
  · rcases unpack_of_nonneg hx with ⟨sign, hx⟩ | ⟨k, d, hk, hx⟩ | hx
    · have hsum : (x + y).toModel.unpack = .finite .positive m e hm := by
        rw [Float32.unpack_add, hx, hy]
        exact Float32.repack_finite hy .positive
      have hnone : size x = 0 := by rw [size, hx]
      rw [hnone] at hsize
      rw [size_of_finite hsum, hmore]
      linarith
    · obtain ⟨total, htotal, hunits, hsum⟩ := add_finite hk hm d e
      rw [size_of_finite hx] at hsize
      have hle : (s : Rat) * 2 ^ c ≤ total * 2 ^ min d e := by
        rw [hvalue, hmore, hunits]
        linarith
      have hlow : -126 ≤ min d e + total.log2 := by
        have hlarge : (2 : Rat) ^ (-24 : Int) ≤ total * 2 ^ min d e := by
          rw [hunits]
          have hpos : (0 : Rat) ≤ k * 2 ^ d := by positivity
          linarith
        have hlead := le_lead htotal hlarge
        omega
      obtain ⟨n', d', hn', hvalue', hbits⟩ := bits_of_round htotal hlow
      have hbits : (x + y).toBits.toNat = Format.single.roundSize n' d' := by
        rw [← hbits, ← hsum, ← hx, ← hy]
        rfl
      rw [← hvalue]
      exact le_size_of_bits hs hcanonical hn' (by rwa [hvalue']) hbits hlt
    · refine absurd hlt (infinity_not_lt ?_)
      rw [Float32.unpack_add, hx, hy]
      exact Float32.repack_infinity _
  · refine absurd hlt (infinity_not_lt ?_)
    rw [Float32.unpack_add, hy]
    rcases unpack_of_nonneg hx with ⟨sign, hx⟩ | ⟨k, d, hk, hx⟩ | hx <;> rw [hx] <;>
      exact Float32.repack_infinity _

end Addition

end SynthRack
