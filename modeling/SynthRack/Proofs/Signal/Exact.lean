import Mathlib
import SynthRack.Signal.Number

/-!
# Exact numbers

A sample kernel asks for a `Number` and is played in single precision. Every ordered field with whole
parts, the rationals among them, is a `Number` too: `Number.exact`. The same kernel is then read
without rounding. The instance is handed to a kernel by name and never found by itself, so all other
arithmetic on such a field is its own. A field need not have the functions of the circle, so a kernel
that asks for them is read with a `Circle` in their place.

Of the two reductions of a phase, `wrap` is the part after the point that Mathlib knows
(`wrap_exact`), and `fraction` agrees with it where the phase is not negative (`fraction_exact`).
-/

namespace SynthRack

variable {K : Type} [Field K] [LinearOrder K] [IsStrictOrderedRing K] [FloorRing K]

namespace Number

/-- Arithmetic without rounding. The part after the point has the sign of the number. -/
@[reducible] def exact : Number K where
  zero := 0
  one := 1
  add := (· + ·)
  sub := (· - ·)
  mul := (· * ·)
  div := (· / ·)
  neg := (- ·)
  beq x y := decide (x = y)
  lt := (· < ·)
  le := (· ≤ ·)
  decLt := inferInstance
  decLe := inferInstance
  abs x := |x|
  fraction x := if x < 0 then -Int.fract (-x) else Int.fract x

omit [IsStrictOrderedRing K] in
/-- Without a sign to keep, a remainder is the part after the point. -/
theorem fraction_exact {x : K} (h : 0 ≤ x) : @fraction K exact x = Int.fract x :=
  if_neg h.not_gt

/-- Over exact numbers wrapping leaves the part behind the point. -/
theorem wrap_exact (x : K) : @wrap K exact x = Int.fract x := by
  have hwrap : @wrap K exact x = if @fraction K exact x < 0 then @fraction K exact x + 1
      else @fraction K exact x := rfl
  rw [hwrap]
  rcases lt_or_ge x 0 with hneg | hpos
  · have hfraction : @fraction K exact x = -Int.fract (-x) := if_pos hneg
    rw [hfraction]
    by_cases hwhole : Int.fract x = 0
    · have hnone : Int.fract (-x) = 0 := Int.fract_neg_eq_zero.2 hwhole
      rw [hnone, hwhole, neg_zero, if_neg (lt_irrefl 0)]
    · have hrest := Int.fract_neg hwhole
      have hlt := Int.fract_lt_one x
      rw [hrest, if_pos (by linarith)]
      ring
  · rw [fraction_exact hpos, if_neg (Int.fract_nonneg x).not_gt]

end Number

/-- What stands for the functions of the circle. -/
structure Circle (K : Type) where
  pi : K
  sin : K → K
  cos : K → K

/-- Arithmetic without rounding, with the functions of a circle. -/
@[reducible] def Circle.exact (circle : Circle K) : Circular K where
  toNumber := Number.exact
  pi := circle.pi
  sin := circle.sin
  cos := circle.cos

end SynthRack
