import SynthRack.Numeral.Binary

/-!
# Shortest decimal text

The decimal that names a binary number with the fewest digits, and of those the nearest. A number
is reached by every real between the two halfway points to its neighbours, the halfway points
themselves included iff its significand is even. `Decimal.shortest?` tries the powers of ten from
above: the first grid with a point among those reals holds the answer, one of the two grid points
around the number.
-/

namespace SynthRack

/-- The number `digits * 10 ^ exponent`. -/
structure Decimal where
  digits : Nat
  exponent : Int
  deriving DecidableEq

/-- What becomes of a number halfway between two shortest decimals. -/
inductive Tie where
  | toEven
  | up
  deriving DecidableEq

/-- The reals that round to a number, in units of `2 ^ exponent`: from `low` to `high` around
`middle`, ends included or not. -/
structure Interval where
  low : Nat
  middle : Nat
  high : Nat
  exponent : Int
  closed : Bool

namespace Interval

/-- The interval of the number `significand * 2 ^ exponent`, in quarters of its last place. Below a
power of two the numbers lie twice as dense. -/
def ofNumber (f : Format) (significand : Nat) (exponent : Int) : Interval where
  low := 4 * significand -
    if significand = Nat.pow 2 f.fractionBits ∧ f.leastExponent < exponent then 1 else 2
  middle := 4 * significand
  high := 4 * significand + 2
  exponent := exponent - 2
  closed := significand % 2 == 0

/-- The grid point `digits * 10 ^ power` next to the numerators of an interval over a common
denominator: the interval's numerators are multiplied by `up`, the grid's by `unit`. -/
structure Scale where
  up : Nat
  unit : Nat

/-- Clears the denominators of `2 ^ exponent` and `10 ^ power`. -/
def scale (i : Interval) (power : Int) : Scale where
  up := Nat.pow 2 i.exponent.toNat * Nat.pow 10 (-power).toNat
  unit := Nat.pow 2 (-i.exponent).toNat * Nat.pow 10 power.toNat

/-- Whether a grid point lies in the interval. -/
def holds (i : Interval) (s : Scale) (digits : Nat) : Bool :=
  let point := digits * s.unit
  if i.closed then decide (i.low * s.up ≤ point) && decide (point ≤ i.high * s.up)
  else decide (i.low * s.up < point) && decide (point < i.high * s.up)

/-- The grid point of a power of ten that names the number, if one of the two around it does: the
nearer if both do. -/
def pointAt? (i : Interval) (tie : Tie) (power : Int) : Option Nat :=
  let s := i.scale power
  let below := i.middle * s.up / s.unit
  match i.holds s below, i.holds s (below + 1) with
  | false, false => none
  | true, false => some below
  | false, true => some (below + 1)
  | true, true =>
    let rest := 2 * (i.middle * s.up % s.unit)
    if rest < s.unit then some below
    else if s.unit < rest then some (below + 1)
    else match tie with
      | .up => some (below + 1)
      | .toEven => some (below + below % 2)

/-- Searches the grids downward from `power`. -/
def search (i : Interval) (tie : Tie) (power : Int) : Nat → Option Decimal
  | 0 => none
  | steps + 1 =>
    match i.pointAt? tie power with
    | some digits => some ⟨digits, power⟩
    | none => i.search tie (power - 1) steps

end Interval

namespace Decimal

/-- A power of ten above every number with this many bits before the binary point. -/
def powerAbove (bits : Int) : Int := bits * 30103 / 100000 + 1

/-- The shortest decimal of a positive number. Twenty grids reach past the digits of either
format. -/
def shortest? (f : Format) (tie : Tie) (significand : Nat) (exponent : Int) : Option Decimal :=
  (Interval.ofNumber f significand exponent).search tie
    (powerAbove (significand.log2 + 1 + exponent)) 22

/-- The decimal digits of a natural number. -/
def digitChars (n : Nat) : List Char := Nat.toDigits 10 n

/-- Writes a decimal with no exponent and no more digits than it needs. -/
def plain (d : Decimal) : List Char :=
  let chars := digitChars d.digits
  let before := chars.length + d.exponent
  if 0 ≤ d.exponent then chars ++ List.replicate d.exponent.toNat '0'
  else if 0 < before then chars.take before.toNat ++ '.' :: chars.drop before.toNat
  else '0' :: '.' :: List.replicate (-before).toNat '0' ++ chars

/-- Writes a decimal with one digit before the point and a signed exponent. -/
def scientific (d : Decimal) : List Char :=
  let chars := digitChars d.digits
  let power := d.exponent + chars.length - 1
  let tail := match chars.drop 1 with
    | [] => []
    | rest => '.' :: rest
  let sign := if power < 0 then '-' else '+'
  chars.take 1 ++ tail ++ 'e' :: sign :: digitChars power.natAbs

end Decimal

end SynthRack
