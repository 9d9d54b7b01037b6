/-!
# Binary interchange formats

A binary number format is a count of fraction bits and a count of exponent bits. `Format.read` says
which number a bit pattern stands for, as a natural significand times a power of two, and
`Format.round` gives the pattern nearest to such a number. Both work on naturals alone, so they
carry numbers between the two precisions and down to decimal text.
-/

namespace SynthRack

/-- A binary format with a sign bit, `exponentBits` and `fractionBits`. -/
structure Format where
  fractionBits : Nat
  exponentBits : Nat

/-- What a bit pattern stands for. -/
inductive Reading where
  /-- The number `± significand * 2 ^ exponent`. -/
  | finite (negative : Bool) (significand : Nat) (exponent : Int)
  | infinite (negative : Bool)
  | nan
  deriving DecidableEq

namespace Format

/-- Single precision. -/
def single : Format := ⟨23, 8⟩

/-- Double precision. -/
def double : Format := ⟨52, 11⟩

/-- The exponent of the last place of the smallest numbers. -/
def leastExponent (f : Format) : Int :=
  2 - Nat.pow 2 (f.exponentBits - 1) - f.fractionBits

/-- The exponent field that marks infinities and what is no number. -/
def specialField (f : Format) : Nat := Nat.pow 2 f.exponentBits - 1

/-- The pattern of the positive infinity. -/
def infinity (f : Format) : Nat := f.specialField * Nat.pow 2 f.fractionBits

/-- The sign bit alone. -/
def signMask (f : Format) : Nat := Nat.pow 2 (f.exponentBits + f.fractionBits)

/-- The number a bit pattern stands for. -/
def read (f : Format) (bits : Nat) : Reading :=
  let negative := decide (f.signMask ≤ bits)
  let fraction := bits % Nat.pow 2 f.fractionBits
  let field := bits / Nat.pow 2 f.fractionBits % Nat.pow 2 f.exponentBits
  if field = f.specialField then
    if fraction = 0 then .infinite negative else .nan
  else if field = 0 then .finite negative fraction f.leastExponent
  else .finite negative (Nat.pow 2 f.fractionBits + fraction) (f.leastExponent + (field - 1 : Nat))

/-- Half of `2 ^ places` and more moves the quotient of `n` by `2 ^ places` up, an exact half only
to an even neighbour. -/
def roundShift (n places : Nat) : Nat :=
  let quotient := n / Nat.pow 2 places
  let rest := 2 * (n % Nat.pow 2 places)
  if rest < Nat.pow 2 places then quotient
  else if Nat.pow 2 places < rest then quotient + 1
  else quotient + quotient % 2

/-- The pattern nearest to `significand * 2 ^ exponent`, ties to the even pattern. The last place
is chosen so that the significand fits; a carry out of it moves into the exponent field, and what
passes the largest number becomes infinite. -/
def roundSize (f : Format) (significand : Nat) (exponent : Int) : Nat :=
  if significand = 0 then 0
  else
    let last := max f.leastExponent (exponent + significand.log2 - f.fractionBits)
    let scaled :=
      if last ≤ exponent then significand * Nat.pow 2 (exponent - last).toNat
      else roundShift significand (last - exponent).toNat
    min f.infinity ((last - f.leastExponent).toNat * Nat.pow 2 f.fractionBits + scaled)

/-- The pattern nearest to a number with a sign. -/
def round (f : Format) (negative : Bool) (significand : Nat) (exponent : Int) : Nat :=
  (if negative then f.signMask else 0) + f.roundSize significand exponent

/-- The pattern for a reading; what is no number has the first pattern that says so. -/
def write (f : Format) : Reading → Nat
  | .finite negative significand exponent => f.round negative significand exponent
  | .infinite negative => (if negative then f.signMask else 0) + f.infinity
  | .nan => f.infinity + Nat.pow 2 (f.fractionBits - 1)

end Format

end SynthRack

namespace Float32

open SynthRack (Format Reading)

/-- What a single-precision number stands for. -/
def reading (x : Float32) : Reading := Format.single.read x.toBits.toNat

/-- The single-precision number nearest to a reading. -/
def ofReading (r : Reading) : Float32 := .ofBits (Format.single.write r).toUInt32

/-- The single-precision number nearest to an integer. -/
def nearestInt (n : Int) : Float32 := ofReading (.finite (decide (n < 0)) n.natAbs 0)

/-- The same number in double precision. -/
def widen (x : Float32) : Float := .ofBits (Format.double.write x.reading).toUInt64

end Float32

namespace Float

open SynthRack (Format Reading)

/-- What a double-precision number stands for. -/
def reading (x : Float) : Reading := Format.double.read x.toBits.toNat

/-- The double-precision number nearest to a reading. -/
def ofReading (r : Reading) : Float := .ofBits (Format.double.write r).toUInt64

/-- The double-precision number nearest to an integer. -/
def nearestInt (n : Int) : Float := ofReading (.finite (decide (n < 0)) n.natAbs 0)

/-- The single-precision number nearest to a double-precision one. -/
def narrow (x : Float) : Float32 := Float32.ofReading x.reading

end Float
