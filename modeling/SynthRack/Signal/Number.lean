/-!
# Sample numbers

The arithmetic that sample kernels are written over. A kernel asks for a `Number` and never for a
concrete type, so one definition is played in single precision and read over exact numbers.
`fraction` and `wrap` are the two reductions of a phase to one turn: the first keeps the sign of
its argument, the second never falls below zero.
-/

namespace SynthRack

/-- What a sample kernel may do with a number: field operations, order, size, and the part after
the point. -/
class Number (α : Type) extends
    Zero α, One α, Add α, Sub α, Mul α, Div α, Neg α, BEq α, LT α, LE α where
  /-- Strict comparison is decided. -/
  decLt : DecidableLT α
  /-- Weak comparison is decided. -/
  decLe : DecidableLE α
  /-- Distance from zero. -/
  abs : α → α
  /-- Remainder of division by one, with the sign of the dividend. -/
  fraction : α → α

attribute [reducible, instance] Number.decLt Number.decLe

/-- Numbers with the circle functions. -/
class Circular (α : Type) extends Number α where
  /-- Half the circumference of the unit circle. -/
  pi : α
  /-- Sine of an angle in radians. -/
  sin : α → α
  /-- Cosine of an angle in radians. -/
  cos : α → α

namespace Number

variable {α : Type} [Number α]

/-- Twice the unit. -/
@[inline] def two : α := 1 + 1

/-- Half the unit. -/
@[inline] def half : α := 1 / two

/-- Remainder of division by one that is never negative: a negative `fraction` is moved up by
one turn. -/
@[inline] def wrap (x : α) : α :=
  let part := fraction x
  if part < 0 then part + 1 else part

end Number

end SynthRack

namespace Float32

/-- The sign bit, which tells the two zeros apart. -/
@[inline] def signBit (x : Float32) : Bool := x.toBits >>> 31 == 1

/-- Magnitudes from here on have no bits after the point. -/
@[inline] def wholeFrom : Float32 := 8388608

/-- The part after the point, with the sign of `x`. Taking the whole part away is exact, and an
infinity has no such part. -/
@[inline] def fraction (x : Float32) : Float32 :=
  let size := x.abs
  let part := if size < wholeFrom then size - size.toUInt32.toFloat32 else size - size
  if x.signBit then -part else part

end Float32

namespace SynthRack

/-- Samples are played in single precision. -/
instance : Circular Float32 where
  zero := 0
  one := 1
  add := Float32.add
  sub := Float32.sub
  mul := Float32.mul
  div := Float32.div
  neg := Float32.neg
  beq := Float32.beq
  lt := (· < ·)
  le := (· ≤ ·)
  decLt := fun x y => inferInstanceAs (Decidable (x < y))
  decLe := fun x y => inferInstanceAs (Decidable (x ≤ y))
  abs := Float32.abs
  fraction := Float32.fraction
  pi := Float32.ofBits 0x40490fdb
  sin := Float32.sin
  cos := Float32.cos

end SynthRack
