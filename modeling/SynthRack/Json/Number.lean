import SynthRack.Numeral.Binary
import SynthRack.Json.Value

/-!
# Reading JSON numbers

A number without fraction and exponent that fits 64 bits is an integer. Any other is a
double-precision number, found from at most 64 bits of leading digits and one multiplication or
division by a power of ten, so its last bit may differ from the nearest number's. A number too
large for the format is refused.
-/

namespace SynthRack

namespace Json

/-- One past the largest significand. -/
def significandLimit : Nat := UInt64.size

/-- The value of a decimal digit. -/
def digitValue (c : Char) : Nat := c.toNat - '0'.toNat

/-- Appends digits to a significand while it stays within 64 bits; the count tells how many were
taken. -/
def absorb (significand : Nat) : List Char → Nat × Nat
  | [] => (significand, 0)
  | c :: rest =>
    let longer := significand * 10 + digitValue c
    if longer < significandLimit then
      let (final, count) := absorb longer rest
      (final, count + 1)
    else (significand, 0)

/-- The largest power of ten used in one multiplication. -/
def largestPower : Nat := 308

/-- The double-precision powers of ten, each the nearest. -/
def powersOfTen : Array Float :=
  (Array.range (largestPower + 1)).map fun n => Float.ofReading (.finite false (Nat.pow 10 n) 0)

/-- Moves the decimal point of a number: one multiplication to the right, if that stays finite;
to the left by as many divisions as it takes. -/
def scaleByTen (x : Float) (exponent : Int) : Option Float :=
  if _h : exponent.natAbs ≤ largestPower then
    let power := powersOfTen.getD exponent.natAbs 1
    if 0 ≤ exponent then
      let product := x * power
      if product.isInf then none else some product
    else some (x / power)
  else if x == 0 then some x
  else if 0 ≤ exponent then none
  else scaleByTen (x / powersOfTen.getD largestPower 1) (exponent + largestPower)
termination_by exponent.natAbs
decreasing_by simp only [largestPower] at *; omega

/-- The written parts of a number. -/
structure Numeral where
  negative : Bool
  /-- Digits before the point. -/
  whole : List Char
  /-- Digits after the point, if there is one. -/
  fraction : Option (List Char)
  /-- Sign and digits of the exponent, if there is one. -/
  exponent : Option (Bool × List Char)

namespace Numeral

/-- The natural number that digits write. -/
def natOfDigits (digits : List Char) : Nat :=
  digits.foldl (fun value c => value * 10 + digitValue c) 0

/-- Whether the digits before the point are well formed: there are some, and a zero in front
stands alone. -/
def wholeOk : List Char → Bool
  | [] => false
  | [_] => true
  | c :: _ => c != '0'

/-- Whether all parts are well formed. -/
def wellFormed (n : Numeral) : Bool :=
  wholeOk n.whole && n.fraction.all (! ·.isEmpty) && n.exponent.all (! ·.2.isEmpty)

/-- The written exponent. -/
def written (n : Numeral) : Int :=
  match n.exponent with
  | none => 0
  | some (negative, digits) =>
    if negative then -(natOfDigits digits : Int) else natOfDigits digits

/-- The number as a double: leading digits, then the decimal point moved. -/
def toFloat? (n : Numeral) : Option Float :=
  let (significand, taken) := absorb 0 n.whole
  let skipped := n.whole.length - taken
  let (significand, taken) := absorb significand (n.fraction.getD [])
  let size := scaleByTen (Float.nearestInt significand) (skipped - taken + n.written)
  size.map fun x => if n.negative then -x else x

/-- The integer, if the numeral writes one that fits 64 bits and is not a negative zero. -/
def toInt? (n : Numeral) : Option Int :=
  if n.fraction.isNone && n.exponent.isNone then
    let size := natOfDigits n.whole
    if n.negative then
      if 0 < size ∧ size ≤ UInt64.size / 2 then some (-size) else none
    else if size < significandLimit then some size else none
  else none

/-- The value of a numeral. -/
def value? (n : Numeral) : Option Json :=
  if n.wellFormed then
    match n.toInt? with
    | some i => some (.integer i)
    | none => n.toFloat?.map .float
  else none

end Numeral

/-- Splits the digits off the front of a text. -/
def spanDigits (text : List Char) : List Char × List Char := text.span Char.isDigit

/-- Splits a fraction off the front of a text. -/
def spanFraction : List Char → Option (List Char) × List Char
  | '.' :: rest =>
    let (digits, rest) := spanDigits rest
    (some digits, rest)
  | text => (none, text)

/-- Splits an exponent off the front of a text. -/
def spanExponent : List Char → Option (Bool × List Char) × List Char
  | [] => (none, [])
  | c :: rest =>
    if c = 'e' ∨ c = 'E' then
      let (negative, rest) := match rest with
        | '-' :: rest => (true, rest)
        | '+' :: rest => (false, rest)
        | _ => (false, rest)
      let (digits, rest) := spanDigits rest
      (some (negative, digits), rest)
    else (none, c :: rest)

/-- Reads a number and returns what follows it. -/
def readNumber? (text : List Char) : Option (Json × List Char) :=
  let (negative, text) := match text with
    | '-' :: rest => (true, rest)
    | _ => (false, text)
  let (whole, text) := spanDigits text
  let (fraction, text) := spanFraction text
  let (exponent, text) := spanExponent text
  (Numeral.value? ⟨negative, whole, fraction, exponent⟩).map (·, text)

end Json

end SynthRack
