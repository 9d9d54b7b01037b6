import SynthRack.Numeral.Shortest
import SynthRack.Json.Value

/-!
# Writing JSON text

`Json.print` writes a value without blanks. Strings escape the quote, the backslash and control
characters only. Numbers are written with the fewest digits that read back, with an exponent only
outside the range from `10 ^ -5` to `10 ^ 16`; what is no finite number is written as null.
-/

namespace SynthRack

namespace Json

/-- A lower-case hexadecimal digit. -/
def hexDigit (n : Nat) : Char := Nat.digitChar (n % 16)

/-- One character inside a written string. -/
def escapedChar (c : Char) : List Char :=
  match c with
  | '"' => ['\\', '"']
  | '\\' => ['\\', '\\']
  | '\x08' => ['\\', 'b']
  | '\x0c' => ['\\', 'f']
  | '\n' => ['\\', 'n']
  | '\r' => ['\\', 'r']
  | '\t' => ['\\', 't']
  | _ =>
    if c < ' ' then ['\\', 'u', '0', '0', hexDigit (c.toNat / 16), hexDigit c.toNat] else [c]

/-- A written string. -/
def printString (text : String) : String :=
  String.ofList ('"' :: text.toList.flatMap escapedChar ++ ['"'])

/-- A written decimal: positional within the range of plain numbers, always with a point. -/
def printDecimal (d : Decimal) : List Char :=
  let before := (Decimal.digitChars d.digits).length + d.exponent
  if before ≤ -5 ∨ 16 < before then d.scientific
  else if 0 ≤ d.exponent then d.plain ++ ['.', '0']
  else d.plain

/-- A written double-precision number. -/
def printFloat (x : Float) : String :=
  match x.reading with
  | .finite negative significand exponent =>
    let size :=
      if significand = 0 then ['0', '.', '0']
      else ((Decimal.shortest? .double .toEven significand exponent).map printDecimal).getD []
    String.ofList (if negative then '-' :: size else size)
  | .infinite _ => "null"
  | .nan => "null"

/-- A written integer. -/
def printInt (n : Int) : String :=
  let size := Decimal.digitChars n.natAbs
  String.ofList (if n < 0 then '-' :: size else size)

mutual

/-- Appends a written value to a text. -/
def write (out : String) : Json → String
  | .null => out ++ "null"
  | .bool true => out ++ "true"
  | .bool false => out ++ "false"
  | .integer value => out ++ printInt value
  | .float value => out ++ printFloat value
  | .string value => out ++ printString value
  | .array [] => out ++ "[]"
  | .array (value :: rest) => (writeElements (write (out.push '[') value) rest).push ']'
  | .object [] => (out.push '\x7b').push '\x7d'
  | .object ((name, value) :: rest) =>
    (writeMembers (write ((out.push '\x7b' ++ printString name).push ':') value) rest).push '\x7d'

/-- Appends the elements after the first of an array. -/
def writeElements (out : String) : List Json → String
  | [] => out
  | value :: rest => writeElements (write (out.push ',') value) rest

/-- Appends the members after the first of an object. -/
def writeMembers (out : String) : List (String × Json) → String
  | [] => out
  | (name, value) :: rest =>
    writeMembers (write ((out.push ',' ++ printString name).push ':') value) rest

end

/-- The text of a value. -/
def print (value : Json) : String := write "" value

end Json

end SynthRack
