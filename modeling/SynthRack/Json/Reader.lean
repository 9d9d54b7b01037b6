import SynthRack.Json.Number

/-!
# Reading JSON text

`Json.parse?` reads a whole document and refuses anything that is not strict JSON: blanks are the
space, tab, line feed and carriage return, nothing follows the value, strings hold no raw control
characters, surrogates come in pairs, and arrays and objects nest at most `Json.maxDepth` deep.
Every reader takes the text and returns its result with the text that follows. Readers of strings
and of items take a limit on their steps; the length of the document is one that no reading
reaches, since every step takes a character.
-/

namespace SynthRack

namespace Json

/-- How deep arrays and objects may nest. -/
def maxDepth : Nat := 127

/-- Blanks between tokens. -/
def isBlank (c : Char) : Bool := c == ' ' || c == '\t' || c == '\n' || c == '\r'

/-- Drops blanks from the front of a text. -/
def skipBlanks (text : List Char) : List Char := text.dropWhile isBlank

/-- The value of a hexadecimal digit. -/
def hexValue? (c : Char) : Option Nat :=
  if c.isDigit then some (c.toNat - '0'.toNat)
  else if 'a' ≤ c ∧ c ≤ 'f' then some (c.toNat - 'a'.toNat + 10)
  else if 'A' ≤ c ∧ c ≤ 'F' then some (c.toNat - 'A'.toNat + 10)
  else none

/-- Reads the four digits of a code unit. -/
def readUnit? : List Char → Option (Nat × List Char)
  | a :: b :: c :: d :: rest => do
    let a ← hexValue? a
    let b ← hexValue? b
    let c ← hexValue? c
    let d ← hexValue? d
    return (((a * 16 + b) * 16 + c) * 16 + d, rest)
  | _ => none

/-- The first half of a surrogate pair. -/
def isHighSurrogate (unit : Nat) : Bool := 0xD800 ≤ unit && unit ≤ 0xDBFF

/-- The second half of a surrogate pair. -/
def isLowSurrogate (unit : Nat) : Bool := 0xDC00 ≤ unit && unit ≤ 0xDFFF

/-- Reads the character of a numeric escape, one code unit or a surrogate pair. -/
def readCodePoint? (text : List Char) : Option (Char × List Char) := do
  let (unit, rest) ← readUnit? text
  if isHighSurrogate unit then
    match rest with
    | '\\' :: 'u' :: rest =>
      let (low, rest) ← readUnit? rest
      if isLowSurrogate low then
        return (Char.ofNat (0x10000 + (unit - 0xD800) * 0x400 + (low - 0xDC00)), rest)
      else none
    | _ => none
  else if isLowSurrogate unit then none
  else return (Char.ofNat unit, rest)

/-- The character of a one-letter escape. -/
def escaped? : Char → Option Char
  | '"' => some '"'
  | '\\' => some '\\'
  | '/' => some '/'
  | 'b' => some '\x08'
  | 'f' => some '\x0c'
  | 'n' => some '\n'
  | 'r' => some '\r'
  | 't' => some '\t'
  | _ => none

/-- Reads the rest of a string after its opening quote, given what was read of it, last character
first. -/
def readString? : Nat → List Char → List Char → Option (String × List Char)
  | 0, _, _ => none
  | steps + 1, done, text =>
    match text with
    | [] => none
    | '"' :: rest => some (String.ofList done.reverse, rest)
    | '\\' :: 'u' :: rest =>
      match readCodePoint? rest with
      | some (c, rest) => readString? steps (c :: done) rest
      | none => none
    | '\\' :: c :: rest =>
      match escaped? c with
      | some c => readString? steps (c :: done) rest
      | none => none
    | c :: rest => if c < ' ' ∨ c = '\\' then none else readString? steps (c :: done) rest

/-- Reads a value that holds no other. -/
def readScalar? (limit : Nat) (text : List Char) : Option (Json × List Char) :=
  match text with
  | 'n' :: 'u' :: 'l' :: 'l' :: rest => some (.null, rest)
  | 't' :: 'r' :: 'u' :: 'e' :: rest => some (.bool true, rest)
  | 'f' :: 'a' :: 'l' :: 's' :: 'e' :: rest => some (.bool false, rest)
  | '"' :: rest => (readString? limit [] rest).map fun (s, rest) => (.string s, rest)
  | _ => readNumber? text

/-- Reads items up to a closing character, with commas between them, given the items read so far,
last item first. The text starts at an item. -/
def readItems? {α : Type} (item : List Char → Option (α × List Char)) (close : Char) :
    Nat → List α → List Char → Option (List α × List Char)
  | 0, _, _ => none
  | steps + 1, done, text =>
    match item text with
    | none => none
    | some (value, rest) =>
      match skipBlanks rest with
      | ',' :: rest => readItems? item close steps (value :: done) (skipBlanks rest)
      | c :: rest => if c = close then some ((value :: done).reverse, rest) else none
      | [] => none

/-- Reads the items of an array or object after its opening character. -/
def readBody? {α : Type} (item : List Char → Option (α × List Char)) (close : Char) (limit : Nat)
    (text : List Char) : Option (List α × List Char) :=
  match skipBlanks text with
  | [] => none
  | c :: rest =>
    if c = close then some ([], rest) else readItems? item close limit [] (c :: rest)

/-- Reads a member of an object, given the reader of its value. -/
def readMember? (value : List Char → Option (Json × List Char)) (limit : Nat)
    (text : List Char) : Option ((String × Json) × List Char) :=
  match text with
  | '"' :: rest => do
    let (name, rest) ← readString? limit [] rest
    match skipBlanks rest with
    | ':' :: rest =>
      let (v, rest) ← value (skipBlanks rest)
      return ((name, v), rest)
    | _ => none
  | _ => none

/-- Reads a value, with a budget for the depth of nesting. -/
def readValue? (limit : Nat) : Nat → List Char → Option (Json × List Char)
  | 0, text => readScalar? limit text
  | depth + 1, text =>
    match text with
    | '[' :: rest =>
      (readBody? (readValue? limit depth) ']' limit rest).map fun (vs, rest) => (.array vs, rest)
    | '\x7b' :: rest =>
      (readBody? (readMember? (readValue? limit depth) limit) '\x7d' limit rest).map
        fun (members, rest) => (ofMembers members, rest)
    | _ => readScalar? limit text

/-- Reads a document. -/
def parse? (text : String) : Option Json := do
  let chars := text.toList
  let (value, rest) ← readValue? chars.length maxDepth (skipBlanks chars)
  if (skipBlanks rest).isEmpty then return value else none

end Json

end SynthRack
