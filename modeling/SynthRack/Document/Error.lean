import SynthRack.Json.Printer
import SynthRack.Text.Quoted

/-!
# Values of the wrong shape

What is wrong with a JSON value that parses but is not what its place in a document calls for, and
what is wrong with a whole rack document.
-/

namespace SynthRack

/-- A stored number that names no member of a closed set. -/
structure UnknownTag where
  /-- What the number should name. -/
  what : String
  tag : Nat
  deriving DecidableEq

/-- The text of an unknown tag. -/
def UnknownTag.message (e : UnknownTag) : String :=
  "unknown " ++ e.what ++ " tag " ++ toString e.tag

/-- Why a JSON value does not fit its place. -/
inductive Mismatch where
  /-- A value of another type was expected. -/
  | wrongType (found : Json) (expected : String)
  /-- An integer outside the expected type. -/
  | outOfRange (found : Int) (expected : String)
  /-- An array with more elements than the record has members. -/
  | tooManyElements (length : Nat)
  | unknownTag (e : UnknownTag)

namespace Mismatch

/-- How a value is named in a message. -/
def description : Json → String
  | .null => "null"
  | .bool true => "boolean `true`"
  | .bool false => "boolean `false`"
  | .integer value => "integer `" ++ Json.printInt value ++ "`"
  | .float value => "floating point `" ++ Json.printFloat value ++ "`"
  | .string value => "string " ++ quoted value
  | .array _ => "sequence"
  | .object _ => "map"

/-- The text of a mismatch. -/
def message : Mismatch → String
  | wrongType found expected =>
    "invalid type: " ++ description found ++ ", expected " ++ expected
  | outOfRange found expected =>
    "invalid value: integer `" ++ Json.printInt found ++ "`, expected " ++ expected
  | tooManyElements length =>
    "invalid length " ++ toString length ++ ", expected fewer elements in array"
  | unknownTag e => e.message

end Mismatch

/-- Why a text is no rack. -/
inductive DocumentError where
  /-- The text is not JSON. -/
  | malformed
  /-- A value does not fit its place. -/
  | mismatch (reason : Mismatch)
  /-- The document, a node or an effect is not an object. -/
  | notAnObject (what : String)
  /-- A required member is absent. -/
  | missingField (field : String)
  /-- The type of an effect names no kind. -/
  | unknownNodeType (tag : Json)

namespace DocumentError

/-- The text of an error; a malformed text has no more to say. -/
def message : DocumentError → String
  | malformed => "Invalid rack JSON"
  | mismatch reason => "Invalid rack JSON: " ++ reason.message
  | notAnObject what => "Expected " ++ what ++ " to be a JSON object"
  | missingField field => "Missing required field '" ++ field ++ "'"
  | unknownNodeType tag => "Unknown effect node type " ++ tag.print

end DocumentError

end SynthRack
