import Mathlib
import SynthRack.Json.Printer

/-!
# The text of a JSON value

`Json.write` appends to a text. `Json.chars` is the text that it appends, as a list of characters
that follows the value's own structure, and `to_list_print` says that it is what `Json.print` writes.
-/

namespace SynthRack

namespace Json

mutual

/-- The characters of a written value. -/
def chars : Json → List Char
  | .null => ['n', 'u', 'l', 'l']
  | .bool true => ['t', 'r', 'u', 'e']
  | .bool false => ['f', 'a', 'l', 's', 'e']
  | .integer value => (printInt value).toList
  | .float value => (printFloat value).toList
  | .string value => (printString value).toList
  | .array [] => ['[', ']']
  | .array (value :: rest) => '[' :: (chars value ++ (charsElements rest ++ [']']))
  | .object [] => ['\x7b', '\x7d']
  | .object ((name, value) :: rest) =>
    '\x7b' :: ((printString name).toList ++ ':' :: (chars value ++ (charsMembers rest ++ ['\x7d'])))

/-- The characters of the elements after the first of an array. -/
def charsElements : List Json → List Char
  | [] => []
  | value :: rest => ',' :: (chars value ++ charsElements rest)

/-- The characters of the members after the first of an object. -/
def charsMembers : List (String × Json) → List Char
  | [] => []
  | (name, value) :: rest =>
    ',' :: ((printString name).toList ++ ':' :: (chars value ++ charsMembers rest))

end

mutual

/-- Writing a value appends its text to what was written before. -/
theorem to_list_write (out : String) : ∀ value, (write out value).toList = out.toList ++ chars value
  | .null => by simp [write, chars]
  | .bool true => by simp [write, chars]
  | .bool false => by simp [write, chars]
  | .integer value => by simp [write, chars]
  | .float value => by simp [write, chars]
  | .string value => by simp [write, chars]
  | .array [] => by simp [write, chars]
  | .array (value :: rest) => by
      simp [write, chars, to_list_write_elements _ rest, to_list_write _ value]
  | .object [] => by simp [write, chars]
  | .object ((name, value) :: rest) => by
      simp [write, chars, to_list_write_members _ rest, to_list_write _ value]

/-- Writing further elements appends their texts, each behind a comma. -/
theorem to_list_write_elements (out : String) :
    ∀ values, (writeElements out values).toList = out.toList ++ charsElements values
  | [] => by simp [writeElements, charsElements]
  | value :: rest => by
      simp [writeElements, charsElements, to_list_write_elements _ rest, to_list_write _ value]

/-- Writing further members appends their texts, each behind a comma. -/
theorem to_list_write_members (out : String) :
    ∀ members, (writeMembers out members).toList = out.toList ++ charsMembers members
  | [] => by simp [writeMembers, charsMembers]
  | (name, value) :: rest => by
      simp [writeMembers, charsMembers, to_list_write_members _ rest, to_list_write _ value]

end

/-- Printing writes the characters of the value. -/
theorem to_list_print (value : Json) : value.print.toList = value.chars := by
  rw [print, to_list_write]
  rfl

/-- Every element after the first is written behind a comma. -/
theorem chars_elements_eq (values : List Json) :
    charsElements values = values.flatMap fun value => ',' :: chars value := by
  induction values with
  | nil => rfl
  | cons value rest ih => rw [charsElements, ih, List.flatMap_cons, List.cons_append]

/-- The characters of a member of an object. -/
def memberChars (member : String × Json) : List Char :=
  (printString member.1).toList ++ ':' :: chars member.2

/-- The text of further members is that of each behind a comma. -/
theorem chars_members_eq (members : List (String × Json)) :
    charsMembers members = members.flatMap fun member => ',' :: memberChars member := by
  induction members with
  | nil => rfl
  | cons member rest ih =>
      rw [charsMembers, ih, List.flatMap_cons, memberChars]
      simp

end Json

end SynthRack
