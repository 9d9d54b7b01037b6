/-!
# JSON values

A value as it stands in a document. Integers keep their exact value and are apart from numbers
with a fraction or an exponent; an object keeps its members in the order they are written. A read
object has its members in ascending order of their names, each name once.
-/

namespace SynthRack

/-- A JSON value. -/
inductive Json where
  | null
  | bool (value : Bool)
  | integer (value : Int)
  | float (value : Float)
  | string (value : String)
  | array (elements : List Json)
  | object (members : List (String × Json))
  deriving Inhabited

namespace Json

/-- The value of a member in a list of members. -/
def lookup? (members : List (String × Json)) (name : String) : Option Json :=
  List.lookup name members

/-- Puts a member into an ordered list of members; a member of the same name is replaced. -/
def insert (name : String) (value : Json) : List (String × Json) → List (String × Json)
  | [] => [(name, value)]
  | (other, old) :: rest =>
    if name < other then (name, value) :: (other, old) :: rest
    else if name = other then (name, value) :: rest
    else (other, old) :: insert name value rest

/-- The object with the given members, later ones first to count. -/
def ofMembers (members : List (String × Json)) : Json :=
  .object (members.foldl (fun ordered member => insert member.1 member.2 ordered) [])

end Json

end SynthRack
