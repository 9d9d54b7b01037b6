import Mathlib
import SynthRack.Proofs.Json.Reading

/-!
# Paths into JSON values

A path leads from a value to a part of it, by names of members and positions of elements.
`Json.without` takes out the members at a set of paths, wherever they are. `lookup_without` says
what is left of an object, `elements_without` what is left of an array, and `without_eq_self` that
nothing is taken out of a value that no path leads into. `Json.put` puts a part at a path.
-/

namespace SynthRack

namespace Json

/-- A step from a value to a part of it. -/
inductive Step where
  | member (name : String)
  | index (position : Nat)
  deriving DecidableEq

/-- The steps to a part of a value, from the outside in. -/
abbrev Path := List Step

/-- The part of a value at a path. -/
def at? : Json → Path → Option Json
  | value, [] => some value
  | .object members, .member name :: path => (lookup? members name).bind (at? · path)
  | .array elements, .index position :: path => elements[position]?.bind (at? · path)
  | _, _ => none

/-- What is at a path is found step by step. -/
theorem at_append (value : Json) (path rest : Path) :
    value.at? (path ++ rest) = (value.at? path).bind (·.at? rest) := by
  induction path generalizing value with
  | nil => cases value <;> rfl
  | cons step path ih =>
      cases value with
      | object members =>
          cases step with
          | member name => cases h : lookup? members name <;> simp [at?, h, ih]
          | index position => rfl
      | array elements =>
          cases step with
          | member name => rfl
          | index position => cases h : elements[position]? <;> simp [at?, h, ih]
      | _ => cases step <;> rfl

/-- A value with another part at a path. A member that is missing is added to its object. -/
def put : Json → Path → Json → Json
  | _, [], part => part
  | .object members, .member name :: path, part =>
    .object (insert name (((lookup? members name).getD .null).put path part) members)
  | .array elements, .index position :: path, part =>
    .array (elements.modify position (·.put path part))
  | value, _, _ => value

/-- Putting a part in the place of a whole value leaves the part. -/
@[simp] theorem put_nil (value part : Json) : value.put [] part = part := by
  cases value <;> simp only [put]

/-- Putting a part below a member changes this member, which is made if it is missing. -/
theorem put_member (members : List (String × Json)) (name : String) (path : Path) (part : Json) :
    (object members).put (.member name :: path) part =
      .object (insert name (((lookup? members name).getD .null).put path part) members) := by
  simp only [put]

/-- Putting a part below an element changes this element. -/
theorem put_index (elements : List Json) (position : Nat) (path : Path) (part : Json) :
    (array elements).put (.index position :: path) part =
      .array (elements.modify position (·.put path part)) := by
  simp only [put]

/-- The paths of a set that start with a step, from there on. -/
def beyond (places : Path → Bool) (step : Step) : Path → Bool := fun path => places (step :: path)

mutual

/-- Takes the members at some places out of a value. -/
def without (value : Json) (gone : Path → Bool) : Json :=
  match value with
  | .array elements => .array (elementsWithout elements 0 gone)
  | .object members => .object (membersWithout members gone)
  | other => other

/-- Takes the members at some places out of the elements of an array from a position on. -/
def elementsWithout (elements : List Json) (position : Nat) (gone : Path → Bool) : List Json :=
  match elements with
  | [] => []
  | element :: rest =>
    element.without (beyond gone (.index position)) :: elementsWithout rest (position + 1) gone

/-- Takes the members at some places out of the members of an object. -/
def membersWithout (members : List (String × Json)) (gone : Path → Bool) : List (String × Json) :=
  match members with
  | [] => []
  | (name, value) :: rest =>
    if gone [.member name] then membersWithout rest gone
    else (name, value.without (beyond gone (.member name))) :: membersWithout rest gone

end

variable {gone : Path → Bool}

/-- A member is missing if it is gone itself, and else lacks what is gone inside it. -/
theorem lookup_without (members : List (String × Json)) (gone : Path → Bool) (name : String) :
    lookup? (membersWithout members gone) name =
      if gone [.member name] then none
      else (lookup? members name).map (·.without (beyond gone (.member name))) := by
  induction members with
  | nil => simp [membersWithout, lookup_nil]
  | cons member members ih =>
      obtain ⟨first, value⟩ := member
      rw [membersWithout]
      by_cases hname : name = first
      · subst hname
        by_cases hgone : gone [.member name] = true
        · simp [hgone, ih]
        · simp [hgone, lookup_cons]
      · by_cases hgone : gone [.member first] = true
        · simp [hgone, ih, lookup_cons, hname]
        · simp [hgone, ih, lookup_cons, hname]

/-- A member that stays has lost what was taken out inside it. -/
theorem lookup_stays {name : String} (hstays : gone [.member name] = false)
    (members : List (String × Json)) : lookup? (membersWithout members gone) name =
      (lookup? members name).map (·.without (beyond gone (.member name))) := by
  rw [lookup_without, hstays]
  rfl

/-- No element is gone, and each lacks what is gone inside it. -/
theorem elements_without (elements : List Json) (position : Nat) (gone : Path → Bool) :
    elementsWithout elements position gone =
      elements.mapIdx fun index element =>
        element.without (beyond gone (.index (position + index))) := by
  induction elements generalizing position with
  | nil => rfl
  | cons element elements ih =>
      rw [elementsWithout, ih, List.mapIdx_cons]
      simp only [Nat.add_zero, Nat.add_assoc, Nat.add_comm 1]

mutual

/-- Nothing is taken out of a value that no path leads into. -/
theorem without_eq_self (value : Json) {gone : Path → Bool}
    (h : ∀ step path, gone (step :: path) = false) : value.without gone = value := by
  cases value with
  | array elements => rw [without, elements_without_eq_self elements 0 h]
  | object members => rw [without, members_without_eq_self members h]
  | _ => rfl

/-- Where nothing is gone, elements stay as they are. -/
theorem elements_without_eq_self (elements : List Json) (position : Nat) {gone : Path → Bool}
    (h : ∀ step path, gone (step :: path) = false) :
    elementsWithout elements position gone = elements := by
  cases elements with
  | nil => rfl
  | cons element rest =>
      have hinside (step : Step) (path : Path) :
          beyond gone (.index position) (step :: path) = false := h _ _
      rw [elementsWithout, elements_without_eq_self rest (position + 1) h,
        without_eq_self element hinside]

/-- Where nothing is gone, members stay as they are. -/
theorem members_without_eq_self (members : List (String × Json)) {gone : Path → Bool}
    (h : ∀ step path, gone (step :: path) = false) : membersWithout members gone = members := by
  match members with
  | [] => rfl
  | (name, value) :: rest =>
      have hinside (step : Step) (path : Path) :
          beyond gone (.member name) (step :: path) = false := h _ _
      rw [membersWithout, h, if_neg (by decide), members_without_eq_self rest h,
        without_eq_self value hinside]

end

end Json

end SynthRack
