import Mathlib
import SynthRack.Proofs.Document.Accepted
import SynthRack.Proofs.Document.NormalForm
import SynthRack.Proofs.Json.Legible

/-!
# Integers in the place of an ID

An ID that is no register number stands for none, but it is first read as an integer of 64 bits with
a sign, and an integer beyond that is an error. `Shape.id_integer` says so of one integer,
`Node.of_json_put_id` of a node and `Rack.of_json_put_id` of a document with another integer in the
place of one ID. `Rack.decode_put_id` is about texts.
-/

namespace SynthRack

open Json (Path)

/-- The place of the ID of a node in a document. -/
def idPlace (position : Nat) : Path := [.member "effects", .index position, .member "id"]

/-- Where a list of elements is read, it is read with another element at a position as soon as that
element is. -/
theorem map_m_modify {ε α : Type} {read : Json → Except ε α} {elements : List Json} {values : List α}
    (h : elements.mapM read = .ok values) {position : Nat} {value : α}
    (hvalue : values[position]? = some value) (f : Json → Json) :
    ∃ element, read element = .ok value ∧
      (elements.modify position f).mapM read = (read (f element)).map (values.set position) := by
  induction elements generalizing values position with
  | nil =>
      obtain rfl := pure_eq_ok.1 h
      cases hvalue
  | cons first elements ih =>
      rw [List.mapM_cons] at h
      obtain ⟨firstValue, hfirst, h⟩ := bind_eq_ok.1 h
      obtain ⟨rest, hrest, h⟩ := bind_eq_ok.1 h
      obtain rfl := pure_eq_ok.1 h
      cases position with
      | zero =>
          obtain rfl := Option.some.inj hvalue
          refine ⟨first, hfirst, ?_⟩
          rw [List.modify_zero_cons, List.mapM_cons, hrest]
          cases read (f first) <;> rfl
      | succ position =>
          obtain ⟨element, helement, hmodify⟩ := ih hrest hvalue
          refine ⟨element, helement, ?_⟩
          rw [List.modify_succ_cons, List.mapM_cons, hfirst, hmodify]
          cases read (f element) <;> rfl

namespace Shape

variable {α : Type} {shape : Shape α}

/-- A member that was put into an object is read. -/
theorem member_insert_self (members : List (String × Json)) (name : String) (value : Json)
    (default : α) :
    member (Json.insert name value members) name shape default = shape value := by
  rw [member, Json.lookup_insert, if_pos rfl, optional]

/-- The other members are read as before. -/
theorem member_insert_ne {name other : String} (h : other ≠ name) (members : List (String × Json))
    (value : Json) (default : α) :
    member (Json.insert name value members) other shape default =
      member members other shape default := by
  rw [member, Json.lookup_insert, if_neg h, member]

/-- An integer is read as an ID if it fits 64 bits with a sign. -/
theorem id_integer (k : Int) : nullable signedLong (.integer k) =
    if -2 ^ 63 ≤ k ∧ k < 2 ^ 63 then .ok (some k) else .error (.outOfRange k "i64") := by
  have hsize : ((UInt64.size : Nat) : Int) / 2 = 2 ^ 63 := by decide
  have hbounds : (-2 ^ 63 ≤ k ∧ k ≤ 2 ^ 63 - 1) ↔ -2 ^ 63 ≤ k ∧ k < 2 ^ 63 := by omega
  simp only [nullable, signedLong, integer, hsize, hbounds]
  split <;> rfl

end Shape

namespace Node

/-- With another integer for its ID, a node is read as before but for the ID, or the integer is
reported. -/
theorem of_json_put_id {json : Json} {node : Node} (h : ofJson json = .ok node) (k : Int) :
    ofJson (json.put [.member "id"] (.integer k)) =
      if -2 ^ 63 ≤ k ∧ k < 2 ^ 63 then .ok { node with id := storedId k }
      else .error (.mismatch (.outOfRange k "i64")) := by
  cases json with
  | object members =>
      cases hbody : Json.lookup? members "value" with
      | none => simp [ofJson, hbody] at h
      | some body =>
          simp only [ofJson, hbody, bind_eq_ok, lift_eq_ok, pure_eq_ok] at h
          obtain ⟨effect, heffect, id, -, toDelete, hdelete, enabled, henabled, rfl⟩ := h
          have hvalue :
              Json.lookup? (Json.insert "id" (.integer k) members) "value" = some body := by
            rw [Json.lookup_insert, if_neg (by decide), hbody]
          rw [Json.put_member, Json.put_nil]
          simp only [ofJson, hvalue, heffect, Shape.member_insert_self, Shape.id_integer,
            Shape.member_insert_ne (by decide : "toDelete" ≠ "id"), hdelete,
            Shape.member_insert_ne (by decide : "enabled" ≠ "id"), henabled]
          split <;> rfl
  | _ => simp [ofJson] at h

/-- Putting an integer in the place of an ID changes this ID alone, or makes the list unreadable. -/
theorem map_m_put_id {elements : List Json} {nodes : List Node}
    (h : elements.mapM ofJson = .ok nodes) {position : Nat} (hposition : position < nodes.length)
    (k : Int) :
    (elements.modify position (·.put [.member "id"] (.integer k))).mapM ofJson =
      if -2 ^ 63 ≤ k ∧ k < 2 ^ 63 then
        .ok (nodes.modify position ({ · with id := storedId k }))
      else .error (.mismatch (.outOfRange k "i64")) := by
  have hnode : nodes[position]? = some nodes[position] := List.getElem?_eq_getElem hposition
  obtain ⟨element, helement, hmodify⟩ :=
    map_m_modify h hnode (·.put [.member "id"] (.integer k))
  rw [hmodify, of_json_put_id helement]
  split
  · rw [List.modify_eq_set_getElem?, hnode]
    rfl
  · rfl

end Node

namespace Rack

/-- With another integer for the ID of one node, a document is read as before but for that ID, or
the integer is reported. -/
theorem of_json_put_id {document : Json} {rack : Rack} (h : ofJson document = .ok rack)
    {position : Nat} (hposition : position < rack.nodes.length) (k : Int) :
    ofJson (document.put (idPlace position) (.integer k)) =
      if -2 ^ 63 ≤ k ∧ k < 2 ^ 63 then
        .ok (rack.modifyNode position ({ · with id := Node.storedId k }))
      else .error (.mismatch (.outOfRange k "i64")) := by
  cases document with
  | object members =>
      cases heffects : Json.lookup? members "effects" with
      | none => simp [ofJson, bind_eq_ok, heffects] at h
      | some effects =>
          cases effects with
          | array elements =>
              simp only [ofJson, heffects, bind_eq_ok, lift_eq_ok, pure_eq_ok] at h
              obtain ⟨name, hname, nodes, hnodes, rfl⟩ := h
              rw [idPlace, Json.put_member, heffects, Option.getD_some, Json.put_index]
              simp only [ofJson, Json.lookup_insert, if_true, hname,
                Shape.member_insert_ne (by decide : "name" ≠ "effects"),
                Node.map_m_put_id hnodes hposition]
              split <;> rfl
          | _ => simp [ofJson, bind_eq_ok, heffects] at h
  | _ => simp [ofJson] at h

/-- Every integer of 64 bits, with or without a sign, can be written as the ID of any node of an
accepted document. If it fits 64 bits with a sign, the document is accepted: the node has this ID if
it is a register number and none otherwise, and all else is as before, so the document is loaded
with dense IDs. If it does not, it is reported as out of range. -/
theorem decode_put_id {text : String} {rack : Rack} (h : decode text = .ok rack) {position : Nat}
    (hposition : position < rack.nodes.length) {k : Int} (hlow : -2 ^ 63 ≤ k) (hhigh : k < 2 ^ 64) :
    Json.parse? (Json.printInt k) = some (.integer k) ∧
    ∃ document, Json.parse? text = some document ∧
      (∃ edited, Json.parse? edited = some (document.put (idPlace position) (.integer k))) ∧
      ∀ edited, Json.parse? edited = some (document.put (idPlace position) (.integer k)) →
        (k < 2 ^ 63 →
          decode edited = .ok (rack.modifyNode position ({ · with
            id := if 0 ≤ k ∧ k < 2 ^ 32 then some k.toNat else none })) ∧
          ∀ version, ∃ loaded, load edited version = .ok loaded ∧
            DenseIds (loaded.nodes.map (·.id))) ∧
        (2 ^ 63 ≤ k → decode edited = .error (.mismatch (.outOfRange k "i64"))) := by
  cases hparse : Json.parse? text with
  | none => simp [decode, hparse] at h
  | some document =>
      have hread : ofJson document = .ok rack := by simpa only [decode, hparse] using h
      have hlegible := Json.legible_iff.2 ⟨text, hparse⟩
      have hwritten := Json.legible_iff.1 (hlegible.put (.integer hlow hhigh) (idPlace position))
      refine ⟨Json.parse_print_int hlow hhigh, document, rfl, hwritten, ?_⟩
      intro edited hedited
      have hdecode : decode edited = ofJson (document.put (idPlace position) (.integer k)) := by
        simp only [decode, hedited]
      rw [of_json_put_id hread hposition] at hdecode
      constructor
      · intro hfits
        rw [if_pos ⟨hlow, hfits⟩] at hdecode
        refine ⟨hdecode, fun version => ?_⟩
        exact ⟨_, load_eq_ok.2 ⟨_, hdecode, rfl⟩, (laid_out_compile _ version).dense⟩
      · intro hbeyond
        rw [hdecode, if_neg (by omega)]

/-- The text of a rack with a single node, an empty sum, and some text for its ID. -/
def numberedText (id : String) : String :=
  "\x7b\"effects\":[\x7b\"id\":" ++ id ++ ",\"value\":\x7b\"type\":2\x7d\x7d]\x7d"

/-- The document of such a rack. -/
def numberedDocument (id : Int) : Json :=
  .object [("effects", .array [.object [("id", .integer id),
    ("value", .object [("type", .integer 2)])]])]

/-- Such a rack. -/
def numbered (id : Option Nat) : Rack :=
  { empty with nodes := [{ Node.ofEffect (.maths ⟨[]⟩) with id }] }

/-- The largest integer that is accepted stands for no ID. -/
theorem decode_put_id_largest :
    decode (numberedText "7") = .ok (numbered (some 7)) ∧
      decode (numberedText "9223372036854775807") = .ok (numbered none) := by
  have hparse : Json.parse? (numberedText "7") = some (numberedDocument 7) := rfl
  have hread : decode (numberedText "7") = .ok (numbered (some 7)) := by
    rw [decode, hparse]
    rfl
  have hedited : Json.parse? (numberedText "9223372036854775807") =
      some (numberedDocument 9223372036854775807) := rfl
  have hposition : 0 < (numbered (some 7)).nodes.length := Nat.zero_lt_one
  obtain ⟨-, document, hdocument, -, hall⟩ :=
    decode_put_id hread hposition (k := 9223372036854775807) (by decide) (by decide)
  obtain rfl := Option.some.inj (hparse.symm.trans hdocument)
  exact ⟨hread, ((hall _ hedited).1 (by decide)).1⟩

/-- The integer after it is an error. -/
theorem decode_id_too_large :
    decode (numberedText "7") = .ok (numbered (some 7)) ∧
      decode (numberedText "9223372036854775808") =
        .error (.mismatch (.outOfRange 9223372036854775808 "i64")) := by
  have hparse : Json.parse? (numberedText "7") = some (numberedDocument 7) := rfl
  have hparseLarge : Json.parse? (numberedText "9223372036854775808") =
      some (numberedDocument 9223372036854775808) := rfl
  constructor
  · rw [decode, hparse]
    rfl
  · rw [decode, hparseLarge]
    rfl

end Rack

end SynthRack
