import Mathlib
import SynthRack.Document.Read
import SynthRack.Proofs.Json.Reading

/-!
# The grammar of rack documents

Which JSON values are racks, said without a reader: `Json.IsRack`, assembled from scalars, records
and lists, with a table of the settings of each kind of effect. `Rack.described` is the rack that
such a document describes; on any other value it says nothing of interest.
-/

namespace SynthRack

/-! ## Forms -/

namespace Json

/-- A number. -/
def IsNumber : Json → Prop
  | .integer _ | .float _ => True
  | _ => False

/-- An integer from `low` up to `high`. -/
def IsInteger (low high : Int) : Json → Prop
  | .integer value => low ≤ value ∧ value ≤ high
  | _ => False

/-- A boolean. -/
def IsBool : Json → Prop
  | .bool _ => True
  | _ => False

/-- A text. -/
def IsText : Json → Prop
  | .string _ => True
  | _ => False

/-- Null, or a value of a form. -/
def IsNullOr (form : Json → Prop) (json : Json) : Prop := json = .null ∨ form json

/-- A list of values of a form. -/
def IsListOf (form : Json → Prop) : Json → Prop
  | .array elements => ∀ element ∈ elements, form element
  | _ => False

/-- A member is absent or has a form. -/
def IfPresent (members : List (String × Json)) (name : String) (form : Json → Prop) : Prop :=
  ∀ value, lookup? members name = some value → form value

/-- The members of a record: an object names them, and an array lists them in their order, from the
first up to any. -/
def record? (names : List String) : Json → Option (List (String × Json))
  | .object members => some members
  | .array elements => if elements.length ≤ names.length then some (names.zip elements) else none
  | _ => none

/-- A record whose members fit. -/
def IsRecord (names : List String) (fits : List (String × Json) → Prop) (json : Json) : Prop :=
  ∃ members, json.record? names = some members ∧ fits members

/-- A parameter. -/
def IsParameter : Json → Prop :=
  IsRecord ["value", "regIdx", "effectId"] fun members =>
    IfPresent members "value" (IsNullOr IsNumber) ∧
    IfPresent members "regIdx" (IsNullOr (IsInteger 0 3)) ∧
    IfPresent members "effectId" (IsNullOr (IsInteger 0 (2 ^ 32 - 1)))

/-- A term. -/
def IsTerm : Json → Prop :=
  IsRecord ["coefficients"] fun members => IfPresent members "coefficients" (IsListOf IsParameter)

/-- A condition. -/
def IsCondition : Json → Prop :=
  IsRecord ["a", "operator", "b", "then"] fun members =>
    IfPresent members "a" IsParameter ∧
    IfPresent members "operator" (IsInteger 1 2) ∧
    IfPresent members "b" IsParameter ∧
    IfPresent members "then" IsParameter

end Json

/-- What a setting of an effect holds. -/
inductive Setting where
  | parameter
  | waveform
  | terms
  | conditions

/-- The form of a setting. -/
def Setting.Form : Setting → Json → Prop
  | parameter => Json.IsParameter
  | waveform => Json.IsInteger 0 4
  | terms => Json.IsListOf Json.IsTerm
  | conditions => Json.IsListOf Json.IsCondition

/-- The settings of each kind of effect. -/
def EffectType.settings : EffectType → List (String × Setting)
  | oscillator => [("waveform", .waveform), ("amplitude", .parameter), ("frequency", .parameter),
      ("frequencyMult", .parameter), ("phase", .parameter), ("offset", .parameter)]
  | envelope => [("signal", .parameter), ("attack", .parameter), ("decay", .parameter),
      ("sustain", .parameter), ("release", .parameter), ("toModulate", .parameter)]
  | maths => [("terms", .terms)]
  | switch => [("conditions", .conditions), ("default", .parameter)]
  | noise => [("amplitude", .parameter)]
  | delay => [("signal", .parameter), ("seconds", .parameter)]
  | biquad => [("signal", .parameter), ("a1", .parameter), ("a2", .parameter), ("b0", .parameter),
      ("b1", .parameter), ("b2", .parameter)]

namespace Json

/-- An effect: an object whose type is the number of a kind and whose settings fit that kind. -/
def IsEffect : Json → Prop
  | .object members => ∃ type : EffectType, lookup? members "type" = some (.integer type.tag) ∧
      ∀ setting ∈ type.settings, IfPresent members setting.1 setting.2.Form
  | _ => False

/-- A node, but for its ID. -/
def IsNode : Json → Prop
  | .object members => (∃ body, lookup? members "value" = some body ∧ body.IsEffect) ∧
      IfPresent members "toDelete" IsBool ∧ IfPresent members "enabled" IsBool
  | _ => False

/-- A rack, but for the IDs of its nodes. -/
def IsRack : Json → Prop
  | .object members => IfPresent members "name" IsText ∧
      ∃ nodes, lookup? members "effects" = some (.array nodes) ∧ ∀ node ∈ nodes, node.IsNode
  | _ => False

/-- If a node has an ID, it is null or an integer of 64 bits. -/
def IdFits : Json → Prop
  | .object members => IfPresent members "id" (IsNullOr (IsInteger (-2 ^ 63) (2 ^ 63 - 1)))
  | _ => True

/-- The IDs of all nodes of a document fit. -/
def IdsFit : Json → Prop
  | .object members => ∀ nodes, lookup? members "effects" = some (.array nodes) →
      ∀ node ∈ nodes, node.IdFits
  | _ => True

/-! ## Readings -/

/-- The number that a value is, in single precision. -/
def number? : Json → Option Float32
  | .integer value => some (Float32.nearestInt value)
  | .float value => some value.narrow
  | _ => none

/-- The integer that a value is. -/
def integer? : Json → Option Int
  | .integer value => some value
  | _ => none

/-- The member of a closed set that a value is the number of. -/
def named? {α : Type} (ofTag? : Nat → Option α) (json : Json) : Option α :=
  (json.integer?.bind Int.toNat?).bind ofTag?

/-- The truth of a boolean. -/
def truth : Json → Bool
  | .bool value => value
  | _ => false

/-- The characters of a text. -/
def text : Json → String
  | .string value => value
  | _ => ""

/-- The elements of a list. -/
def elements : Json → List Json
  | .array elements => elements
  | _ => []

/-- The members of an object. -/
def members : Json → List (String × Json)
  | .object members => members
  | _ => []

/-- What a member says, or else a default. -/
def orElse {α : Type} (members : List (String × Json)) (name : String) (read : Json → α)
    (default : α) : α :=
  (lookup? members name).elim default read

/-- The members of a record, none if the value is no record. -/
def fields (names : List String) (json : Json) : List (String × Json) :=
  (json.record? names).getD []

end Json

open Json (orElse)

/-- The binding that the members of a parameter describe: a node if there is the ID of one, else an
input if there is the number of one, else a constant if there is a number. -/
def Binding.ofFields (members : List (String × Json)) : Binding :=
  match orElse members "effectId" (Json.named? some) none,
    orElse members "regIdx" (Json.named? Builtin.ofTag?) none,
    orElse members "value" Json.number? none with
  | some id, _, _ => .node id
  | none, some input, _ => .builtin input
  | none, none, some value => .constant value
  | none, none, none => .unset

/-- The binding that a parameter describes. -/
def Binding.described (json : Json) : Binding :=
  ofFields (json.fields ["value", "regIdx", "effectId"])

/-- The coefficients that the members of a term describe. -/
def Maths.termOfFields (members : List (String × Json)) : List Binding :=
  orElse members "coefficients" (·.elements.map Binding.described) newTerm

/-- The coefficients that a term describes. -/
def Maths.termDescribed (json : Json) : List Binding := termOfFields (json.fields ["coefficients"])

/-- The comparison that a number describes. -/
def Comparison.described (json : Json) : Comparison :=
  (json.named? ofTag?).getD default

/-- The condition that its members describe. -/
def Condition.ofFields (members : List (String × Json)) : Condition Binding where
  a := orElse members "a" Binding.described new.a
  operator := orElse members "operator" Comparison.described new.operator
  b := orElse members "b" Binding.described new.b
  result := orElse members "then" Binding.described new.result

/-- The condition that a document describes. -/
def Condition.described (json : Json) : Condition Binding :=
  ofFields (json.fields ["a", "operator", "b", "then"])

/-- The waveform that a number describes. -/
def Waveform.described (json : Json) : Waveform :=
  (json.named? ofTag?).getD default

/-- The effect of a kind that members describe. -/
def Effect.settingsDescribed (type : EffectType) (members : List (String × Json)) :
    Effect Binding :=
  let param (name : String) (default : Binding) := orElse members name Binding.described default
  match new type with
  | .oscillator o => .oscillator {
      waveform := orElse members "waveform" Waveform.described o.waveform
      amplitude := param "amplitude" o.amplitude
      frequency := param "frequency" o.frequency
      frequencyMult := param "frequencyMult" o.frequencyMult
      phase := param "phase" o.phase
      offset := param "offset" o.offset }
  | .envelope e => .envelope {
      signal := param "signal" e.signal
      attack := param "attack" e.attack
      decay := param "decay" e.decay
      sustain := param "sustain" e.sustain
      release := param "release" e.release
      toModulate := param "toModulate" e.toModulate }
  | .maths m => .maths {
      terms := orElse members "terms" (·.elements.map Maths.termDescribed) m.terms }
  | .switch s => .switch {
      conditions := orElse members "conditions" (·.elements.map Condition.described) s.conditions
      fallback := param "default" s.fallback }
  | .noise n => .noise { amplitude := param "amplitude" n.amplitude }
  | .delay d => .delay { signal := param "signal" d.signal, seconds := param "seconds" d.seconds }
  | .biquad b => .biquad {
      signal := param "signal" b.signal
      a1 := param "a1" b.a1
      a2 := param "a2" b.a2
      b0 := param "b0" b.b0
      b1 := param "b1" b.b1
      b2 := param "b2" b.b2 }

/-- The effect that a document describes. -/
def Effect.described (json : Json) : Effect Binding :=
  let type := orElse json.members "type" (Json.named? EffectType.ofTag?) none
  settingsDescribed (type.getD default) json.members

/-- The node that its members describe. An ID outside 32 bits stands for none. -/
def Node.ofFields (members : List (String × Json)) : Node :=
  { ofEffect (orElse members "value" Effect.described (.new default)) with
    id := (orElse members "id" Json.integer? none).bind storedId
    toDelete := orElse members "toDelete" Json.truth false
    enabled := orElse members "enabled" Json.truth true }

/-- The node that a document describes. -/
def Node.described (json : Json) : Node := ofFields json.members

/-- The rack that its members describe. -/
def Rack.ofFields (members : List (String × Json)) : Rack :=
  { empty with
    name := orElse members "name" Json.text ""
    nodes := orElse members "effects" (·.elements.map Node.described) [] }

/-- The rack that a document describes. -/
def Rack.described (json : Json) : Rack := ofFields json.members

/-! ## Members and kinds -/

/-- A member that is there is read, whatever the default. -/
theorem Json.or_else_some {α : Type} {members : List (String × Json)} {name : String} {value : Json}
    (h : lookup? members name = some value) (read : Json → α) (default : α) :
    orElse members name read default = read value := by
  rw [orElse, h]
  rfl

/-- In an array that lists a record, a member stands at its place in the order. -/
theorem Json.lookup_zip {names : List String} (hnames : names.Nodup) {index : Nat} {name : String}
    (hname : names[index]? = some name) (elements : List Json) :
    lookup? (names.zip elements) name = elements[index]? := by
  induction names generalizing index elements with
  | nil => cases hname
  | cons first names ih =>
      obtain ⟨hfirst, hnames⟩ := List.nodup_cons.1 hnames
      cases elements with
      | nil => rfl
      | cons element elements =>
          rw [List.zip_cons_cons, lookup_cons]
          cases index with
          | zero =>
              obtain rfl := Option.some.inj hname
              exact if_pos rfl
          | succ index =>
              have hother : name ≠ first := by
                rintro rfl
                exact hfirst (List.mem_of_getElem? hname)
              rw [if_neg hother]
              exact ih hnames hname elements

/-- Every kind has one tag, and a tag stands for no other kind. -/
theorem EffectType.of_tag_eq_some {tag : Nat} {type : EffectType} :
    ofTag? tag = some type ↔ tag = type.tag := by
  constructor
  · intro h
    have hlt : tag < all.length := (List.getElem?_eq_some_iff.1 h).1
    match tag, hlt with
    | 0, _ | 1, _ | 2, _ | 3, _ | 4, _ | 5, _ | 6, _ =>
      obtain rfl := Option.some.inj h
      rfl
  · rintro rfl
    exact of_tag_tag type

namespace Effect

/-- The kind of an effect is written as the integer that is its tag. -/
theorem type_of_eq_some {json : Json} {type : EffectType} :
    typeOf? json = some type ↔ json = .integer type.tag := by
  constructor
  · intro h
    unfold typeOf? at h
    split at h
    · rw [EffectType.of_tag_eq_some.1 h]
      rfl
    · cases h
  · rintro rfl
    exact EffectType.of_tag_tag type

/-- Kinds are told apart by their numbers. -/
theorem number_inj {a b : EffectType} : Json.integer a.tag = .integer b.tag ↔ a = b := by
  rw [← type_of_eq_some, type_of_eq_some.2 rfl, Option.some_inj]

section

variable {members : List (String × Json)} {type : EffectType}

/-- What an object that names its kind has to be, to be an effect. -/
theorem is_effect_iff (h : Json.lookup? members "type" = some (.integer type.tag)) :
    (Json.object members).IsEffect ↔
      ∀ setting ∈ type.settings, Json.IfPresent members setting.1 setting.2.Form := by
  simp only [Json.IsEffect, h, Option.some_inj, number_inj, exists_eq_left']

/-- An object that names its kind describes an effect of that kind. -/
theorem described_eq (h : Json.lookup? members "type" = some (.integer type.tag)) :
    described (.object members) = settingsDescribed type members := by
  have hnamed : Json.named? EffectType.ofTag? (.integer type.tag) = some type :=
    EffectType.of_tag_tag type
  simp only [described, Json.members, Json.or_else_some h, hnamed, Option.getD_some]

end

end Effect

end SynthRack
