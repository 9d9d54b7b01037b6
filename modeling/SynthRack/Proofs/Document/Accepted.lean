import Mathlib
import SynthRack.Proofs.Document.Grammar

/-!
# Which documents are accepted

`Shape.Meets` ties a reader to a form and to what it reads there. It is proved for the readers of
scalars, and for any other reader from those of its parts: a list from its elements, a record from
its members. `Rack.accepts_exactly_racks` is the result for whole documents.
-/

namespace SynthRack

open Json (orElse)

/-! ## Readers that meet a form -/

/-- A step succeeds with a result if the first action does and what comes next does. -/
theorem bind_eq_ok {ε α β : Type} {first : Except ε α} {next : α → Except ε β} {b : β} :
    first >>= next = .ok b ↔ ∃ a, first = .ok a ∧ next a = .ok b := by
  cases first with
  | error e => exact ⟨nofun, nofun⟩
  | ok a => exact ⟨fun h => ⟨a, rfl, h⟩, fun ⟨_, ha, h⟩ => Except.ok.inj ha ▸ h⟩

/-- A step that only returns succeeds with what it returns. -/
theorem pure_eq_ok {ε α : Type} {a b : α} : (pure a : Except ε α) = .ok b ↔ a = b :=
  ⟨Except.ok.inj, congrArg _⟩

namespace Shape

/-- A reader accepts exactly the values of a form, and reads them so. -/
def Meets {ε α : Type} (shape : Json → Except ε α) (form : Json → Prop) (read : Json → α) : Prop :=
  ∀ json value, shape json = .ok value ↔ form json ∧ read json = value

/-- A reader of scalars accepts exactly the values of a form, on which `read?` is defined. -/
structure Scalar {α : Type} (shape : Shape α) (form : Json → Prop) (read? : Json → Option α) :
    Prop where
  reads : ∀ json value, shape json = .ok value ↔ form json ∧ read? json = some value
  defined : ∀ json, form json → (read? json).isSome
  null : ¬ form .null ∧ read? .null = none

variable {α : Type} {shape : Shape α} {form : Json → Prop} {read : Json → α}
  {read? : Json → Option α}

/-- Where a default is at hand, a reader of scalars meets its form. -/
theorem Scalar.meets [Inhabited α] (h : Scalar shape form read?) :
    Meets shape form fun json => (read? json).getD default := by
  intro json value
  rw [h.reads]
  refine and_congr_right fun hform => ?_
  obtain ⟨found, hfound⟩ := Option.isSome_iff_exists.1 (h.defined json hform)
  show read? json = some value ↔ (read? json).getD default = value
  rw [hfound, Option.getD_some, Option.some_inj]

/-- A reader of scalars that also takes null meets the form that also allows null. -/
theorem Scalar.nullable (h : Scalar shape form read?) :
    Meets (Shape.nullable shape) (Json.IsNullOr form) read? := by
  intro json value
  by_cases hnull : json = .null
  · subst hnull
    have haccepted : Json.IsNullOr form .null := .inl rfl
    rw [h.null.2]
    show Except.ok none = Except.ok value ↔ _
    simp [haccepted]
  · have hshape : Shape.nullable shape json = (shape json).map some := by
      cases json <;> first | rfl | exact absurd rfl hnull
    have hform : Json.IsNullOr form json ↔ form json := or_iff_right hnull
    rw [hshape, hform]
    cases hread : shape json with
    | error e =>
        have hrejected : ¬ form json := by
          intro haccepted
          obtain ⟨found, hfound⟩ := Option.isSome_iff_exists.1 (h.defined json haccepted)
          have hok := (h.reads json found).2 ⟨haccepted, hfound⟩
          rw [hread] at hok
          cases hok
        exact ⟨nofun, fun h => absurd h.1 hrejected⟩
    | ok found =>
        obtain ⟨haccepted, hfound⟩ := (h.reads json found).1 hread
        rw [hfound]
        show Except.ok (some found) = Except.ok value ↔ _
        simp [haccepted]

/-- The reader of truth values accepts these and nothing else. -/
theorem bool_meets : Meets bool Json.IsBool Json.truth := by
  intro json value
  cases json <;> simp [bool, Json.IsBool, Json.truth]

/-- The reader of texts accepts these and nothing else. -/
theorem string_meets : Meets string Json.IsText Json.text := by
  intro json value
  cases json <;> simp [string, Json.IsText, Json.text]

/-- Numbers are read whether they are written as integers or not, and nothing else is. -/
theorem number_scalar : Scalar number Json.IsNumber Json.number? where
  reads json value := by cases json <;> simp [number, Json.IsNumber, Json.number?]
  defined json h := by cases json <;> first | exact h.elim | rfl
  null := ⟨id, rfl⟩

/-- An integer is read if it lies between the bounds; a number with a fraction is none. -/
theorem integer_scalar (low high : Int) (expected : String) :
    Scalar (integer low high expected) (Json.IsInteger low high) Json.integer? where
  reads json value := by
    cases json with
    | integer found =>
        by_cases h : low ≤ found ∧ found ≤ high
        · simp [integer, Json.IsInteger, Json.integer?, h]
        · simp [integer, Json.IsInteger, Json.integer?, h]
    | _ => simp [integer, Json.IsInteger]
  defined json h := by cases json <;> first | exact h.elim | rfl
  null := ⟨id, rfl⟩

/-- An integer from zero on is read as a natural number. -/
theorem natural_eq_ok {high : Int} {expected : String} {json : Json} {value : Nat} :
    (integer 0 high expected json).map Int.toNat = .ok value ↔
      json = .integer value ∧ (value : Int) ≤ high := by
  cases json with
  | integer found =>
      by_cases h : 0 ≤ found ∧ found ≤ high
      · have hread : integer 0 high expected (.integer found) = .ok found := if_pos h
        rw [hread]
        show Except.ok found.toNat = Except.ok value ↔ _
        simp only [Except.ok.injEq, Json.integer.injEq]
        omega
      · have hread : integer 0 high expected (.integer found) =
            .error (.outOfRange found expected) := if_neg h
        rw [hread]
        show Except.error _ = Except.ok value ↔ _
        simp only [reduceCtorEq, Json.integer.injEq, false_iff]
        omega
  | _ => simp [integer, Except.map]

/-- A name is found for an integer that is the tag of a name. -/
theorem named_eq_some {ofTag? : Nat → Option α} {json : Json} {member : α} :
    json.named? ofTag? = some member ↔
      ∃ tag : Nat, json = .integer tag ∧ ofTag? tag = some member := by
  constructor
  · intro h
    obtain ⟨tag, hinteger, hmember⟩ := Option.bind_eq_some_iff.1 h
    obtain ⟨found, hfound, htag⟩ := Option.bind_eq_some_iff.1 hinteger
    obtain rfl : json = .integer found := by
      cases json <;> cases hfound
      rfl
    obtain rfl := Int.mem_toNat?.1 htag
    exact ⟨tag, rfl, hmember⟩
  · rintro ⟨tag, rfl, hmember⟩
    exact hmember

/-- The form of bounded integers, with the integer brought out. -/
theorem is_integer_iff {low high : Int} {json : Json} :
    Json.IsInteger low high json ↔ ∃ value, json = .integer value ∧ low ≤ value ∧ value ≤ high := by
  cases json <;> simp [Json.IsInteger]

/-- A natural number is read if it has 32 bits. -/
theorem word_scalar : Scalar word (Json.IsInteger 0 (2 ^ 32 - 1)) (Json.named? some) where
  reads json value := by
    rw [word, natural_eq_ok, named_eq_some, is_integer_iff]
    have hsize : ((UInt32.size : Nat) : Int) = 2 ^ 32 := by decide
    rw [hsize]
    constructor
    · rintro ⟨rfl, hhigh⟩
      exact ⟨⟨value, rfl, Int.natCast_nonneg value, hhigh⟩, value, rfl, rfl⟩
    · rintro ⟨⟨found, rfl, -, hhigh⟩, tag, htag, hvalue⟩
      obtain rfl := Option.some.inj hvalue
      obtain rfl := Json.integer.inj htag
      exact ⟨rfl, hhigh⟩
  defined json h := by
    obtain ⟨value, rfl, hlow, -⟩ := is_integer_iff.1 h
    obtain ⟨tag, rfl⟩ := Int.eq_ofNat_of_zero_le hlow
    rfl
  null := ⟨id, rfl⟩

/-- A signed integer is read if it has 64 bits. -/
theorem signed_long_scalar :
    Scalar signedLong (Json.IsInteger (-2 ^ 63) (2 ^ 63 - 1)) Json.integer? := by
  have hsize : ((UInt64.size : Nat) : Int) / 2 = 2 ^ 63 := by decide
  have hscalar := integer_scalar (-(UInt64.size / 2)) (UInt64.size / 2 - 1) "i64"
  rw [hsize] at hscalar
  exact hscalar

/-- A tag is read if it is one of the tags in use, which follow one another within a byte. -/
theorem tagged_scalar {ofTag? : Nat → Option α} (what : String) (low high : Nat)
    (hhigh : high < UInt8.size) (htag : ∀ tag, (ofTag? tag).isSome ↔ low ≤ tag ∧ tag ≤ high) :
    Scalar (tagged what ofTag?) (Json.IsInteger low high) (Json.named? ofTag?) where
  reads json value := by
    rw [tagged, bind_eq_ok, named_eq_some, is_integer_iff]
    constructor
    · rintro ⟨tag, hbyte, h⟩
      obtain ⟨rfl, -⟩ := natural_eq_ok.1 hbyte
      cases hmember : ofTag? tag with
      | none => simp [hmember] at h
      | some member =>
          simp only [hmember, Except.ok.injEq] at h
          have hbounds := (htag tag).1 (by rw [hmember]; rfl)
          exact ⟨⟨tag, rfl, by omega⟩, tag, rfl, h ▸ hmember⟩
    · rintro ⟨-, tag, rfl, hmember⟩
      have hbounds := (htag tag).1 (by rw [hmember]; rfl)
      exact ⟨tag, natural_eq_ok.2 ⟨rfl, by omega⟩, by simp only [hmember]⟩
  defined json h := by
    obtain ⟨value, rfl, hlow, hvalue⟩ := is_integer_iff.1 h
    obtain ⟨tag, rfl⟩ := Int.eq_ofNat_of_zero_le ((Int.natCast_nonneg low).trans hlow)
    exact (htag tag).2 ⟨by omega, by omega⟩
  null := ⟨id, rfl⟩

/-! ## Lists and records -/

/-- A list is read element by element, all of which must have the form. -/
theorem map_m_eq_ok {ε : Type} {shape : Json → Except ε α} (h : Meets shape form read)
    {elements : List Json} {values : List α} : elements.mapM shape = .ok values ↔
      (∀ element ∈ elements, form element) ∧ elements.map read = values := by
  induction elements generalizing values with
  | nil => simp [pure, Except.pure]
  | cons element elements ih =>
      simp only [List.mapM_cons, bind_eq_ok, h element, ih, List.forall_mem_cons, List.map_cons]
      constructor
      · rintro ⟨_, ⟨hfirst, rfl⟩, _, ⟨hrest, rfl⟩, hvalues⟩
        exact ⟨⟨hfirst, hrest⟩, Except.ok.inj hvalues⟩
      · rintro ⟨⟨hfirst, hrest⟩, rfl⟩
        exact ⟨_, ⟨hfirst, rfl⟩, _, ⟨hrest, rfl⟩, rfl⟩

/-- A reader of lists meets the form of lists whose elements have the form of the elements. -/
theorem list_meets (h : Meets shape form read) :
    Meets (list shape) (Json.IsListOf form) (·.elements.map read) := by
  intro json values
  cases json with
  | array elements => exact map_m_eq_ok h
  | _ => simp [list, Json.IsListOf]

/-- A member is read by its form if it is there, and is the default if it is not. -/
theorem member_eq_ok (h : Meets shape form read) {members : List (String × Json)} {name : String}
    {default value : α} : member members name shape default = .ok value ↔
      Json.IfPresent members name form ∧ orElse members name read default = value := by
  unfold member Json.IfPresent orElse
  cases Json.lookup? members name with
  | none => simp [optional]
  | some found => simp [optional, h found value]

/-- A member is read and the rest goes on from it. -/
theorem member_bind_eq_ok {β : Type} (h : Meets shape form read) {members : List (String × Json)}
    {name : String} {default : α} {next : α → Except Mismatch β} {b : β} :
    member members name shape default >>= next = .ok b ↔
      Json.IfPresent members name form ∧ next (orElse members name read default) = .ok b := by
  simp only [bind_eq_ok, member_eq_ok h, and_assoc, exists_and_left, exists_eq_left']

/-- An element of an array is read as the member whose name has its position. -/
theorem element_eq_member {names : List String} {name : String} (index : Nat)
    (hnames : names.Nodup) (hname : names[index]? = some name) (elements : List Json)
    (default : α) :
    element elements index shape default = member (names.zip elements) name shape default := by
  rw [member, Json.lookup_zip hnames hname]
  rfl

/-- A record is read alike from an object and from an array, by the members they stand for. -/
theorem record_meets {names : List String} {fits : List (String × Json) → Prop}
    {read : List (String × Json) → α}
    (hobject : ∀ members value, shape (.object members) = .ok value ↔
      fits members ∧ read members = value)
    (harray : ∀ elements value, shape (.array elements) = .ok value ↔
      elements.length ≤ names.length ∧ fits (names.zip elements) ∧
        read (names.zip elements) = value)
    (hother : ∀ json value, shape json = .ok value →
      (∃ members, json = .object members) ∨ ∃ elements, json = .array elements) :
    Meets shape (Json.IsRecord names fits) fun json => read (json.fields names) := by
  intro json value
  cases json with
  | object members => simp [hobject, Json.IsRecord, Json.record?, Json.fields]
  | array elements =>
      by_cases hlength : elements.length ≤ names.length
      · simp [harray, Json.IsRecord, Json.record?, Json.fields, hlength]
      · simp [harray, Json.IsRecord, Json.record?, hlength]
  | _ =>
      constructor
      · intro h
        obtain ⟨_, h⟩ | ⟨_, h⟩ := hother _ value h <;> cases h
      · rintro ⟨⟨_, h, -⟩, -⟩
        cases h

/-- The rest goes on if an array has no more elements than it may. -/
theorem at_most_bind_eq_ok {β : Type} {most : Nat} {elements : List Json}
    {next : Unit → Except Mismatch β} {b : β} : atMost most elements >>= next = .ok b ↔
      elements.length ≤ most ∧ next () = .ok b := by
  unfold atMost
  by_cases h : elements.length ≤ most
  · simp [h, bind, Except.bind]
  · simp [h, bind, Except.bind]

end Shape

/-- The numbers of the inputs. -/
theorem Builtin.named_iff (tag : Nat) : (ofTag? tag).isSome ↔ 0 ≤ tag ∧ tag ≤ 3 := by
  simp [ofTag?, all]
  omega

/-- The reader of parameters accepts the parameters of the grammar, as they are described. -/
theorem Binding.shape_meets : Shape.Meets shape Json.IsParameter described := by
  have hid := Shape.word_scalar.nullable
  have hinput : Shape.Meets shape.builtin.nullable _ _ :=
    (Shape.tagged_scalar "builtin register" 0 3 (by decide) Builtin.named_iff).nullable
  have hvalue := Shape.number_scalar.nullable
  have hnames : ["value", "regIdx", "effectId"].Nodup := by decide
  refine Shape.record_meets ?_ ?_ ?_
  · intro members b
    show _ ↔ _ ∧ ofMembers _ _ _ = b
    simp only [shape, Shape.member_bind_eq_ok hid, Shape.member_bind_eq_ok hinput,
      Shape.member_bind_eq_ok hvalue, pure_eq_ok]
    tauto
  · intro elements b
    show _ ↔ _ ∧ _ ∧ ofMembers _ _ _ = b
    simp only [shape, Shape.element_eq_member 0 hnames rfl, Shape.element_eq_member 1 hnames rfl,
      Shape.element_eq_member 2 hnames rfl, Shape.member_bind_eq_ok hid,
      Shape.member_bind_eq_ok hinput, Shape.member_bind_eq_ok hvalue, Shape.at_most_bind_eq_ok,
      pure_eq_ok]
    tauto
  · intro json b h
    cases json <;> simp_all [shape]

/-- The ID of a node comes before an input, and a null before neither. -/
example : Binding.described (.array [.integer 1, .null, .integer 3]) = .node 3 := rfl

/-- The reader of terms accepts the terms of the grammar, as they are described. -/
theorem Maths.term_shape_meets : Shape.Meets termShape Json.IsTerm termDescribed := by
  have hcoefficients := Shape.list_meets Binding.shape_meets
  refine Shape.record_meets ?_ ?_ ?_
  · intro members term
    exact Shape.member_eq_ok hcoefficients
  · intro elements term
    simp only [termShape, Shape.element_eq_member 0 (List.nodup_singleton "coefficients") rfl,
      Shape.member_bind_eq_ok hcoefficients, Shape.at_most_bind_eq_ok, pure_eq_ok]
    show _ ↔ _ ∧ _ ∧ orElse _ _ _ _ = term
    tauto
  · intro json term h
    cases json <;> simp_all [termShape]

/-- The numbers of the comparisons. -/
theorem Comparison.named_iff (tag : Nat) : (ofTag? tag).isSome ↔ 1 ≤ tag ∧ tag ≤ 2 := by
  match tag with
  | 0 | 1 | 2 => decide
  | n + 3 => simp [ofTag?]

/-- The reader of comparisons accepts their tags. -/
theorem Condition.operator_meets :
    Shape.Meets operatorShape (Json.IsInteger 1 2) Comparison.described :=
  (Shape.tagged_scalar "switch operator" 1 2 (by decide) Comparison.named_iff).meets

/-- The reader of conditions accepts the conditions of the grammar, as they are described. -/
theorem Condition.shape_meets : Shape.Meets shape Json.IsCondition described := by
  have hparam := Binding.shape_meets
  have hnames : ["a", "operator", "b", "then"].Nodup := by decide
  refine Shape.record_meets ?_ ?_ ?_
  · intro members c
    show _ ↔ _ ∧ Condition.mk _ _ _ _ = c
    simp only [shape, Shape.member_bind_eq_ok hparam, Shape.member_bind_eq_ok operator_meets,
      pure_eq_ok]
    tauto
  · intro elements c
    show _ ↔ _ ∧ _ ∧ Condition.mk _ _ _ _ = c
    simp only [shape, Shape.element_eq_member 0 hnames rfl, Shape.element_eq_member 1 hnames rfl,
      Shape.element_eq_member 2 hnames rfl, Shape.element_eq_member 3 hnames rfl,
      Shape.member_bind_eq_ok hparam, Shape.member_bind_eq_ok operator_meets,
      Shape.at_most_bind_eq_ok, pure_eq_ok]
    tauto
  · intro json c h
    cases json <;> simp_all [shape]

/-! ## Effects, nodes and racks -/

/-- The numbers of the waveforms. -/
theorem Waveform.named_iff (tag : Nat) : (ofTag? tag).isSome ↔ 0 ≤ tag ∧ tag ≤ 4 := by
  match tag with
  | 0 | 1 | 2 | 3 | 4 => decide
  | n + 5 => simp [ofTag?]

/-- The reader of waveforms accepts their tags. -/
theorem Waveform.shape_meets : Shape.Meets shape (Json.IsInteger 0 4) described :=
  (Shape.tagged_scalar "waveform" 0 4 (by decide) named_iff).meets

namespace Effect

/-- The settings of a kind are read if those that are there have their forms. -/
theorem settings_eq_ok {type : EffectType} {members : List (String × Json)} {e : Effect Binding} :
    settings type members = .ok e ↔
      (∀ setting ∈ type.settings, Json.IfPresent members setting.1 setting.2.Form) ∧
        settingsDescribed type members = e := by
  have hparam := Binding.shape_meets
  have hterms := Shape.list_meets Maths.term_shape_meets
  have hconditions := Shape.list_meets Condition.shape_meets
  -- The reader goes through the settings in the order of their names, the table does not.
  cases type <;>
    simp only [settings, new, Shape.member_bind_eq_ok hparam, Shape.member_bind_eq_ok hterms,
      Shape.member_bind_eq_ok hconditions, Shape.member_bind_eq_ok Waveform.shape_meets,
      pure_eq_ok, EffectType.settings, List.forall_mem_cons, Setting.Form, settingsDescribed] <;>
    tauto

end Effect

/-- A mismatch that is passed on as an error of the rack leaves successes as they are. -/
theorem lift_eq_ok {α : Type} {result : Except Mismatch α} {value : α} :
    liftMismatch result = .ok value ↔ result = .ok value := by
  cases result <;> simp [liftMismatch]

namespace Effect

/-- The reader of effects accepts the effects of the grammar, as they are described. -/
theorem of_json_meets : Shape.Meets ofJson Json.IsEffect described := by
  intro json e
  cases json with
  | object members =>
      cases hlookup : Json.lookup? members "type" with
      | none => simp [ofJson, Json.IsEffect, hlookup]
      | some tag =>
          cases htype : typeOf? tag with
          | none =>
              have hunknown (type : EffectType) : tag ≠ .integer type.tag := by
                intro htag
                rw [type_of_eq_some.2 htag] at htype
                cases htype
              simp [ofJson, Json.IsEffect, hlookup, htype, hunknown]
          | some type =>
              obtain rfl := type_of_eq_some.1 htype
              rw [is_effect_iff hlookup, described_eq hlookup, ← settings_eq_ok, ← lift_eq_ok]
              simp only [ofJson, hlookup, htype]
  | _ => simp [ofJson, Json.IsEffect]

end Effect

namespace Node

/-- The reader of nodes accepts the nodes of the grammar whose IDs fit, as they are described. -/
theorem of_json_meets :
    Shape.Meets ofJson (fun json => json.IsNode ∧ json.IdFits) described := by
  have hid := Shape.signed_long_scalar.nullable
  intro json node
  cases json with
  | object members =>
      cases hbody : Json.lookup? members "value" with
      | none => simp [ofJson, Json.IsNode, hbody]
      | some body =>
          simp only [ofJson, hbody, bind_eq_ok, Effect.of_json_meets body, lift_eq_ok,
            Shape.member_eq_ok hid, Shape.member_eq_ok Shape.bool_meets, pure_eq_ok,
            Json.IsNode, Json.IdFits, described, ofFields, Json.members, Json.or_else_some hbody,
            Option.some.injEq, and_assoc, exists_and_left, exists_eq_left']
          tauto
  | _ => simp [ofJson, Json.IsNode]

end Node

namespace Rack

/-- The reader of racks accepts the racks of the grammar whose IDs fit, as they are described. -/
theorem of_json_meets :
    Shape.Meets ofJson (fun json => json.IsRack ∧ json.IdsFit) described := by
  have hnode := Node.of_json_meets
  intro json rack
  cases json with
  | object members =>
      cases heffects : Json.lookup? members "effects" with
      | none => simp [ofJson, bind_eq_ok, Json.IsRack, heffects]
      | some effects =>
          cases effects with
          | array nodes =>
              simp only [ofJson, heffects, bind_eq_ok, lift_eq_ok,
                Shape.member_eq_ok Shape.string_meets, Shape.map_m_eq_ok hnode, pure_eq_ok,
                Json.IsRack, Json.IdsFit, described, ofFields, Json.members,
                Json.or_else_some heffects, Json.elements, forall_and, Option.some.injEq,
                Json.array.injEq, forall_eq', exists_eq_left', and_assoc, exists_and_left]
          | _ => simp [ofJson, bind_eq_ok, Json.IsRack, heffects]
  | _ => simp [ofJson, Json.IsRack]

/-- A document is accepted if and only if it is a rack and the IDs of its nodes fit 64 bits. It is
then read as the rack it describes, and so is a text that parses as this document. -/
theorem accepts_exactly_racks (document : Json) :
    ((∃ rack, ofJson document = .ok rack) ↔ document.IsRack ∧ document.IdsFit) ∧
      (∀ rack, ofJson document = .ok rack → rack = described document) ∧
      ∀ text, Json.parse? text = some document → decode text = ofJson document := by
  refine ⟨?_, ?_, ?_⟩
  · simp only [of_json_meets document, exists_and_left, exists_eq', and_true]
  · intro rack h
    exact ((of_json_meets document rack).1 h).2.symm
  · intro text hparse
    rw [decode, hparse]

end Rack

end SynthRack
