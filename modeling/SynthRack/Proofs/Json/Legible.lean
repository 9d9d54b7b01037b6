import Mathlib
import SynthRack.Proofs.Json.Path

/-!
# What can be read

`Legible height` collects the values that some text is read as, nested at most `height` deep, which
`legible_iff` says of documents. Putting a scalar at a path does not lead out of them
(`Legible.put`), so a document that was edited can be written down.
-/

namespace SynthRack

namespace Json

/-- Values that can be read, nested at most `height` deep. -/
inductive Legible : Nat → Json → Prop where
  | null {height : Nat} : Legible height .null
  | bool {height : Nat} (b : Bool) : Legible height (.bool b)
  | integer {height : Nat} {k : Int} (hlow : -2 ^ 63 ≤ k) (hhigh : k < 2 ^ 64) :
      Legible height (.integer k)
  | float {height : Nat} {x : Float} {n : Numeral} (hdigits : n.IsDigits)
      (hvalue : n.value? = some (.float x)) : Legible height (.float x)
  | string {height : Nat} (text : String) : Legible height (.string text)
  | array {height : Nat} {values : List Json} (h : ∀ value ∈ values, Legible height value) :
      Legible (height + 1) (.array values)
  | object {height : Nat} {members ordered : List (String × Json)}
      (h : ∀ member ∈ members, Legible height member.2)
      (hordered : ofMembers members = .object ordered) : Legible (height + 1) (.object ordered)

namespace Legible

/-- A value that nests within a bound nests within a larger one. -/
theorem mono {low high : Nat} {value : Json} (h : Legible low value) (hle : low ≤ high) :
    Legible high value := by
  induction h generalizing high with
  | null => exact .null
  | bool b => exact .bool b
  | integer hlow hhigh => exact .integer hlow hhigh
  | float hdigits hvalue => exact .float hdigits hvalue
  | string text => exact .string text
  | array _ ih =>
      obtain ⟨high, rfl⟩ : ∃ lower, high = lower + 1 := ⟨high - 1, by omega⟩
      exact .array fun value hvalue => ih value hvalue (by omega)
  | object _ hordered ih =>
      obtain ⟨high, rfl⟩ : ∃ lower, high = lower + 1 := ⟨high - 1, by omega⟩
      exact .object (fun member hmember => ih member hmember (by omega)) hordered

/-! ## A text for every value -/

/-- What holds of some text for every value holds of some list of texts. -/
theorem exists_texts {α : Type} {spells : List Char → α → Prop} {values : List α}
    (h : ∀ value ∈ values, ∃ text, spells text value) :
    ∃ texts, List.Forall₂ spells texts values := by
  induction values with
  | nil => exact ⟨[], .nil⟩
  | cons value values ih =>
      obtain ⟨text, htext⟩ := h value (List.mem_cons_self ..)
      obtain ⟨texts, htexts⟩ := ih fun other hother => h other (List.mem_cons_of_mem _ hother)
      exact ⟨text :: texts, .cons htext htexts⟩

/-- Every such value has a text. -/
theorem spelled {height : Nat} {value : Json} (h : Legible height value) :
    ∃ text, Spells height text value := by
  induction h with
  | null => exact ⟨_, reads_null.at_height _⟩
  | bool b => exact ⟨_, (reads_bool b).at_height _⟩
  | integer hlow hhigh => exact ⟨_, (reads_integer hlow hhigh).at_height _⟩
  | float hdigits hvalue => exact ⟨_, (spells_numeral hdigits hvalue).mono (Nat.zero_le _)⟩
  | string text => exact ⟨_, (reads_string text).at_height _⟩
  | array _ ih =>
      obtain ⟨texts, htexts⟩ := exists_texts ih
      exact ⟨_, spells_array htexts⟩
  | @object height members _ _ hordered ih =>
      have hmembers : ∀ member ∈ members, ∃ text, SpellsMember height text member := by
        intro member hmember
        obtain ⟨text, htext⟩ := ih member hmember
        exact ⟨_, text, htext, rfl⟩
      obtain ⟨texts, htexts⟩ := exists_texts hmembers
      exact ⟨_, hordered ▸ spells_object htexts⟩

end Legible

/-! ## What the readers return -/

/-- A stretch of digits has digits only. -/
theorem digits_of_span {text digits rest : List Char} (h : spanDigits text = (digits, rest)) :
    ∀ c ∈ digits, c.isDigit = true := by
  rw [spanDigits, List.span_eq_takeWhile_dropWhile] at h
  obtain ⟨rfl, -⟩ := Prod.mk.inj h
  intro c hc
  exact List.mem_takeWhile_imp hc

/-- The fraction that a scan finds has digits only. -/
theorem digits_of_fraction {text rest : List Char} {fraction : Option (List Char)}
    (h : spanFraction text = (fraction, rest)) :
    ∀ digits, fraction = some digits → ∀ c ∈ digits, c.isDigit = true := by
  rintro digits rfl
  unfold spanFraction at h
  split at h
  · exact digits_of_span (Prod.ext (Option.some.inj (congrArg Prod.fst h)) rfl)
  · cases h

/-- The exponent that a scan finds has digits only. -/
theorem digits_of_exponent {text rest : List Char} {exponent : Option (Bool × List Char)}
    (h : spanExponent text = (exponent, rest)) :
    ∀ negative digits, exponent = some (negative, digits) → ∀ c ∈ digits, c.isDigit = true := by
  rintro negative digits rfl
  unfold spanExponent at h
  split at h
  · cases h
  · split at h
    · have hdigits := congrArg Prod.snd (Option.some.inj (congrArg Prod.fst h))
      exact digits_of_span (Prod.ext hdigits rfl)
    · cases h

/-- A number is read as an integer of 64 bits, with or without a sign, or as a float. -/
theorem legible_of_value {n : Numeral} (hdigits : n.IsDigits) {value : Json}
    (h : n.value? = some value) : Legible 0 value := by
  cases hint : n.toInt? with
  | none =>
      have hvalue := h
      rw [Numeral.value?, hint] at h
      split at h
      · obtain ⟨x, -, rfl⟩ := Option.map_eq_some_iff.1 h
        exact .float hdigits hvalue
      · cases h
  | some k =>
      rw [Numeral.value?, hint] at h
      split at h
      · obtain rfl := Option.some.inj h
        have hlimit : significandLimit = 2 ^ 64 := rfl
        have hhalf : UInt64.size / 2 = 2 ^ 63 := rfl
        simp only [Numeral.toInt?, hlimit, hhalf] at hint
        split at hint
        · split at hint
          · split at hint
            · obtain rfl := Option.some.inj hint
              exact .integer (by omega) (by omega)
            · cases hint
          · split at hint
            · obtain rfl := Option.some.inj hint
              exact .integer (by omega) (by omega)
            · cases hint
        · cases hint
      · cases h

/-- Whatever a number is read as can be read. -/
theorem legible_of_number {text rest : List Char} {value : Json}
    (h : readNumber? text = some (value, rest)) : Legible 0 value := by
  unfold readNumber? at h
  split at h
  rename_i negative text hsign
  cases hwhole : spanDigits text with
  | mk whole afterWhole =>
  cases hfraction : spanFraction afterWhole with
  | mk fraction afterFraction =>
  cases hexponent : spanExponent afterFraction with
  | mk exponent afterExponent =>
  simp only [hwhole, hfraction, hexponent] at h
  obtain ⟨read, hread, hvalue⟩ := Option.map_eq_some_iff.1 h
  obtain ⟨rfl, -⟩ := Prod.mk.inj hvalue
  refine legible_of_value ⟨?_, digits_of_span hwhole, digits_of_fraction hfraction,
    digits_of_exponent hexponent⟩ hread
  rintro rfl
  cases hread

/-- Whatever a scalar is read as can be read. -/
theorem legible_of_scalar {limit : Nat} {text rest : List Char} {value : Json}
    (h : readScalar? limit text = some (value, rest)) : Legible 0 value := by
  unfold readScalar? at h
  split at h
  · obtain ⟨rfl, -⟩ := Prod.mk.inj (Option.some.inj h)
    exact .null
  · obtain ⟨rfl, -⟩ := Prod.mk.inj (Option.some.inj h)
    exact .bool true
  · obtain ⟨rfl, -⟩ := Prod.mk.inj (Option.some.inj h)
    exact .bool false
  · obtain ⟨read, -, hvalue⟩ := Option.map_eq_some_iff.1 h
    obtain ⟨rfl, -⟩ := Prod.mk.inj hvalue
    exact .string _
  · exact legible_of_number h

section Items

variable {α : Type} {item : List Char → Option (α × List Char)} {close : Char}

/-- Every item that is read comes from the reader of items. -/
theorem mem_of_read_items {steps : Nat} {done values : List α} {text rest : List Char}
    (h : readItems? item close steps done text = some (values, rest)) {value : α}
    (hvalue : value ∈ values) : value ∈ done ∨ ∃ start after, item start = some (value, after) := by
  induction steps generalizing done text with
  | zero => cases h
  | succ steps ih =>
      unfold readItems? at h
      split at h
      · cases h
      · rename_i first after hfirst
        have hmem (h : value ∈ first :: done) :
            value ∈ done ∨ ∃ start after, item start = some (value, after) := by
          rcases List.mem_cons.1 h with rfl | h
          · exact Or.inr ⟨text, after, hfirst⟩
          · exact Or.inl h
        split at h
        · rcases ih h with hdone | hread
          · exact hmem hdone
          · exact Or.inr hread
        · split at h
          · obtain ⟨rfl, -⟩ := Prod.mk.inj (Option.some.inj h)
            exact hmem (List.mem_reverse.1 hvalue)
          · cases h
        · cases h

/-- Every item between brackets was read somewhere in the text. -/
theorem mem_of_read_body {limit : Nat} {values : List α} {text rest : List Char}
    (h : readBody? item close limit text = some (values, rest)) {value : α}
    (hvalue : value ∈ values) : ∃ start after, item start = some (value, after) := by
  unfold readBody? at h
  split at h
  · cases h
  · split at h
    · obtain ⟨rfl, -⟩ := Prod.mk.inj (Option.some.inj h)
      cases hvalue
    · rcases mem_of_read_items h hvalue with hdone | hread
      · cases hdone
      · exact hread

/-- The value of a member was read somewhere in the text. -/
theorem value_of_read_member {value : List Char → Option (Json × List Char)} {limit : Nat}
    {member : String × Json} {text rest : List Char}
    (h : readMember? value limit text = some (member, rest)) :
    ∃ start after, value start = some (member.2, after) := by
  unfold readMember? at h
  split at h
  · simp only [Option.bind_eq_bind, Option.bind_eq_some_iff] at h
    obtain ⟨⟨name, afterName⟩, -, h⟩ := h
    split at h
    · simp only [Option.bind_eq_some_iff, Option.pure_def, Option.some.injEq, Prod.mk.injEq] at h
      obtain ⟨⟨read, after⟩, hread, rfl, rfl⟩ := h
      exact ⟨_, _, hread⟩
    · cases h
  · cases h

end Items

/-- Whatever is read is legible, with the budget for nesting that was given. -/
theorem legible_of_read {limit depth : Nat} {text rest : List Char} {value : Json}
    (h : readValue? limit depth text = some (value, rest)) : Legible depth value := by
  induction depth generalizing text rest value with
  | zero => exact legible_of_scalar h
  | succ depth ih =>
      unfold readValue? at h
      split at h
      · obtain ⟨⟨values, after⟩, hbody, hvalue⟩ := Option.map_eq_some_iff.1 h
        obtain ⟨rfl, -⟩ := Prod.mk.inj hvalue
        refine .array fun element helement => ?_
        obtain ⟨start, after, hread⟩ := mem_of_read_body hbody helement
        exact ih hread
      · obtain ⟨⟨members, after⟩, hbody, hvalue⟩ := Option.map_eq_some_iff.1 h
        obtain ⟨rfl, -⟩ := Prod.mk.inj hvalue
        refine .object (fun member hmember => ?_) rfl
        obtain ⟨start, after, hread⟩ := mem_of_read_body hbody hmember
        obtain ⟨start, after, hread⟩ := value_of_read_member hread
        exact ih hread
      · exact (legible_of_scalar h).mono (Nat.zero_le _)

/-- The values that documents are read as. -/
theorem legible_iff {value : Json} : Legible maxDepth value ↔ ∃ text, parse? text = some value := by
  constructor
  · intro h
    obtain ⟨text, htext⟩ := h.spelled
    exact ⟨_, htext.parse (Nat.le_refl _)⟩
  · rintro ⟨text, h⟩
    simp only [parse?, Option.bind_eq_bind, Option.bind_eq_some_iff] at h
    obtain ⟨⟨read, rest⟩, hread, h⟩ := h
    split at h
    · obtain rfl := Option.some.inj h
      exact legible_of_read hread
    · cases h

/-! ## Parts at paths -/

namespace Legible

/-- A member that is found is one of the members. -/
theorem of_lookup {height : Nat} {members : List (String × Json)}
    (h : ∀ member ∈ members, Legible height member.2) {name : String} {value : Json}
    (hvalue : lookup? members name = some value) : Legible height value := by
  obtain ⟨before, after, rfl, -⟩ := List.lookup_eq_some_iff.1 hvalue
  exact h (name, value) (by simp)

/-- A legible value stays legible with another scalar at a path. -/
theorem put {height : Nat} {value part : Json} (h : Legible height value) (hpart : Legible 0 part)
    (path : Path) : Legible height (value.put path part) := by
  fun_induction Json.put value path part generalizing height with
  | case1 _ => exact hpart.mono (Nat.zero_le _)
  | case2 ordered name path part ih =>
      cases h with
      | @object height members _ hmembers hordered =>
          have hfold := Json.object.inj hordered
          -- The last member that is written under a name is the one that counts.
          have hold : Legible height ((lookup? ordered name).getD .null) := by
            rw [← hfold, lookup_ordered]
            cases hvalue : lookup? members.reverse name with
            | none => exact .null
            | some value =>
                exact of_lookup (fun member hmember => hmembers member (List.mem_reverse.1 hmember))
                  hvalue
          have hput (value : Json) :
              ofMembers (members ++ [(name, value)]) = .object (insert name value ordered) := by
            rw [ofMembers, List.foldl_append, hfold]
            rfl
          refine .object (fun member hmember => ?_) (hput _)
          rcases List.mem_append.1 hmember with hmember | hmember
          · exact hmembers member hmember
          · obtain rfl := List.mem_singleton.1 hmember
            exact ih hold hpart
  | case3 elements position path part ih =>
      cases h with
      | array h =>
          refine .array fun value hvalue => ?_
          obtain ⟨index, hindex⟩ := List.mem_iff_getElem?.1 hvalue
          rw [List.getElem?_modify] at hindex
          split at hindex
          all_goals
            obtain ⟨old, hold, rfl⟩ := Option.map_eq_some_iff.1 hindex
          · exact ih old (h old (List.mem_of_getElem? hold)) hpart
          · exact h old (List.mem_of_getElem? hold)
  | case4 => exact h

end Legible

end Json

end SynthRack
