import Mathlib
import SynthRack.Proofs.Json.Scan
import SynthRack.Proofs.Json.Text

/-!
# Reading back what is written

`Spells height text value` says that a text is read as a value, whatever text follows, with any
budget for the depth of nesting from `height` up; `ReadsAs height written read` says it of the text
of a value. `Readable height` collects the values that are read again, constructor by constructor,
and `readBack` is what they are read as: the same value, with the members of every object in the
order of their names and every number as its text reads. `Readable.reads` joins the two, and
`parse_print` turns it into a statement on documents. `lookup_back` finds a member in an object that
was read.
-/

namespace SynthRack

namespace Json

/-! ## Where a value starts and ends -/

/-- What follows a value in a written text: nothing, a comma or a closing character. -/
def EndsValue (rest : List Char) : Prop :=
  ∀ c, rest.head? = some c → c = ',' ∨ c = ']' ∨ c = '\x7d'

/-- A written value or member is not empty and starts with none of what may follow a value. -/
def StartsValue (text : List Char) : Prop :=
  ∃ c rest, text = c :: rest ∧ isBlank c = false ∧ c ≠ ']' ∧ c ≠ '\x7d'

/-- What may follow a value does not go on with a number. -/
theorem EndsValue.number {rest : List Char} (h : EndsValue rest) : EndsNumber rest := by
  intro c hc
  rcases h c hc with rfl | rfl | rfl <;> decide

/-- A comma or a closing character ends a value, whatever comes behind it. -/
theorem ends_cons {c : Char} (h : c = ',' ∨ c = ']' ∨ c = '\x7d') (rest : List Char) :
    EndsValue (c :: rest) := by
  intro d hd
  obtain rfl := Option.some.inj hd
  exact h

/-- Nothing is skipped in front of a character that is not blank. -/
theorem skip_blanks_cons {c : Char} (h : isBlank c = false) (rest : List Char) :
    skipBlanks (c :: rest) = c :: rest := by
  simp [skipBlanks, h]

/-- Nothing is skipped in front of a written value. -/
theorem StartsValue.skip_blanks {text : List Char} (h : StartsValue text) (rest : List Char) :
    Json.skipBlanks (text ++ rest) = text ++ rest := by
  obtain ⟨c, tail, rfl, hblank, -, -⟩ := h
  exact skip_blanks_cons hblank _

/-- A written value is not empty. -/
theorem StartsValue.length_pos {text : List Char} (h : StartsValue text) : 0 < text.length := by
  obtain ⟨c, tail, rfl, -, -, -⟩ := h
  exact Nat.succ_pos _

/-! ## Items -/

/-- The reader of items reads a text as a value, whatever follows within the limit. -/
structure ItemReads {α : Type} (item : List Char → Option (α × List Char)) (limit : Nat)
    (text : List Char) (value : α) : Prop where
  starts : StartsValue text
  reads : ∀ rest, EndsValue rest → (text ++ rest).length ≤ limit →
    item (text ++ rest) = some (value, rest)

section Items

variable {α : Type} {item : List Char → Option (α × List Char)} {limit : Nat} {close : Char}

/-- The text of items after the first. -/
def separated (texts : List (List Char)) : List Char := texts.flatMap fun text => ',' :: text

/-- The text of items with commas between them. -/
def joined : List (List Char) → List Char
  | [] => []
  | text :: texts => text ++ separated texts

/-- The first of more items has a comma in front of it. -/
theorem separated_cons (text : List Char) (texts : List (List Char)) :
    separated (text :: texts) = ',' :: (text ++ separated texts) := rfl

/-- Every further item takes at least its comma. -/
theorem length_separated (texts : List (List Char)) :
    texts.length ≤ (separated texts).length := by
  induction texts with
  | nil => exact Nat.zero_le _
  | cons text texts ih =>
      rw [separated_cons]
      simp only [List.length_append, List.length_cons]
      omega

/-- What follows an item, more of them or the closing character, ends it. -/
theorem ends_separated (hclose : close = ']' ∨ close = '\x7d') (texts : List (List Char))
    (rest : List Char) : EndsValue (separated texts ++ close :: rest) := by
  cases texts with
  | nil => exact ends_cons (Or.inr hclose) rest
  | cons text texts => exact ends_cons (Or.inl rfl) _

/-- Items with commas between them are read one by one. -/
theorem read_items_separated (hclose : close = ']' ∨ close = '\x7d')
    {texts : List (List Char)} {values : List α}
    (hrest : List.Forall₂ (ItemReads item limit) texts values) {text : List Char} {value : α}
    (hfirst : ItemReads item limit text value) {steps : Nat} (hsteps : texts.length < steps)
    (done : List α) (rest : List Char)
    (hlength : (text ++ (separated texts ++ close :: rest)).length ≤ limit) :
    readItems? item close steps done (text ++ (separated texts ++ close :: rest)) =
      some (done.reverse ++ value :: values, rest) := by
  obtain ⟨steps, rfl⟩ : ∃ fewer, steps = fewer + 1 := ⟨steps - 1, by omega⟩
  have hitem := hfirst.reads _ (ends_separated hclose texts rest) hlength
  unfold readItems?
  simp only [hitem]
  -- After the first item stands the closing character, or a comma and the items that remain.
  induction hrest generalizing text value steps done with
  | nil =>
      have hblank : isBlank close = false := by
        rcases hclose with rfl | rfl <;> decide
      have hcomma : close ≠ ',' := by
        rcases hclose with rfl | rfl <;> decide
      have hlast : separated [] ++ close :: rest = close :: rest := rfl
      rw [hlast, skip_blanks_cons hblank]
      split
      case h_1 heq => exact absurd (List.cons.inj heq).1 hcomma
      case h_2 heq =>
        obtain ⟨rfl, rfl⟩ := List.cons.inj heq
        rw [if_pos rfl, List.reverse_cons]
      case h_3 heq => cases heq
  | @cons nextText nextValue texts values hnext _ ih =>
      obtain ⟨steps, rfl⟩ : ∃ fewer, steps = fewer + 1 :=
        ⟨steps - 1, by simp only [List.length_cons] at hsteps; omega⟩
      have hshorter : (nextText ++ (separated texts ++ close :: rest)).length ≤ limit := by
        rw [separated_cons] at hlength
        simp only [List.length_append, List.length_cons] at hlength ⊢
        omega
      have hitem := hnext.reads _ (ends_separated hclose texts rest) hshorter
      have hblank : isBlank ',' = false := by decide
      rw [separated_cons, List.cons_append, skip_blanks_cons hblank, List.append_assoc]
      show readItems? item close (steps + 1) (value :: done) (skipBlanks
        (nextText ++ (separated texts ++ close :: rest))) = _
      rw [hnext.starts.skip_blanks]
      unfold readItems?
      simp only [hitem]
      rw [ih hnext (value :: done) hshorter steps (by
          simp only [List.length_cons] at hsteps; omega) hitem,
        List.reverse_cons, List.append_assoc, List.singleton_append]

/-- What stands between an opening and a closing character is read as the list of its items. -/
theorem read_body_joined (hclose : close = ']' ∨ close = '\x7d') {texts : List (List Char)}
    {values : List α} (hitems : List.Forall₂ (ItemReads item limit) texts values)
    (rest : List Char) (hlength : (joined texts ++ close :: rest).length ≤ limit) :
    readBody? item close limit (joined texts ++ close :: rest) = some (values, rest) := by
  unfold readBody?
  cases hitems with
  | nil =>
      have hblank : isBlank close = false := by
        rcases hclose with rfl | rfl <;> decide
      have hempty : joined [] ++ close :: rest = close :: rest := rfl
      rw [hempty, skip_blanks_cons hblank]
      exact if_pos rfl
  | @cons text value texts values hfirst hrest =>
      have htext : joined (text :: texts) ++ close :: rest =
          text ++ (separated texts ++ close :: rest) := List.append_assoc ..
      rw [htext] at hlength ⊢
      have hsteps : texts.length < limit := by
        have hcount := length_separated texts
        have hpos := hfirst.starts.length_pos
        simp only [List.length_append, List.length_cons] at hlength
        omega
      rw [hfirst.starts.skip_blanks]
      have hread := read_items_separated hclose hrest hfirst hsteps [] rest hlength
      obtain ⟨c, tail, rfl, -, hbracket, hbrace⟩ := hfirst.starts
      -- A value never starts with a closing character, so the body is not empty.
      have hopen : c ≠ close := by
        rcases hclose with rfl | rfl
        · exact hbracket
        · exact hbrace
      show (if c = close then _ else _) = _
      rw [if_neg hopen]
      exact hread

end Items

/-! ## Values -/

/-- A text is read as a value, with any budget for nesting from `height` up. -/
def Spells (height : Nat) (text : List Char) (value : Json) : Prop :=
  ∀ depth, height ≤ depth → ∀ limit, ItemReads (readValue? limit depth) limit text value

/-- The text of one value is read as another, with any budget for nesting from `height` up. -/
def ReadsAs (height : Nat) (written read : Json) : Prop :=
  ∀ depth, height ≤ depth → ∀ limit, ItemReads (readValue? limit depth) limit written.chars read

/-- A text that is read with little nesting allowed is read with more. -/
theorem Spells.mono {low high : Nat} {text : List Char} {value : Json} (h : Spells low text value)
    (hle : low ≤ high) : Spells high text value :=
  fun depth hdepth => h depth (hle.trans hdepth)

/-- Scalars do not nest, so what is read without a budget is read with any. -/
theorem ReadsAs.at_height {written read : Json} (h : ReadsAs 0 written read) (height : Nat) :
    ReadsAs height written read := Spells.mono h (Nat.zero_le height)

/-- Only an opening character spends the budget for nesting. -/
theorem read_value_scalar {c : Char} {rest : List Char} (hbracket : c ≠ '[') (hbrace : c ≠ '\x7b')
    (limit depth : Nat) : readValue? limit depth (c :: rest) = readScalar? limit (c :: rest) := by
  cases depth with
  | zero => rfl
  | succ depth =>
      unfold readValue?
      split
      case h_1 heq => exact absurd (List.cons.inj heq).1 hbracket
      case h_2 heq => exact absurd (List.cons.inj heq).1 hbrace
      case h_3 => rfl

/-- The text of null is read as null. -/
theorem reads_null : ReadsAs 0 .null .null := by
  intro depth _ limit
  refine ⟨⟨'n', _, rfl, by decide, by decide, by decide⟩, ?_⟩
  intro rest _ _
  exact read_value_scalar (by decide) (by decide) limit depth

/-- The text of a truth value is read as it. -/
theorem reads_bool (b : Bool) : ReadsAs 0 (.bool b) (.bool b) := by
  intro depth _ limit
  cases b with
  | true =>
      refine ⟨⟨'t', _, rfl, by decide, by decide, by decide⟩, ?_⟩
      intro rest _ _
      exact read_value_scalar (by decide) (by decide) limit depth
  | false =>
      refine ⟨⟨'f', _, rfl, by decide, by decide, by decide⟩, ?_⟩
      intro rest _ _
      exact read_value_scalar (by decide) (by decide) limit depth

/-- A number is read as the value of its parts. -/
theorem spells_numeral {value : Json} {n : Numeral} (hdigits : n.IsDigits)
    (hvalue : n.value? = some value) : Spells 0 n.chars value := by
  intro depth _ limit
  obtain ⟨c, text, htext, hc⟩ := hdigits.head
  -- A digit or a sign starts none of the other values.
  have hother : ∀ d ∈ [' ', '\t', '\n', '\r', ']', '\x7d', '[', '\x7b', 'n', 't', 'f', '"'],
      c ≠ d := by
    rintro d hd rfl
    fin_cases hd <;> simp_all
  refine ⟨⟨c, text, htext, ?_, hother _ (by decide), hother _ (by decide)⟩, ?_⟩
  · unfold isBlank
    simp [hother]
  intro rest hrest _
  rw [htext, List.cons_append,
    read_value_scalar (hother _ (by decide)) (hother _ (by decide))]
  have hscalar : readScalar? limit (c :: (text ++ rest)) = readNumber? (c :: (text ++ rest)) := by
    unfold readScalar?
    split
    case h_1 heq => exact absurd (List.cons.inj heq).1 (hother _ (by decide))
    case h_2 heq => exact absurd (List.cons.inj heq).1 (hother _ (by decide))
    case h_3 heq => exact absurd (List.cons.inj heq).1 (hother _ (by decide))
    case h_4 heq => exact absurd (List.cons.inj heq).1 (hother _ (by decide))
    case h_5 => rfl
  rw [hscalar, ← List.cons_append, ← htext, read_number_chars hdigits hrest.number, hvalue,
    Option.map_some]

/-- A value that is written as a number is read as the value of its parts. -/
theorem reads_numeral {written read : Json} {n : Numeral} (hdigits : n.IsDigits)
    (hchars : written.chars = n.chars) (hvalue : n.value? = some read) :
    ReadsAs 0 written read := by
  intro depth hdepth limit
  rw [hchars]
  exact spells_numeral hdigits hvalue depth hdepth limit

/-- An integer is read back if it fits 64 bits, with or without a sign. -/
theorem reads_integer {k : Int} (hlow : -2 ^ 63 ≤ k) (hhigh : k < 2 ^ 64) :
    ReadsAs 0 (.integer k) (.integer k) := by
  refine reads_numeral (Numeral.is_digits_of_int k) ?_ (Numeral.value_of_int hlow hhigh)
  rw [Numeral.chars_of_int, chars]

/-- The text of a natural number that fits a significand is read as it. -/
theorem reads_natural {n : Nat} (hn : n < significandLimit) :
    ReadsAs 0 (.integer n) (.integer n) := by
  have hlimit : significandLimit = 2 ^ 64 := rfl
  exact reads_integer (by omega) (by omega)

/-- Escaping makes no text shorter. -/
theorem length_escaped (text : List Char) : text.length ≤ (text.flatMap escapedChar).length := by
  induction text with
  | nil => exact Nat.zero_le _
  | cons c text ih =>
      have hc : 0 < (escapedChar c).length := by
        unfold escapedChar
        split
        all_goals try exact Nat.succ_pos _
        split <;> exact Nat.succ_pos _
      simp only [List.flatMap_cons, List.length_append, List.length_cons]
      omega

/-- A written string is its escaped characters between quotes. -/
theorem to_list_print_string (text : String) :
    (printString text).toList = '"' :: (text.toList.flatMap escapedChar ++ ['"']) := by
  simp [printString]

/-- A written string is read back behind its opening quote. -/
theorem read_string_printed {text : String} {limit : Nat} {rest : List Char}
    (hlength : ((printString text).toList ++ rest).length ≤ limit) :
    readString? limit [] (text.toList.flatMap escapedChar ++ '"' :: rest) = some (text, rest) := by
  have hsteps : text.toList.length < limit := by
    have hescaped := length_escaped text.toList
    rw [to_list_print_string] at hlength
    simp only [List.length_append, List.length_cons, List.length_nil] at hlength
    omega
  rw [read_string_escaped text.toList rest [] hsteps]
  simp

/-- The text of a string is read as it, whatever its characters are. -/
theorem reads_string (text : String) : ReadsAs 0 (.string text) (.string text) := by
  intro depth _ limit
  have hchars : chars (.string text) = '"' :: (text.toList.flatMap escapedChar ++ ['"']) := by
    rw [chars, to_list_print_string]
  refine ⟨⟨'"', _, hchars, by decide, by decide, by decide⟩, ?_⟩
  intro rest _ hlength
  rw [chars] at hlength
  rw [hchars, List.cons_append, read_value_scalar (by decide) (by decide), List.append_assoc,
    List.singleton_append]
  show (readString? limit [] _).map _ = _
  rw [read_string_printed hlength, Option.map_some]

/-- A written array is its elements between brackets, with commas between them. -/
theorem chars_array (values : List Json) :
    chars (.array values) = '[' :: (joined (values.map chars) ++ [']']) := by
  cases values with
  | nil => simp [chars, joined]
  | cons value values =>
      simp only [chars, joined, chars_elements_eq, List.map_cons, separated, List.flatMap_map,
        List.append_assoc]

/-- A written object is its members between braces, with commas between them. -/
theorem chars_object (members : List (String × Json)) :
    chars (.object members) = '\x7b' :: (joined (members.map memberChars) ++ ['\x7d']) := by
  cases members with
  | nil => simp [chars, joined]
  | cons member members =>
      simp only [chars, joined, chars_members_eq, List.map_cons, separated, List.flatMap_map,
        List.append_assoc, memberChars, List.cons_append]

/-- An array is read element by element. -/
theorem spells_array {height : Nat} {texts : List (List Char)} {values : List Json}
    (helements : List.Forall₂ (Spells height) texts values) :
    Spells (height + 1) ('[' :: (joined texts ++ [']'])) (.array values) := by
  intro depth hdepth limit
  obtain ⟨depth, rfl⟩ : ∃ fewer, depth = fewer + 1 := ⟨depth - 1, by omega⟩
  refine ⟨⟨'[', _, rfl, by decide, by decide, by decide⟩, ?_⟩
  intro rest _ hlength
  have hitems : List.Forall₂ (ItemReads (readValue? limit depth) limit) texts values :=
    helements.imp fun _ _ h => h depth (by omega) limit
  rw [List.cons_append, List.append_assoc, List.singleton_append] at hlength ⊢
  have hbody := read_body_joined (Or.inl rfl) hitems rest (Nat.le_of_succ_le hlength)
  show (readBody? (readValue? limit depth) ']' limit _).map _ = _
  rw [hbody, Option.map_some]

/-- An array is read as the array of what its elements are read as. -/
theorem reads_array {height : Nat} {written read : List Json}
    (helements : List.Forall₂ (ReadsAs height) written read) :
    ReadsAs (height + 1) (.array written) (.array read) := by
  intro depth hdepth limit
  rw [chars_array]
  exact spells_array (List.forall₂_map_left_iff.2 helements) depth hdepth limit

/-- A text is read as a member of an object. -/
def SpellsMember (height : Nat) (text : List Char) (member : String × Json) : Prop :=
  ∃ value, Spells height value member.2 ∧ text = (printString member.1).toList ++ ':' :: value

/-- A text that is read as a member is an item between braces. -/
theorem SpellsMember.item {height depth : Nat} {text : List Char} {member : String × Json}
    (h : SpellsMember height text member) (hdepth : height ≤ depth) (limit : Nat) :
    ItemReads (readMember? (readValue? limit depth) limit) limit text member := by
  obtain ⟨name, value⟩ := member
  obtain ⟨valueText, hvalue, rfl⟩ := h
  have hitem := hvalue depth hdepth limit
  have hchars (rest : List Char) : (printString name).toList ++ ':' :: valueText ++ rest =
      '"' :: (name.toList.flatMap escapedChar ++ '"' :: ':' :: (valueText ++ rest)) := by
    simp [to_list_print_string]
  refine ⟨⟨'"', _, by rw [to_list_print_string]; rfl, by decide, by decide, by decide⟩, ?_⟩
  intro rest hrest hlength
  have hname : ((printString name).toList ++ ':' :: (valueText ++ rest)).length ≤ limit := by
    simpa using hlength
  have hshorter : (valueText ++ rest).length ≤ limit := by
    simp only [List.length_append, List.length_cons] at hname ⊢
    omega
  have hcolon : isBlank ':' = false := by decide
  rw [hchars]
  simp only [readMember?, read_string_printed hname, Option.bind_eq_bind, Option.bind_some,
    skip_blanks_cons hcolon, hitem.starts.skip_blanks, hitem.reads rest hrest hshorter,
    Option.pure_def]

/-- An object is read member by member, and its members are put in order. -/
theorem spells_object {height : Nat} {texts : List (List Char)} {members : List (String × Json)}
    (hmembers : List.Forall₂ (SpellsMember height) texts members) :
    Spells (height + 1) ('\x7b' :: (joined texts ++ ['\x7d'])) (ofMembers members) := by
  intro depth hdepth limit
  obtain ⟨depth, rfl⟩ : ∃ fewer, depth = fewer + 1 := ⟨depth - 1, by omega⟩
  refine ⟨⟨'\x7b', _, rfl, by decide, by decide, by decide⟩, ?_⟩
  intro rest _ hlength
  have hitems : List.Forall₂ (ItemReads (readMember? (readValue? limit depth) limit) limit)
      texts members := hmembers.imp fun _ _ h => h.item (by omega) limit
  rw [List.cons_append, List.append_assoc, List.singleton_append] at hlength ⊢
  have hbody := read_body_joined (Or.inr rfl) hitems rest (Nat.le_of_succ_le hlength)
  show (readBody? (readMember? (readValue? limit depth) limit) '\x7d' limit _).map _ = _
  rw [hbody, Option.map_some]

/-- A member of an object and what it is read as. -/
def MemberReadsAs (height : Nat) (written read : String × Json) : Prop :=
  written.1 = read.1 ∧ ReadsAs height written.2 read.2

/-- An object is read as the object of what its members are read as, in the order of their names. -/
theorem reads_object {height : Nat} {written read : List (String × Json)}
    (hmembers : List.Forall₂ (MemberReadsAs height) written read) :
    ReadsAs (height + 1) (.object written) (ofMembers read) := by
  intro depth hdepth limit
  rw [chars_object]
  refine spells_object (List.forall₂_map_left_iff.2 (hmembers.imp ?_)) depth hdepth limit
  rintro ⟨name, written⟩ ⟨_, read⟩ ⟨rfl, hvalue⟩
  exact ⟨written.chars, hvalue, rfl⟩

/-! ## Every value -/

/-- The text of a number is read as another number. -/
def NumberReadsAs (x y : Float) : Prop :=
  ∃ n : Numeral, n.IsDigits ∧ (printFloat x).toList = n.chars ∧ n.value? = some (.float y)

/-- The number that the text of a number is read as. -/
def numberBack (x : Float) : Float :=
  match readNumber? (printFloat x).toList with
  | some (.float y, _) => y
  | _ => x

/-- What the text of a number is read as is what it is read back as. -/
theorem NumberReadsAs.back {x y : Float} (h : NumberReadsAs x y) : numberBack x = y := by
  obtain ⟨n, hdigits, hchars, hvalue⟩ := h
  have hends : EndsNumber [] := by
    intro c hc
    cases hc
  have hread := read_number_chars hdigits hends
  rw [List.append_nil, hvalue, Option.map_some] at hread
  rw [numberBack, hchars, hread]

/-- Values that are read again, nested at most `height` deep. -/
inductive Readable : Nat → Json → Prop where
  | null {height : Nat} : Readable height .null
  | bool {height : Nat} (b : Bool) : Readable height (.bool b)
  | natural {height n : Nat} (h : n < significandLimit) : Readable height (.integer n)
  | float {height : Nat} {x y : Float} (h : NumberReadsAs x y) : Readable height (.float x)
  | string {height : Nat} (text : String) : Readable height (.string text)
  | array {height : Nat} {values : List Json} (h : ∀ value ∈ values, Readable height value) :
      Readable (height + 1) (.array values)
  | object {height : Nat} {members : List (String × Json)}
      (h : ∀ member ∈ members, Readable height member.2) : Readable (height + 1) (.object members)

/-- A readable value that nests within a bound nests within a larger one. -/
theorem Readable.mono {low high : Nat} {value : Json} (h : Readable low value)
    (hle : low ≤ high) : Readable high value := by
  induction h generalizing high with
  | null => exact .null
  | bool b => exact .bool b
  | natural h => exact .natural h
  | float h => exact .float h
  | string text => exact .string text
  | array _ ih =>
      obtain ⟨high, rfl⟩ : ∃ lower, high = lower + 1 := ⟨high - 1, by omega⟩
      exact .array fun value hvalue => ih value hvalue (by omega)
  | object _ ih =>
      obtain ⟨high, rfl⟩ : ∃ lower, high = lower + 1 := ⟨high - 1, by omega⟩
      exact .object fun member hmember => ih member hmember (by omega)

/-- What the text of a value is read as. -/
def readBack : Json → Json
  | .float x => .float (numberBack x)
  | .array values => .array (values.map readBack)
  | .object members => ofMembers (members.map fun member => (member.1, readBack member.2))
  | other => other
termination_by value => sizeOf value
decreasing_by
  · rename_i hvalue
    have hlt := List.sizeOf_lt_of_mem hvalue
    simp only [array.sizeOf_spec]
    omega
  · rename_i hmember
    have hlt := List.sizeOf_lt_of_mem hmember
    have hpair : sizeOf member = 1 + sizeOf member.1 + sizeOf member.2 := rfl
    simp only [object.sizeOf_spec]
    omega

/-- Every value that can be read again is read as what `readBack` says. -/
theorem Readable.reads {height : Nat} {value : Json} (h : Readable height value) :
    ReadsAs height value value.readBack := by
  induction h with
  | null => simpa only [readBack] using reads_null.at_height _
  | bool b => simpa only [readBack] using (reads_bool b).at_height _
  | natural h => simpa only [readBack] using (reads_natural h).at_height _
  | @float height x y h =>
      obtain ⟨n, hdigits, hchars, hvalue⟩ := id h
      have hread : ReadsAs 0 (.float x) (.float y) := reads_numeral hdigits hchars hvalue
      rw [readBack, h.back]
      exact hread.at_height _
  | string text => simpa only [readBack] using (reads_string text).at_height _
  | array _ ih =>
      rw [readBack]
      exact reads_array (List.forall₂_map_right_iff.2 (List.forall₂_same.2 ih))
  | object _ ih =>
      rw [readBack]
      refine reads_object (List.forall₂_map_right_iff.2 (List.forall₂_same.2 ?_))
      intro member hmember
      exact ⟨rfl, ih member hmember⟩

/-- A text that is read as a value is a document of that value. -/
theorem Spells.parse {height : Nat} {text : List Char} {value : Json} (h : Spells height text value)
    (hheight : height ≤ maxDepth) : parse? (String.ofList text) = some value := by
  have hitem := h maxDepth hheight text.length
  have hread := hitem.reads [] (by intro c hc; cases hc) (by simp)
  have hblanks := hitem.starts.skip_blanks []
  rw [List.append_nil] at hread hblanks
  simp only [parse?, String.toList_ofList, hblanks, hread, Option.bind_eq_bind, Option.bind_some]
  rfl

/-- The text of an integer is parsed as it, from the least signed to the largest unsigned one of 64
bits. -/
theorem parse_print_int {k : Int} (hlow : -2 ^ 63 ≤ k) (hhigh : k < 2 ^ 64) :
    parse? (printInt k) = some (.integer k) := by
  have hparse := Spells.parse (reads_integer hlow hhigh) (Nat.zero_le _)
  rwa [chars, String.ofList_toList] at hparse

/-- A printed document is read as what its value is read as. -/
theorem parse_print {height : Nat} {value : Json} (h : Readable height value)
    (hheight : height ≤ maxDepth) : parse? value.print = some value.readBack := by
  have hprint : value.print = String.ofList value.chars := by
    rw [← to_list_print, String.ofList_toList]
  rw [hprint]
  exact Spells.parse h.reads hheight

/-! ## Members -/

/-- The first member of a name is found. -/
theorem lookup_cons (member : String × Json) (members : List (String × Json)) (name : String) :
    lookup? (member :: members) name =
      if name = member.1 then some member.2 else lookup? members name := by
  obtain ⟨first, value⟩ := member
  unfold lookup?
  by_cases h : name = first
  · simp [h]
  · have hne : (name == first) = false := by simp [h]
    rw [List.lookup_cons, hne, if_neg h]

/-- Nothing is found among no members. -/
theorem lookup_nil (name : String) : lookup? [] name = none := rfl

/-- After a member was inserted it is found by its name, and the others are as before. -/
theorem lookup_insert (name : String) (value : Json) (members : List (String × Json))
    (other : String) : lookup? (insert name value members) other =
      if other = name then some value else lookup? members other := by
  induction members with
  | nil => exact lookup_cons ..
  | cons member members ih =>
      obtain ⟨first, old⟩ := member
      unfold insert
      by_cases hlt : name < first
      · rw [if_pos hlt, lookup_cons]
      by_cases heq : name = first
      · rw [if_neg hlt, if_pos heq, lookup_cons, lookup_cons]
        by_cases hother : other = first <;> simp [hother, heq]
      · rw [if_neg hlt, if_neg heq, lookup_cons, lookup_cons, ih]
        by_cases hother : other = name
        · have hne : other ≠ first := by rwa [hother]
          rw [if_neg hne, if_pos hother, if_pos hother]
        · rw [if_neg hother, if_neg hother]

/-- A member of a read object is the last one written under its name. -/
theorem lookup_ordered (members : List (String × Json)) (name : String) :
    lookup? (members.foldl (fun ordered member => insert member.1 member.2 ordered) []) name =
      lookup? members.reverse name := by
  induction members using List.reverseRecOn with
  | nil => rfl
  | append_singleton members member ih =>
      rw [List.foldl_append, List.foldl_cons, List.foldl_nil, lookup_insert, ih,
        List.reverse_append, List.reverse_singleton, List.singleton_append, lookup_cons]

/-- Changing the values of all members changes the one that is found. -/
theorem lookup_map (f : Json → Json) (members : List (String × Json)) (name : String) :
    lookup? (members.map fun member => (member.1, f member.2)) name =
      (lookup? members name).map f := by
  induction members with
  | nil => rfl
  | cons member members ih =>
      rw [List.map_cons, lookup_cons, lookup_cons, ih]
      by_cases h : name = member.1 <;> simp [h]

/-- The members that an object with the given members is read with. -/
def membersBack (members : List (String × Json)) : List (String × Json) :=
  (members.map fun member => (member.1, readBack member.2)).foldl
    (fun ordered member => insert member.1 member.2 ordered) []

/-- An object is read back member by member. -/
theorem object_back (members : List (String × Json)) :
    readBack (.object members) = .object (membersBack members) := by
  rw [readBack]
  rfl

/-- An array is read back element by element. -/
theorem array_back (values : List Json) :
    readBack (.array values) = .array (values.map readBack) := by
  rw [readBack]

/-- A member of an object is read under its name. -/
theorem lookup_back (members : List (String × Json)) (name : String) :
    lookup? (membersBack members) name = (lookup? members.reverse name).map readBack := by
  rw [membersBack, lookup_ordered, ← List.map_reverse, lookup_map]

end Json

end SynthRack
