import Mathlib
import SynthRack.Json.Printer
import SynthRack.Json.Reader

/-!
# Reading back single tokens

What is written as one token is read as that token, whatever text follows: digits
(`span_digits_append`), numbers (`read_number_chars`) and strings (`read_string_escaped`). A number
ends where the next character cannot go on with it, which `EndsNumber` says.
-/

namespace SynthRack

namespace Json

/-! ## Digits -/

/-- A text that does not go on with digits. -/
def EndsDigits (rest : List Char) : Prop := ∀ c, rest.head? = some c → c.isDigit = false

/-- A text that does not go on with a number. -/
def EndsNumber (rest : List Char) : Prop :=
  ∀ c, rest.head? = some c → c.isDigit = false ∧ c ≠ '.' ∧ c ≠ 'e' ∧ c ≠ 'E'

/-- A text that does not go on with a number does not go on with digits. -/
theorem EndsNumber.digits {rest : List Char} (h : EndsNumber rest) : EndsDigits rest := by
  intro c hc
  exact (h c hc).1

/-- A scan for digits stops where they end. -/
theorem span_digits_append {digits rest : List Char} (hdigits : ∀ c ∈ digits, c.isDigit = true)
    (hrest : EndsDigits rest) : spanDigits (digits ++ rest) = (digits, rest) := by
  unfold spanDigits
  rw [List.span_eq_takeWhile_dropWhile, List.takeWhile_append_of_pos hdigits,
    List.dropWhile_append_of_pos hdigits]
  cases rest with
  | nil => simp
  | cons c rest =>
      have hc : c.isDigit = false := hrest c rfl
      simp [hc]

/-- A number is written with digits only. -/
theorem digits_digit_chars (n : Nat) : ∀ c ∈ Decimal.digitChars n, c.isDigit = true := by
  intro c hc
  exact Nat.isDigit_of_mem_toDigits (by omega) (by omega) hc

/-- Written digits stand for the number that they write. -/
theorem nat_of_digits_digit_chars (n : Nat) : Numeral.natOfDigits (Decimal.digitChars n) = n := by
  have hfold : Numeral.natOfDigits (Decimal.digitChars n) =
      Nat.ofDigitChars 10 (Nat.toDigits 10 n) 0 := by
    unfold Numeral.natOfDigits Decimal.digitChars Nat.ofDigitChars digitValue
    simp only [Nat.mul_comm]
  rw [hfold, Nat.ofDigitChars_ten_toDigits]

/-- The first digit that is written is a zero for zero alone. -/
theorem head_digit_chars (n : Nat) (hn : 0 < n) :
    ∃ c rest, Decimal.digitChars n = c :: rest ∧ c ≠ '0' := by
  induction n using Nat.strong_induction_on with
  | _ n ih =>
      by_cases hlt : n < 10
      · refine ⟨n.digitChar, [], Nat.toDigits_of_lt_base hlt, ?_⟩
        interval_cases n <;> decide
      · obtain ⟨c, rest, hdigits, hc⟩ := ih (n / 10) (by omega) (by omega)
        refine ⟨c, rest ++ [(n % 10).digitChar], ?_, hc⟩
        have hstep := Nat.toDigits_of_base_le (b := 10) (n := n) (by omega) (by omega)
        unfold Decimal.digitChars at hdigits ⊢
        rw [hstep, hdigits, List.cons_append]

/-- The digits of a number are a well-formed whole part, with no zero in front of others. -/
theorem whole_ok_digit_chars (n : Nat) : Numeral.wholeOk (Decimal.digitChars n) = true := by
  rcases Nat.eq_zero_or_pos n with rfl | hn
  · rfl
  · obtain ⟨c, rest, hdigits, hc⟩ := head_digit_chars n hn
    rw [hdigits]
    cases rest with
    | nil => rfl
    | cons => simp [Numeral.wholeOk, hc]

/-! ## Numbers -/

namespace Numeral

/-- The written fraction of a number. -/
def fractionChars : Option (List Char) → List Char
  | none => []
  | some digits => '.' :: digits

/-- The written exponent of a number, always with a sign. -/
def exponentChars : Option (Bool × List Char) → List Char
  | none => []
  | some (negative, digits) => 'e' :: (if negative then '-' else '+') :: digits

/-- The text of a number from its written parts. -/
def chars (n : Numeral) : List Char :=
  (if n.negative then ['-'] else []) ++
    (n.whole ++ (fractionChars n.fraction ++ exponentChars n.exponent))

/-- Whether the parts are digits, with some before the point. -/
structure IsDigits (n : Numeral) : Prop where
  nonempty : n.whole ≠ []
  whole : ∀ c ∈ n.whole, c.isDigit = true
  fraction : ∀ digits, n.fraction = some digits → ∀ c ∈ digits, c.isDigit = true
  exponent : ∀ negative digits, n.exponent = some (negative, digits) →
    ∀ c ∈ digits, c.isDigit = true

end Numeral

/-- A scan for an exponent finds the one that was written. -/
theorem span_exponent_append {exponent : Option (Bool × List Char)} {rest : List Char}
    (hdigits : ∀ negative digits, exponent = some (negative, digits) →
      ∀ c ∈ digits, c.isDigit = true)
    (hrest : EndsNumber rest) :
    spanExponent (Numeral.exponentChars exponent ++ rest) = (exponent, rest) := by
  cases exponent with
  | none =>
      cases rest with
      | nil => rfl
      | cons c rest =>
          obtain ⟨-, -, he, hE⟩ := hrest c rfl
          simp [Numeral.exponentChars, spanExponent, he, hE]
  | some signed =>
      obtain ⟨negative, digits⟩ := signed
      have hspan := span_digits_append (hdigits negative digits rfl) hrest.digits
      cases negative <;> simp [Numeral.exponentChars, spanExponent, hspan]

/-- An exponent, or what follows where there is none, starts with no digit and no point. -/
theorem exponent_ends {exponent : Option (Bool × List Char)} {rest : List Char}
    (hrest : EndsNumber rest) (c : Char)
    (hc : (Numeral.exponentChars exponent ++ rest).head? = some c) :
    c.isDigit = false ∧ c ≠ '.' := by
  cases exponent with
  | none => exact ⟨(hrest c hc).1, (hrest c hc).2.1⟩
  | some signed =>
      obtain rfl : 'e' = c := by simpa [Numeral.exponentChars] using hc
      decide

/-- A scan for a fraction finds the one that was written and stops at the exponent. -/
theorem span_fraction_append {fraction : Option (List Char)}
    (exponent : Option (Bool × List Char)) {rest : List Char}
    (hdigits : ∀ digits, fraction = some digits → ∀ c ∈ digits, c.isDigit = true)
    (hrest : EndsNumber rest) :
    spanFraction (Numeral.fractionChars fraction ++ (Numeral.exponentChars exponent ++ rest)) =
      (fraction, Numeral.exponentChars exponent ++ rest) := by
  have hends : EndsDigits (Numeral.exponentChars exponent ++ rest) := by
    intro c hc
    exact (exponent_ends hrest c hc).1
  cases fraction with
  | some digits =>
      have hspan := span_digits_append (hdigits digits rfl) hends
      simp only [Numeral.fractionChars, List.cons_append, spanFraction, hspan]
  | none =>
      show spanFraction (Numeral.exponentChars exponent ++ rest) = _
      cases htext : Numeral.exponentChars exponent ++ rest with
      | nil => rfl
      | cons c text =>
          have hc : c ≠ '.' := (exponent_ends hrest c (by rw [htext]; rfl)).2
          unfold spanFraction
          split
          · rename_i heq
            exact absurd (List.cons.inj heq).1 hc
          · rfl

/-- A number is read as the value of its written parts. -/
theorem read_number_chars {n : Numeral} (hn : n.IsDigits) {rest : List Char}
    (hrest : EndsNumber rest) : readNumber? (n.chars ++ rest) = n.value?.map (·, rest) := by
  obtain ⟨negative, whole, fraction, exponent⟩ := n
  obtain ⟨hnonempty, hwhole, hfraction, hexponent⟩ := hn
  have hends : EndsDigits
      (Numeral.fractionChars fraction ++ (Numeral.exponentChars exponent ++ rest)) := by
    intro c hc
    cases fraction with
    | none => exact (exponent_ends hrest c hc).1
    | some digits =>
        obtain rfl : '.' = c := by simpa [Numeral.fractionChars] using hc
        decide
  have hspan := span_digits_append hwhole hends
  have hfractionSpan := span_fraction_append exponent hfraction hrest
  have hexponentSpan := span_exponent_append hexponent hrest
  unfold readNumber?
  cases negative with
  | true => simp [Numeral.chars, hspan, hfractionSpan, hexponentSpan]
  | false =>
      -- Without a sign the text starts with a digit, so no sign is taken off.
      obtain ⟨c, digits, rfl⟩ := List.exists_cons_of_ne_nil hnonempty
      have hc : c ≠ '-' := by
        rintro rfl
        exact absurd (hwhole '-' (List.mem_cons_self ..)) (by decide)
      have htext : (⟨false, c :: digits, fraction, exponent⟩ : Numeral).chars ++ rest =
          c :: (digits ++ (Numeral.fractionChars fraction ++
            (Numeral.exponentChars exponent ++ rest))) := by
        simp [Numeral.chars]
      rw [htext]
      split
      rename_i negative text hsign
      have hsign : (negative, text) = (false, c :: (digits ++ (Numeral.fractionChars fraction ++
          (Numeral.exponentChars exponent ++ rest)))) := by
        rw [← hsign]
        split
        · rename_i heq
          exact absurd (List.cons.inj heq).1 hc
        · rfl
      obtain ⟨rfl, rfl⟩ := Prod.mk.inj hsign
      rw [← List.cons_append, hspan]
      simp [hfractionSpan, hexponentSpan]

namespace Numeral

/-- A number always starts with a digit or a sign. -/
theorem IsDigits.head {n : Numeral} (hn : n.IsDigits) :
    ∃ c rest, n.chars = c :: rest ∧ (c.isDigit = true ∨ c = '-') := by
  obtain ⟨negative, whole, fraction, exponent⟩ := n
  cases negative with
  | true => exact ⟨'-', _, rfl, Or.inr rfl⟩
  | false =>
      obtain ⟨c, digits, rfl⟩ := List.exists_cons_of_ne_nil hn.nonempty
      exact ⟨c, _, rfl, Or.inl (hn.whole c (List.mem_cons_self ..))⟩

/-- The parts of a written natural number. -/
def ofNat (n : Nat) : Numeral := ⟨false, Decimal.digitChars n, none, none⟩

/-- The parts of a written natural number are digits. -/
theorem is_digits_of_nat (n : Nat) : (ofNat n).IsDigits :=
  ⟨Nat.toDigits_ne_nil, digits_digit_chars n, by simp [ofNat], by simp [ofNat]⟩

/-- The parts of a written integer. -/
def ofInt (k : Int) : Numeral := { ofNat k.natAbs with negative := decide (k < 0) }

/-- An integer is written from its parts as it is printed. -/
theorem chars_of_int (k : Int) : (ofInt k).chars = (printInt k).toList := by
  by_cases hk : k < 0 <;>
    simp [printInt, chars, ofInt, ofNat, fractionChars, exponentChars, hk]

/-- The parts of a written integer are digits. -/
theorem is_digits_of_int (k : Int) : (ofInt k).IsDigits :=
  ⟨(is_digits_of_nat k.natAbs).1, (is_digits_of_nat k.natAbs).2, by simp [ofInt, ofNat],
    by simp [ofInt, ofNat]⟩

/-- An integer that fits 64 bits, with or without a sign, is the value of its digits. -/
theorem value_of_int {k : Int} (hlow : -2 ^ 63 ≤ k) (hhigh : k < 2 ^ 64) :
    (ofInt k).value? = some (.integer k) := by
  have hwhole := whole_ok_digit_chars k.natAbs
  have hsize := nat_of_digits_digit_chars k.natAbs
  have hlimit : significandLimit = 2 ^ 64 := rfl
  have hhalf : UInt64.size / 2 = 2 ^ 63 := rfl
  have hint : (ofInt k).toInt? = some k := by
    simp only [toInt?, ofInt, ofNat, hsize, hlimit, hhalf, Option.isNone_none, Bool.and_self,
      if_true, decide_eq_true_eq]
    by_cases hk : k < 0
    · rw [if_pos hk, if_pos ⟨by omega, by omega⟩]
      exact congrArg some (by omega)
    · rw [if_neg hk, if_pos (by omega)]
      exact congrArg some (by omega)
  have hwellFormed : (ofInt k).wellFormed = true := by
    simp [wellFormed, ofInt, ofNat, hwhole]
  rw [value?, if_pos hwellFormed, hint]

end Numeral

/-! ## Strings -/

/-- A hexadecimal digit is read as its value. -/
theorem hex_value_hex_digit (n : Nat) (hn : n < 16) : hexValue? (hexDigit n) = some n := by
  interval_cases n <;> decide

/-- The numeric escape of a control character stands for it. -/
theorem read_code_point_control {c : Char} (hc : c < ' ') (rest : List Char) :
    readCodePoint? ('0' :: '0' :: hexDigit (c.toNat / 16) :: hexDigit c.toNat :: rest) =
      some (c, rest) := by
  have hlt : c.toNat < 32 := hc
  have hzero : hexValue? '0' = some 0 := by decide
  have hhigh : hexValue? (hexDigit (c.toNat / 16)) = some (c.toNat / 16) :=
    hex_value_hex_digit _ (by omega)
  have hlow : hexValue? (hexDigit c.toNat) = some (c.toNat % 16) := by
    have hmod : hexDigit c.toNat = hexDigit (c.toNat % 16) := by simp [hexDigit]
    rw [hmod, hex_value_hex_digit _ (by omega)]
  have hunit : readUnit? ('0' :: '0' :: hexDigit (c.toNat / 16) :: hexDigit c.toNat :: rest) =
      some (c.toNat, rest) := by
    simp only [readUnit?, hzero, hhigh, hlow]
    show some (((0 * 16 + 0) * 16 + c.toNat / 16) * 16 + c.toNat % 16, rest) = some (c.toNat, rest)
    congr 2
    omega
  -- A control character is no half of a surrogate pair.
  have hnotHigh : isHighSurrogate c.toNat = false := by
    simp only [isHighSurrogate, Bool.and_eq_false_iff, decide_eq_false_iff_not]
    omega
  have hnotLow : isLowSurrogate c.toNat = false := by
    simp only [isLowSurrogate, Bool.and_eq_false_iff, decide_eq_false_iff_not]
    omega
  unfold readCodePoint?
  rw [hunit]
  simp [hnotHigh, hnotLow, Char.ofNat_toNat]

/-- One written character is read as that character. -/
theorem read_string_escaped_char (c : Char) (steps : Nat) (done rest : List Char) :
    readString? (steps + 1) done (escapedChar c ++ rest) = readString? steps (c :: done) rest := by
  unfold escapedChar
  split
  all_goals try rfl
  rename_i hquote hbackslash _ _ _ _ _
  by_cases hcontrol : c < ' '
  · rw [if_pos hcontrol]
    simp only [List.cons_append, List.nil_append, readString?, read_code_point_control hcontrol]
  · rw [if_neg hcontrol, List.singleton_append]
    have hplain : ¬(c < ' ' ∨ c = '\\') := not_or.2 ⟨hcontrol, hbackslash⟩
    conv_lhs => unfold readString?
    split
    case h_1 heq => cases heq
    case h_2 heq => exact absurd (List.cons.inj heq).1 hquote
    case h_3 heq => exact absurd (List.cons.inj heq).1 hbackslash
    case h_4 heq => exact absurd (List.cons.inj heq).1 hbackslash
    case h_5 heq =>
      obtain ⟨rfl, rfl⟩ := List.cons.inj heq
      rw [if_neg hplain]

/-- A written string is read back, with enough steps for its characters and the closing quote. -/
theorem read_string_escaped (text rest : List Char) (done : List Char) {steps : Nat}
    (hsteps : text.length < steps) :
    readString? steps done (text.flatMap escapedChar ++ '"' :: rest) =
      some (String.ofList (done.reverse ++ text), rest) := by
  induction text generalizing steps done with
  | nil =>
      obtain ⟨steps, rfl⟩ := Nat.exists_eq_add_of_lt hsteps
      simp [readString?]
  | cons c text ih =>
      obtain ⟨steps, rfl⟩ : ∃ fewer, steps = fewer + 1 := ⟨steps - 1, by omega⟩
      rw [List.flatMap_cons, List.append_assoc, read_string_escaped_char,
        ih (c :: done) (by simpa using hsteps)]
      simp

end Json

end SynthRack
