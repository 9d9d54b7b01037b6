import Mathlib
import SynthRack.Proofs.Json.Scan

/-!
# Written decimals

`Numeral.Writes n negative text digits exponent` says that `text` is a numeral behind its sign,
whose digits, read without their point, are `digits`, and whose point stands where `exponent` puts
it. Every decimal of few digits is printed as such a text (`print_decimal_writes`), whichever of the
four layouts it is printed in.
-/

namespace SynthRack

namespace Json

namespace Numeral

/-! ## Digits as numbers -/

/-- The digits before a text count as many times ten as the text is long. -/
theorem fold_digits (start : Nat) (digits : List Char) :
    digits.foldl (fun value c => value * 10 + digitValue c) start =
      start * 10 ^ digits.length + natOfDigits digits := by
  induction digits generalizing start with
  | nil => simp [natOfDigits]
  | cons c digits ih =>
      have hstart := ih (start * 10 + digitValue c)
      have hzero := ih (0 * 10 + digitValue c)
      unfold natOfDigits at hstart hzero ⊢
      rw [List.foldl_cons, List.foldl_cons, hstart, hzero, List.length_cons, pow_succ]
      ring

/-- Digits in front count by the power of ten that the digits behind them leave. -/
theorem nat_of_digits_append (before after : List Char) :
    natOfDigits (before ++ after) = natOfDigits before * 10 ^ after.length + natOfDigits after := by
  have hfold := fold_digits (natOfDigits before) after
  unfold natOfDigits at hfold ⊢
  rw [List.foldl_append, hfold]

/-- Zeros alone are worth nothing. -/
theorem nat_of_digits_zeros (count : Nat) : natOfDigits (List.replicate count '0') = 0 := by
  induction count with
  | zero => rfl
  | succ count ih =>
      rw [List.replicate_succ', nat_of_digits_append, ih]
      rfl

/-- Digits stand for less than the power of ten of their number. -/
theorem nat_of_digits_lt {digits : List Char} (h : ∀ c ∈ digits, c.isDigit = true) :
    natOfDigits digits < 10 ^ digits.length := by
  induction digits with
  | nil => decide
  | cons c digits ih =>
      have hrest := ih fun c hc => h c (List.mem_cons_of_mem _ hc)
      have hc : digitValue c ≤ 9 := by
        have hdigit := h c (List.mem_cons_self ..)
        rw [Char.isDigit, Bool.and_eq_true, decide_eq_true_eq, decide_eq_true_eq] at hdigit
        have hle : c.toNat ≤ 57 := hdigit.2
        unfold digitValue
        show c.toNat - 48 ≤ 9
        omega
      have hsplit : natOfDigits (c :: digits) =
          digitValue c * 10 ^ digits.length + natOfDigits digits := by
        rw [← List.singleton_append, nat_of_digits_append]
        simp [natOfDigits]
      rw [hsplit, List.length_cons, pow_succ]
      nlinarith

/-- Digits are taken whole while their number fits 64 bits. -/
theorem absorb_all {start : Nat} {digits : List Char}
    (h : start * 10 ^ digits.length + natOfDigits digits < significandLimit) :
    absorb start digits =
      (start * 10 ^ digits.length + natOfDigits digits, digits.length) := by
  induction digits generalizing start with
  | nil => simp [absorb, natOfDigits]
  | cons c digits ih =>
      have hlonger : start * 10 ^ (c :: digits).length + natOfDigits (c :: digits) =
          (start * 10 + digitValue c) * 10 ^ digits.length + natOfDigits digits := by
        rw [← fold_digits, ← fold_digits, List.foldl_cons]
      have hpower : 0 < 10 ^ digits.length := by positivity
      have hfits : start * 10 + digitValue c < significandLimit := by
        rw [hlonger] at h
        nlinarith
      rw [hlonger] at h ⊢
      unfold absorb
      dsimp only
      rw [if_pos hfits, ih h, List.length_cons]

/-! ## Layouts -/

/-- The numeral is well formed and writes `digits * 10 ^ exponent` as `text`, and as no integer. -/
structure Writes (n : Numeral) (negative : Bool) (text : List Char) (digits : Nat)
    (exponent : Int) : Prop where
  sign : n.negative = negative
  text_eq : n.chars = (if negative then ['-'] else []) ++ text
  parts : n.IsDigits
  formed : n.wellFormed = true
  decimal : n.toInt? = none
  digits_eq : natOfDigits (n.whole ++ n.fraction.getD []) = digits
  exponent_eq : n.written - (n.fraction.getD []).length = exponent

/-- A whole part may start with any digit but a zero. -/
theorem whole_ok_cons {c : Char} (hc : c ≠ '0') (rest : List Char) : wholeOk (c :: rest) = true := by
  cases rest with
  | nil => rfl
  | cons => simp [wholeOk, hc]

/-- The sign and the digits of an exponent write it. -/
theorem written_exponent (negative : Bool) (whole : List Char) (fraction : Option (List Char))
    (power : Int) :
    (⟨negative, whole, fraction, some (decide (power < 0), Decimal.digitChars power.natAbs)⟩ :
      Numeral).written = power := by
  unfold written
  dsimp only
  rw [nat_of_digits_digit_chars]
  by_cases hneg : power < 0
  · rw [decide_eq_true hneg, if_pos rfl]
    omega
  · rw [decide_eq_false hneg, if_neg (by decide)]
    omega

/-- The digits behind the point of a number, which has no point without them. -/
def behindPoint : List Char → Option (List Char)
  | [] => none
  | c :: rest => some (c :: rest)

/-- The digits behind the point, and none where there is no point, are the ones given. -/
theorem behind_point_get_d (rest : List Char) : (behindPoint rest).getD [] = rest := by
  cases rest <;> rfl

/-- Where there is a point, there are digits behind it. -/
theorem behind_point_nonempty (rest : List Char) : (behindPoint rest).all (! ·.isEmpty) = true := by
  cases rest <;> rfl

/-- The digits behind a point are the ones given. -/
theorem eq_of_behind_point {rest found : List Char} (h : behindPoint rest = some found) :
    found = rest := by
  rw [← behind_point_get_d rest, h, Option.getD_some]

section

variable {digits : Nat} {exponent : Int}

/-- One digit before the point, and an exponent. -/
theorem scientific_writes (negative : Bool) (hdigits : 0 < digits) (exponent : Int) :
    ∃ n : Numeral,
      n.Writes negative (⟨digits, exponent⟩ : Decimal).scientific digits exponent := by
  obtain ⟨c, rest, hchars, hc⟩ := head_digit_chars digits hdigits
  have hall := digits_digit_chars digits
  have hvalue := nat_of_digits_digit_chars digits
  rw [hchars] at hall hvalue
  rw [List.forall_mem_cons] at hall
  let power : Int := exponent + (c :: rest).length - 1
  refine ⟨⟨negative, [c], behindPoint rest,
      some (decide (power < 0), Decimal.digitChars power.natAbs)⟩,
    ⟨rfl, ?_, ⟨List.cons_ne_nil c [], ?_, ?_, ?_⟩, ?_, ?_, ?_, ?_⟩⟩
  · unfold chars Decimal.scientific
    dsimp only
    rw [hchars]
    -- A single digit is written without a point.
    cases rest with
    | nil => simp [fractionChars, exponentChars, behindPoint, power]
    | cons d rest => simp [fractionChars, exponentChars, behindPoint, power]
  · intro d hd
    rw [List.mem_singleton.1 hd]
    exact hall.1
  · intro found hfound
    rw [eq_of_behind_point hfound]
    exact hall.2
  · intro sign found hfound
    cases hfound
    exact digits_digit_chars _
  · have hpower : Decimal.digitChars power.natAbs ≠ [] := Nat.toDigits_ne_nil
    simp [wellFormed, wholeOk, behind_point_nonempty, hpower]
  · simp [toInt?]
  · dsimp only
    rw [behind_point_get_d, List.singleton_append, hvalue]
  · rw [written_exponent]
    dsimp only
    rw [behind_point_get_d]
    show exponent + (rest.length + 1 : Nat) - 1 - (rest.length : Int) = exponent
    push_cast
    ring

/-- Digits around a point. -/
theorem point_writes (negative : Bool) {whole fraction : List Char} (hwhole : wholeOk whole = true)
    (hfraction : fraction ≠ []) (hall : ∀ c ∈ whole ++ fraction, c.isDigit = true) :
    (⟨negative, whole, some fraction, none⟩ : Numeral).Writes negative (whole ++ '.' :: fraction)
      (natOfDigits (whole ++ fraction)) (-fraction.length) := by
  refine ⟨rfl, ?_, ⟨?_, ?_, ?_, ?_⟩, ?_, ?_, rfl, ?_⟩
  · simp [chars, fractionChars, exponentChars]
  · rintro rfl
    cases hwhole
  · intro c hc
    exact hall c (List.mem_append_left _ hc)
  · intro digits hdigits c hc
    cases hdigits
    exact hall c (List.mem_append_right _ hc)
  · intro sign digits hdigits
    cases hdigits
  · simp [wellFormed, hwhole, hfraction]
  · simp [toInt?]
  · simp [written]

/-- Digits stay digits with zeros behind them. -/
theorem digits_append_zeros (count : Nat) :
    ∀ c ∈ Decimal.digitChars digits ++ List.replicate count '0', c.isDigit = true := by
  intro c hc
  rcases List.mem_append.1 hc with hc | hc
  · exact digits_digit_chars digits c hc
  · rw [List.eq_of_mem_replicate hc]
    decide

/-- All digits and the zeros that the exponent asks for before the point, and one zero after. -/
theorem whole_writes (negative : Bool) (hdigits : 0 < digits) (hexponent : 0 ≤ exponent) :
    ∃ n : Numeral, n.Writes negative ((⟨digits, exponent⟩ : Decimal).plain ++ ['.', '0'])
      (digits * 10 ^ (exponent.toNat + 1)) (-1) := by
  obtain ⟨c, rest, hchars, hc⟩ := head_digit_chars digits hdigits
  let whole := Decimal.digitChars digits ++ List.replicate exponent.toNat '0'
  have hwhole : wholeOk whole = true := by
    show wholeOk (Decimal.digitChars digits ++ List.replicate exponent.toNat '0') = true
    rw [hchars, List.cons_append]
    exact whole_ok_cons hc _
  have hall : ∀ c ∈ whole ++ ['0'], c.isDigit = true := by
    intro c hc
    rcases List.mem_append.1 hc with hc | hc
    · exact digits_append_zeros _ c hc
    · rw [List.mem_singleton.1 hc]
      decide
  have hvalue : natOfDigits (whole ++ ['0']) = digits * 10 ^ (exponent.toNat + 1) := by
    show natOfDigits (Decimal.digitChars digits ++ List.replicate exponent.toNat '0' ++
      List.replicate 1 '0') = _
    rw [List.append_assoc, List.replicate_append_replicate, nat_of_digits_append,
      nat_of_digits_digit_chars, nat_of_digits_zeros, List.length_replicate, Nat.add_zero]
  have hwrites := point_writes negative hwhole (List.cons_ne_nil '0' []) hall
  have hplain : (⟨digits, exponent⟩ : Decimal).plain = whole := by
    unfold Decimal.plain
    dsimp only
    rw [if_pos hexponent]
  rw [hvalue] at hwrites
  rw [hplain]
  exact ⟨_, hwrites⟩

/-- The point between two digits. -/
theorem inner_writes (negative : Bool) (hdigits : 0 < digits) (hexponent : exponent < 0)
    (hbefore : 0 < (Decimal.digitChars digits).length + exponent) :
    ∃ n : Numeral, n.Writes negative (⟨digits, exponent⟩ : Decimal).plain digits exponent := by
  obtain ⟨c, rest, hchars, hc⟩ := head_digit_chars digits hdigits
  obtain ⟨before, hcount⟩ : ∃ before : Nat,
      ((Decimal.digitChars digits).length + exponent : Int) = (before + 1 : Nat) :=
    ⟨((Decimal.digitChars digits).length + exponent - 1).toNat, by omega⟩
  have hjoin := List.take_append_drop (before + 1) (Decimal.digitChars digits)
  have hwhole : wholeOk ((Decimal.digitChars digits).take (before + 1)) = true := by
    rw [hchars, List.take_succ_cons]
    exact whole_ok_cons hc _
  have hlength : (((Decimal.digitChars digits).drop (before + 1)).length : Int) = -exponent := by
    rw [List.length_drop]
    omega
  have hfraction : (Decimal.digitChars digits).drop (before + 1) ≠ [] := by
    intro hnil
    rw [hnil, List.length_nil] at hlength
    omega
  have hwrites := point_writes negative hwhole hfraction
    (by rw [hjoin]; exact digits_digit_chars digits)
  rw [hjoin, nat_of_digits_digit_chars, hlength, neg_neg] at hwrites
  have hplain : (⟨digits, exponent⟩ : Decimal).plain = (Decimal.digitChars digits).take (before + 1) ++
      '.' :: (Decimal.digitChars digits).drop (before + 1) := by
    unfold Decimal.plain
    dsimp only
    rw [if_neg (by omega), if_pos hbefore, hcount, Int.toNat_natCast]
  rw [hplain]
  exact ⟨_, hwrites⟩

/-- A zero, the point and more zeros before the digits. -/
theorem small_writes (negative : Bool) (hexponent : exponent < 0)
    (hbefore : (Decimal.digitChars digits).length + exponent ≤ 0) :
    ∃ n : Numeral, n.Writes negative (⟨digits, exponent⟩ : Decimal).plain digits exponent := by
  obtain ⟨zeros, hcount⟩ : ∃ zeros : Nat,
      -((Decimal.digitChars digits).length + exponent : Int) = zeros :=
    ⟨(-((Decimal.digitChars digits).length + exponent)).toNat, by omega⟩
  let fraction := List.replicate zeros '0' ++ Decimal.digitChars digits
  have hnonempty : Decimal.digitChars digits ≠ [] := Nat.toDigits_ne_nil
  have hall : ∀ c ∈ ['0'] ++ fraction, c.isDigit = true := by
    intro c hc
    rcases List.mem_append.1 hc with hc | hc
    · rw [List.mem_singleton.1 hc]
      decide
    · rcases List.mem_append.1 hc with hc | hc
      · rw [List.eq_of_mem_replicate hc]
        decide
      · exact digits_digit_chars digits c hc
  have hvalue : natOfDigits (['0'] ++ fraction) = digits := by
    show natOfDigits (List.replicate 1 '0' ++ (List.replicate zeros '0' ++
      Decimal.digitChars digits)) = digits
    rw [← List.append_assoc, List.replicate_append_replicate, nat_of_digits_append,
      nat_of_digits_zeros, nat_of_digits_digit_chars, Nat.zero_mul, Nat.zero_add]
  have hlength : (fraction.length : Int) = -exponent := by
    show ((List.replicate zeros '0' ++ Decimal.digitChars digits).length : Int) = _
    rw [List.length_append, List.length_replicate]
    push_cast
    omega
  have hnone : fraction ≠ [] := List.append_ne_nil_of_right_ne_nil _ hnonempty
  have hwrites := point_writes negative rfl hnone hall
  rw [hvalue, hlength, neg_neg] at hwrites
  have hplain : (⟨digits, exponent⟩ : Decimal).plain = '0' :: '.' :: fraction := by
    unfold Decimal.plain
    dsimp only
    rw [if_neg (by omega), if_neg (by omega), hcount, Int.toNat_natCast]
    rfl
  rw [hplain]
  exact ⟨_, hwrites⟩

end

/-- A decimal of few digits is printed as a numeral of the same value, whose digits fit 64 bits. -/
theorem print_decimal_writes (negative : Bool) {d : Decimal} (hdigits : 0 < d.digits)
    (hsize : d.digits < 2 ^ 60) (hlow : -70 ≤ d.exponent) (hhigh : d.exponent ≤ 70) :
    ∃ (n : Numeral) (digits : Nat) (exponent : Int),
      n.Writes negative (printDecimal d) digits exponent ∧
        (digits : Rat) * 10 ^ exponent = d.digits * 10 ^ d.exponent ∧
        0 < digits ∧ digits < significandLimit ∧ -70 ≤ exponent ∧ exponent ≤ 70 := by
  obtain ⟨digits, exponent⟩ := d
  dsimp only at hdigits hsize hlow hhigh ⊢
  have hfits : digits < significandLimit := lt_trans hsize (by decide)
  unfold printDecimal
  dsimp only
  by_cases hfar : (Decimal.digitChars digits).length + exponent ≤ -5 ∨
      16 < (Decimal.digitChars digits).length + exponent
  · rw [if_pos hfar]
    obtain ⟨n, hn⟩ := scientific_writes negative hdigits exponent
    exact ⟨n, digits, exponent, hn, rfl, hdigits, hfits, hlow, hhigh⟩
  rw [if_neg hfar]
  by_cases hwhole : 0 ≤ exponent
  · rw [if_pos hwhole]
    obtain ⟨n, hn⟩ := whole_writes negative hdigits hwhole
    obtain ⟨zeros, rfl⟩ := Int.eq_ofNat_of_zero_le hwhole
    rw [Int.toNat_natCast] at hn
    refine ⟨n, _, _, hn, ?_, by positivity, ?_, by omega, by omega⟩
    · push_cast
      rw [zpow_neg_one, zpow_natCast, pow_succ]
      ring
    -- At most sixteen digits stand before the point here.
    · have hcount : digits < 10 ^ (Decimal.digitChars digits).length := by
        have hlt := nat_of_digits_lt (digits_digit_chars digits)
        rwa [nat_of_digits_digit_chars] at hlt
      calc digits * 10 ^ (zeros + 1)
          < 10 ^ (Decimal.digitChars digits).length * 10 ^ (zeros + 1) :=
            Nat.mul_lt_mul_of_pos_right hcount (by positivity)
        _ = 10 ^ ((Decimal.digitChars digits).length + (zeros + 1)) := (pow_add ..).symm
        _ ≤ 10 ^ 17 := Nat.pow_le_pow_right (by omega) (by omega)
        _ ≤ significandLimit := by decide
  · rw [if_neg hwhole]
    have hplain : ∃ n : Numeral,
        n.Writes negative (⟨digits, exponent⟩ : Decimal).plain digits exponent := by
      by_cases hbefore : 0 < (Decimal.digitChars digits).length + exponent
      · exact inner_writes negative hdigits (by omega) hbefore
      · exact small_writes negative (by omega) (by omega)
    obtain ⟨n, hn⟩ := hplain
    exact ⟨n, digits, exponent, hn, rfl, hdigits, hfits, hlow, hhigh⟩

/-- The number of a numeral is its digits, moved by its exponent. -/
theorem Writes.to_float {n : Numeral} {negative : Bool} {text : List Char} {digits : Nat}
    {exponent : Int} (h : n.Writes negative text digits exponent)
    (hfits : digits < significandLimit) :
    n.toFloat? = (scaleByTen (Float.nearestInt digits) exponent).map
      fun x => if negative then -x else x := by
  obtain ⟨hsign, -, -, -, -, hdigits, hexponent⟩ := h
  have happend := nat_of_digits_append n.whole (n.fraction.getD [])
  rw [hdigits] at happend
  have hpower : 1 ≤ 10 ^ (n.fraction.getD []).length := Nat.one_le_pow _ _ (by omega)
  -- No digit is skipped, on either side of the point.
  have hwhole : 0 * 10 ^ n.whole.length + natOfDigits n.whole < significandLimit := by
    nlinarith
  have hmoved : ((n.whole.length - n.whole.length : Nat) : Int) - (n.fraction.getD []).length +
      n.written = exponent := by
    rw [← hexponent, Nat.sub_self]
    push_cast
    ring
  unfold toFloat?
  rw [absorb_all hwhole]
  dsimp only
  rw [Nat.zero_mul, Nat.zero_add, absorb_all (by rw [← happend]; exact hfits), ← happend]
  dsimp only
  rw [hmoved, hsign]

end Numeral

end Json

end SynthRack
