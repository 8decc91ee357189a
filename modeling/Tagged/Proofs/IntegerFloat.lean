import Tagged.Proofs.Binary64.Kinds
import Tagged.Proofs.IntegerText

/-!
# Integer texts as floats

A text that denotes an integer is read by two scanners, as an integer and as a float. As long as
the integer is within 64 bits it makes no difference whether the text is read as a float, or as
an integer that is then rounded to one. Only the sign of a zero can differ.
-/

namespace Tagged

namespace Literal

/-- The integer that the sign and the digits of a text denote, without any bound. -/
def exactInteger (text : Bytes) : Int :=
  signedValue (Bytes.splitSign (Bytes.skipSpace text)).1 (Bytes.splitSign (Bytes.skipSpace text)).2

theorem integer?_isSome_iff (text : Bytes) :
    (integer? text).isSome = true ↔
      (Bytes.splitSign (Bytes.skipSpace text)).2 ≠ [] ∧
        (Bytes.splitSign (Bytes.skipSpace text)).2.AllDigits := by
  unfold integer? Bytes.AllDigits
  dsimp only
  split
  next h =>
    simp only [Bool.or_eq_true, List.isEmpty_iff, Bool.not_eq_true', List.all_eq_false] at h
    rcases h with hnil | ⟨b, hb, hdigit⟩
    · simp [hnil]
    · simp only [Option.isSome_none, Bool.false_eq_true, false_iff, not_and]
      intro _ hall
      exact hdigit (hall b hb)
  next h => simpa using h

theorem integer?_eq_exactInteger {text : Bytes} (h : (integer? text).isSome = true) :
    integer? text = some (Int64.ofInt (clampInt64 (exactInteger text))) := by
  obtain ⟨hne, hdigits⟩ := (integer?_isSome_iff text).1 h
  have hall := List.all_eq_true.2 hdigits
  rw [integer?]
  simp only [hall, List.isEmpty_eq_false_iff.2 hne, Bool.not_true, Bool.or_false,
    Bool.false_eq_true, if_false, foldl_appendDigit, exactInteger]

theorem exactInteger_signed {digits : Bytes} (hne : digits ≠ []) (hdigits : digits.AllDigits)
    (negative : Bool) : exactInteger (signed negative digits) = signedValue negative digits := by
  obtain ⟨b, rest, rfl⟩ := List.exists_cons_of_ne_nil hne
  have hb : Byte.isDigit b = true := hdigits b (by simp)
  rw [exactInteger, skipSpace_signed hb, splitSign_signed hb]

/-- Digits up to the end of a text are a decimal literal without a fraction, and no other. -/
theorem float?_of_allDigits {text : Bytes} (hne : (Bytes.splitSign text).2 ≠ [])
    (hdigits : (Bytes.splitSign text).2.AllDigits) :
    float? text =
      some (.ofDecimal (Bytes.splitSign text).1 (Bytes.splitSign text).2.digitsValue 0, []) := by
  rcases hsplit : Bytes.splitSign text with ⟨negative, digits⟩
  rw [hsplit] at hne hdigits
  have hhex : markedHexadecimal? digits = none := by
    apply markedHexadecimal?_eq_none
    intro b hb hx
    rw [Byte.toLower_of_isDigit (hdigits b hb)] at hx
    have hdigit := hdigits b hb
    rw [hx] at hdigit
    cases hdigit
  have hword : Numeral.word? digits = none := by
    obtain ⟨b, rest, rfl⟩ := List.exists_cons_of_ne_nil hne
    exact Numeral.word?_of_isDigit (hdigits b (by simp)) rest
  have hdecimal : Numeral.decimal? (digits ++ Numeral.pointPart [] ++ []) =
      some (.decimal digits [] 0, []) := by
    apply Numeral.decimal?_of_parts hne hdigits
    · simp [Bytes.AllDigits]
    · simp [Numeral.Ends, Bytes.NoDigitAhead]
  rw [Numeral.pointPart, List.append_nil, List.append_nil] at hdecimal
  rw [float?, hsplit]
  simp [hhex, Numeral.scan?, hword, hdecimal, Numeral.value]

end Literal

namespace Binary64

theorem equal_self {x : Binary64} (h : x.isNaN = false) : x.equal x = true := by
  simp [equal, h]

theorem ofDecimal_zero_exponent (negative : Bool) (significand : Nat) :
    ofDecimal negative significand 0 = ofRatio negative significand 1 := by
  rw [ofDecimal, if_pos le_rfl]
  exact congrArg (ofRatio negative · 1) (Nat.mul_one significand)

/-- A number of digits behind a sign and the integer that they denote are rounded to equal
floats. A minus sign before zero is lost in the integer only, and the zeros are equal. -/
theorem equal_ofInt_signedValue (negative : Bool) (digits : Bytes) :
    (ofDecimal negative digits.digitsValue 0).equal
      (ofInt (Literal.signedValue negative digits)) = true := by
  rw [ofDecimal_zero_exponent, ofInt]
  cases negative with
  | false =>
      simp only [Literal.signedValue, Bool.false_eq_true, if_false, Int.natAbs_natCast]
      rw [decide_eq_false (by omega)]
      exact equal_self (isNaN_ofRatio _ _ _)
  | true =>
      simp only [Literal.signedValue, if_true, Int.natAbs_neg, Int.natAbs_natCast]
      by_cases hzero : digits.digitsValue = 0
      · rw [hzero, ofRatio_zero _ Nat.one_pos, ofRatio_zero _ Nat.one_pos]
        rfl
      · rw [decide_eq_true (by omega)]
        exact equal_self (isNaN_ofRatio _ _ _)

end Binary64

namespace Value

section Exact

variable {text : Bytes} (h : (Literal.integer? text).isSome = true)
  (hlow : -0x8000000000000000 ≤ Literal.exactInteger text)
  (hhigh : Literal.exactInteger text ≤ 0x7fffffffffffffff)

include h hlow hhigh

theorem exists_toInt_eq :
    ∃ i : Int64, (Value.string (.live text)).toInt = .int i ∧
      i.toInt = Literal.exactInteger text := by
  refine ⟨Int64.ofInt (Literal.exactInteger text), ?_,
    Int64.toInt_ofInt_of_le (by omega) (by omega)⟩
  rw [toInt, textInt, Text.bytes, Literal.integer?_eq_exactInteger h, Option.getD_some,
    clampInt64_of_mem hlow hhigh]

theorem equal_toFloat_toInt :
    (Value.string (.live text)).toFloat.equal (Value.string (.live text)).toInt.toFloat = true := by
  obtain ⟨hne, hdigits⟩ := (Literal.integer?_isSome_iff text).1 h
  have hfloat : Literal.floatValue text =
      .ofDecimal (Bytes.splitSign (Bytes.skipSpace text)).1
        (Bytes.splitSign (Bytes.skipSpace text)).2.digitsValue 0 := by
    rw [Literal.floatValue, Literal.float?_of_allDigits hne hdigits]
  obtain ⟨i, hint, hexact⟩ := exists_toInt_eq h hlow hhigh
  rw [hint, toFloat, toFloat, Text.bytes, hfloat, hexact]
  exact Binary64.equal_ofInt_signedValue _ _

end Exact

/-- A text that denotes an integer within 64 bits is read as that integer, and gives equal floats
when it is read as a float and when it is read as an integer first. In particular, an integer and
its text give equal floats. -/
theorem float_of_integer_text_commutes (text : Bytes) (n : Int64) :
    ((Literal.integer? text).isSome = true →
      -0x8000000000000000 ≤ Literal.exactInteger text →
      Literal.exactInteger text ≤ 0x7fffffffffffffff →
      (∃ i : Int64, (Value.string (.live text)).toInt = .int i ∧
        i.toInt = Literal.exactInteger text) ∧
      (Value.string (.live text)).toFloat.equal
        (Value.string (.live text)).toInt.toFloat = true) ∧
    (Value.int n).toText.toFloat.equal (Value.int n).toFloat = true := by
  refine ⟨fun h hlow hhigh => ⟨exists_toInt_eq h hlow hhigh, equal_toFloat_toInt h hlow hhigh⟩, ?_⟩
  obtain ⟨hlow, hhigh⟩ := int64_bounds n
  have hread := integer?_decimalInt n
  have hexact : Literal.exactInteger (decimalInt n.toInt) = n.toInt := by
    rw [decimalInt_eq_signed, Literal.exactInteger_signed (decimal_ne_nil _) (allDigits_decimal _),
      signedValue_decimal]
  have hint : (Value.string (.live (decimalInt n.toInt))).toInt = .int n := by
    rw [toInt, textInt, Text.bytes, hread, Option.getD_some]
  have hcommutes := equal_toFloat_toInt (by rw [hread]; rfl) (by rwa [hexact]) (by rwa [hexact])
  rwa [hint, ← toText_int] at hcommutes

/-- An odd number above `2 ^ 53`, where both ways have to round to the even neighbour. -/
theorem float_of_odd_integer_text_commutes :
    let text := ascii "\t -009007199254740993"
    (Literal.integer? text).isSome = true ∧
      Literal.exactInteger text = -9007199254740993 ∧
      (Value.string (.live text)).toInt.toFloat = .float ⟨true, 0x4340000000000000, by decide⟩ ∧
      (Value.string (.live text)).toFloat.equal
        (Value.string (.live text)).toInt.toFloat = true := by
  intro text
  have haccepted : (Literal.integer? text).isSome = true := by decide +kernel
  have hexact : Literal.exactInteger text = -9007199254740993 := by decide +kernel
  refine ⟨haccepted, hexact, by decide +kernel, ?_⟩
  exact ((float_of_integer_text_commutes text 0).1 haccepted (by rw [hexact]; decide)
    (by rw [hexact]; decide)).2

end Value

end Tagged
