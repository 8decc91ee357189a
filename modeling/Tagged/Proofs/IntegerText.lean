import Mathlib.Data.List.TakeWhile
import Tagged.Proofs.Literal.Scan
import Tagged.Value.Convert

/-!
# Integers and their texts

The text of every 64-bit integer reads back as that integer. The other way round, a text
comes back from the integer that it denotes exactly if it is that integer's own spelling.
-/

namespace Tagged

theorem clampInt64_of_mem {i : Int} (hlow : -0x8000000000000000 ≤ i)
    (hhigh : i ≤ 0x7fffffffffffffff) : clampInt64 i = i := by
  unfold clampInt64
  omega

theorem int64_bounds (n : Int64) :
    -0x8000000000000000 ≤ n.toInt ∧ n.toInt ≤ 0x7fffffffffffffff := by
  have hlow := n.le_toInt
  have hhigh := n.toInt_lt
  omega

namespace Literal

def signedValue (negative : Bool) (digits : Bytes) : Int :=
  if negative then -(digits.digitsValue : Int) else digits.digitsValue

/-- Staying at the end of the range once it is reached gives the same as clamping the exact
value once. -/
theorem foldl_appendDigit (negative : Bool) (digits : Bytes) :
    digits.foldl (appendDigit negative) 0 = clampInt64 (signedValue negative digits) := by
  induction digits using List.reverseRecOn with
  | nil => cases negative <;> rfl
  | append_singleton digits b ih =>
      rw [List.foldl_append, List.foldl_cons, List.foldl_nil, ih]
      unfold appendDigit signedValue clampInt64
      rw [Bytes.digitsValue_concat]
      cases negative <;> simp <;> omega

/-- The text is an integer's own spelling: a minus sign at most, then digits, with no zero in
front of other digits, no minus sign before zero, and a value within 64 bits. -/
def IsCanonical (text : Bytes) : Prop :=
  ∃ negative digits, text = signed negative digits ∧ digits ≠ [] ∧ digits.AllDigits ∧
    (digits.head? = some 0x30 → digits = [0x30] ∧ negative = false) ∧
    -0x8000000000000000 ≤ signedValue negative digits ∧
    signedValue negative digits ≤ 0x7fffffffffffffff

theorem integer?_signed {digits : Bytes} (hne : digits ≠ []) (hdigits : digits.AllDigits)
    (negative : Bool) :
    integer? (signed negative digits) =
      some (Int64.ofInt (clampInt64 (signedValue negative digits))) := by
  have hall : digits.all Byte.isDigit = true := List.all_eq_true.2 hdigits
  obtain ⟨b, rest, rfl⟩ := List.exists_cons_of_ne_nil hne
  have hb : Byte.isDigit b = true := hdigits b (by simp)
  rw [integer?, skipSpace_signed hb, splitSign_signed hb]
  simp only [List.isEmpty_cons, hall, Bool.not_true, Bool.or_false, Bool.false_eq_true, if_false,
    foldl_appendDigit]

end Literal

theorem decimalInt_eq_signed (i : Int) :
    decimalInt i = Literal.signed (i < 0) (decimal i.natAbs) := by
  unfold decimalInt Literal.signed
  simp

theorem signedValue_decimal (i : Int) :
    Literal.signedValue (i < 0) (decimal i.natAbs) = i := by
  unfold Literal.signedValue
  rw [digitsValue_decimal]
  simp only [decide_eq_true_eq]
  omega

theorem integer?_decimalInt (n : Int64) : Literal.integer? (decimalInt n.toInt) = some n := by
  obtain ⟨hlow, hhigh⟩ := int64_bounds n
  rw [decimalInt_eq_signed, Literal.integer?_signed (decimal_ne_nil _) (allDigits_decimal _),
    signedValue_decimal, clampInt64_of_mem hlow hhigh, Int64.ofInt_toInt]

theorem isCanonical_decimalInt (n : Int64) : Literal.IsCanonical (decimalInt n.toInt) := by
  refine ⟨n.toInt < 0, decimal n.toInt.natAbs, decimalInt_eq_signed _, decimal_ne_nil _,
    allDigits_decimal _, ?_, ?_⟩
  · intro hhead
    have hzero := head?_decimal hhead
    rw [hzero]
    exact ⟨decimal_of_lt (by omega), by simp; omega⟩
  · rw [signedValue_decimal]
    exact int64_bounds n

theorem eq_decimalInt_of_isCanonical {text : Bytes} (h : Literal.IsCanonical text) :
    ∃ n : Int64, text = decimalInt n.toInt := by
  obtain ⟨negative, digits, rfl, hne, hdigits, hzero, hlow, hhigh⟩ := h
  have hdecimal : decimal digits.digitsValue = digits :=
    decimal_digitsValue hne hdigits (fun hhead => (hzero hhead).1)
  refine ⟨Int64.ofInt (Literal.signedValue negative digits), ?_⟩
  rw [Int64.toInt_ofInt_of_le (by omega) (by omega), decimalInt_eq_signed]
  have habs : (Literal.signedValue negative digits).natAbs = digits.digitsValue := by
    unfold Literal.signedValue
    cases negative <;> simp
  have hsign : decide (Literal.signedValue negative digits < 0) = negative := by
    cases negative with
    | false => simp [Literal.signedValue]
    | true =>
        have hpos : digits.digitsValue ≠ 0 := by
          intro h0
          rw [h0, decimal_of_lt (by omega)] at hdecimal
          have := (hzero (by rw [← hdecimal]; rfl)).2
          contradiction
        simp only [Literal.signedValue, if_true, decide_eq_true_eq]
        omega
  rw [habs, hsign, hdecimal]

theorem length_decimalInt (n : Int64) : (decimalInt n.toInt).length ≤ 20 := by
  have hbounds := int64_bounds n
  have hdigits : (decimal n.toInt.natAbs).length ≤ 19 := by
    rw [length_decimal_le_iff (by omega)]
    omega
  unfold decimalInt
  split
  · simp only [List.length_cons]
    omega
  · omega

theorem nul_notMem_decimalInt (i : Int) : 0 ∉ decimalInt i := by
  have hdigits : 0 ∉ decimal i.natAbs := by
    intro hmem
    have := allDigits_decimal _ 0 hmem
    simp [Byte.isDigit] at this
  unfold decimalInt
  split
  · simp [hdigits]
  · exact hdigits

namespace Value

theorem ofBytes_of_notMem {text : Bytes} (h : 0 ∉ text) : ofBytes text = .string (.live text) := by
  have hall : ∀ b ∈ text, (b != 0) = true := by
    intro b hb
    simpa using fun heq : b = 0 => h (heq ▸ hb)
  rw [ofBytes, Text.ofBytes, List.takeWhile_eq_self_iff.2 hall]

/-- The width of a number's text leaves room for every integer. -/
theorem intText_eq (n : Int64) : intText n = decimalInt n.toInt := by
  have hlength := length_decimalInt n
  exact List.take_of_length_le (by unfold numberWidth; omega)

theorem toText_int (n : Int64) : (Value.int n).toText = .string (.live (decimalInt n.toInt)) := by
  rw [toText, render, intText_eq, ofBytes_of_notMem (nul_notMem_decimalInt _)]

/-- An integer's text has at most 20 bytes, is the same from both conversions, and gives the
integer back in both. A text comes back from the integer that is read from it exactly if it
is an integer's own spelling. -/
theorem integer_text_round_trip (n : Int64) (text : Bytes) :
    ((Value.int n).intToString = .ok (Value.int n).toText ∧
      (Value.int n).toText = .string (.live (decimalInt n.toInt)) ∧
      (decimalInt n.toInt).length ≤ 20 ∧
      (Value.int n).toText.stringToInt = .ok (.int n) ∧
      (Value.int n).toText.toInt = .int n) ∧
    ((Value.string (.live text)).toInt.toText = .string (.live text) ↔
      Literal.IsCanonical text) := by
  have hread : textInt (.live (decimalInt n.toInt)) = n := by
    rw [textInt, Text.bytes, integer?_decimalInt, Option.getD_some]
  refine ⟨⟨rfl, toText_int n, length_decimalInt n, ?_, ?_⟩, ?_, ?_⟩
  · rw [toText_int]
    exact congrArg (fun m => Except.ok (Value.int m)) hread
  · rw [toText_int]
    exact congrArg Value.int hread
  · intro h
    rw [toInt, toText_int] at h
    injection h with h
    injection h with h
    rw [← h]
    exact isCanonical_decimalInt _
  · intro h
    obtain ⟨m, rfl⟩ := eq_decimalInt_of_isCanonical h
    rw [toInt, toText_int, textInt, Text.bytes, integer?_decimalInt, Option.getD_some]

end Value

end Tagged
