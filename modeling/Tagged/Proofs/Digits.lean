import Mathlib.Data.List.Basic
import Mathlib.Data.List.Induction
import Mathlib.Tactic.Linarith
import Mathlib.Tactic.Ring
import Tagged.Byte

/-!
# Decimal digits

`decimal` writes a number and `Bytes.digitsValue` reads one. Each undoes the other, where a
text of digits has to be free of superfluous zeros, and the length of a decimal is fixed by
the powers of ten that the number lies between.
-/

namespace Tagged

namespace Byte

theorem isDigit_iff (b : UInt8) : isDigit b = true ↔ 0x30 ≤ b.toNat ∧ b.toNat ≤ 0x39 := by
  simp [isDigit, UInt8.le_iff_toNat_le]

theorem toNat_ofDigit {d : Nat} (hd : d < 10) : (ofDigit d).toNat = 0x30 + d := by
  simp only [ofDigit, Nat.toUInt8, UInt8.toNat_ofNat']
  omega

theorem isDigit_ofDigit {d : Nat} (hd : d < 10) : isDigit (ofDigit d) = true := by
  rw [isDigit_iff, toNat_ofDigit hd]
  omega

theorem digit_ofDigit {d : Nat} (hd : d < 10) : digit (ofDigit d) = d := by
  rw [digit, toNat_ofDigit hd]
  omega

theorem digit_lt {b : UInt8} (hb : isDigit b = true) : digit b < 10 := by
  have := (isDigit_iff b).1 hb
  rw [digit]
  omega

theorem ofDigit_digit {b : UInt8} (hb : isDigit b = true) : ofDigit (digit b) = b := by
  have hbounds := (isDigit_iff b).1 hb
  apply UInt8.toNat.inj
  rw [toNat_ofDigit (digit_lt hb), digit]
  omega

end Byte

namespace Bytes

def AllDigits (text : Bytes) : Prop := ∀ b ∈ text, Byte.isDigit b = true

theorem digitsValue_nil : digitsValue [] = 0 := rfl

theorem digitsValue_concat (digits : Bytes) (b : UInt8) :
    digitsValue (digits ++ [b]) = digitsValue digits * 10 + Byte.digit b := by
  simp [digitsValue]

theorem digitsValue_append (left right : Bytes) :
    digitsValue (left ++ right) =
      digitsValue left * 10 ^ right.length + digitsValue right := by
  induction right using List.reverseRecOn with
  | nil => simp [digitsValue_nil]
  | append_singleton right b ih =>
      rw [← List.append_assoc, digitsValue_concat, digitsValue_concat, ih,
        List.length_append, List.length_singleton, pow_succ]
      ring

theorem digitsValue_singleton (b : UInt8) : digitsValue [b] = Byte.digit b := by
  simp [digitsValue]

theorem digitsValue_replicate_zero (count : Nat) :
    digitsValue (List.replicate count 0x30) = 0 := by
  induction count with
  | zero => rfl
  | succ count ih =>
      rw [List.replicate_succ', digitsValue_concat, ih]
      rfl

end Bytes

theorem decimal_of_lt {n : Nat} (hn : n < 10) : decimal n = [Byte.ofDigit n] := by
  rw [decimal, if_pos hn]

theorem decimal_of_le {n : Nat} (hn : 10 ≤ n) :
    decimal n = decimal (n / 10) ++ [Byte.ofDigit (n % 10)] := by
  rw [decimal, if_neg (by omega)]

theorem decimal_ne_nil (n : Nat) : decimal n ≠ [] := by
  by_cases hn : n < 10
  · simp [decimal_of_lt hn]
  · simp [decimal_of_le (Nat.le_of_not_lt hn)]

theorem allDigits_decimal (n : Nat) : (decimal n).AllDigits := by
  induction n using Nat.strong_induction_on with
  | _ n ih =>
      intro b hb
      by_cases hn : n < 10
      · rw [decimal_of_lt hn, List.mem_singleton] at hb
        rw [hb]
        exact Byte.isDigit_ofDigit hn
      · rw [decimal_of_le (Nat.le_of_not_lt hn), List.mem_append, List.mem_singleton] at hb
        rcases hb with hb | hb
        · exact ih (n / 10) (by omega) b hb
        · rw [hb]
          exact Byte.isDigit_ofDigit (by omega)

theorem digitsValue_decimal (n : Nat) : (decimal n).digitsValue = n := by
  induction n using Nat.strong_induction_on with
  | _ n ih =>
      by_cases hn : n < 10
      · rw [decimal_of_lt hn, Bytes.digitsValue_singleton, Byte.digit_ofDigit hn]
      · rw [decimal_of_le (Nat.le_of_not_lt hn), Bytes.digitsValue_concat,
          ih (n / 10) (by omega), Byte.digit_ofDigit (by omega)]
        omega

theorem length_decimal_le_iff {n count : Nat} (hcount : 0 < count) :
    (decimal n).length ≤ count ↔ n < 10 ^ count := by
  induction count generalizing n with
  | zero => omega
  | succ count ih =>
      by_cases hn : n < 10
      · have hpow : 1 ≤ 10 ^ count := Nat.one_le_pow _ _ (by omega)
        rw [decimal_of_lt hn, pow_succ]
        simp only [List.length_singleton]
        omega
      · rw [decimal_of_le (Nat.le_of_not_lt hn), List.length_append, List.length_singleton,
          Nat.add_le_add_iff_right, pow_succ]
        cases count with
        | zero =>
            have := List.length_pos_iff.2 (decimal_ne_nil (n / 10))
            simp only [pow_zero]
            omega
        | succ count =>
            rw [ih (by omega)]
            omega

theorem length_decimal_eq {n count : Nat} (hlow : 10 ^ count ≤ n) (hhigh : n < 10 ^ (count + 1)) :
    (decimal n).length = count + 1 := by
  have hle := (length_decimal_le_iff (n := n) (Nat.succ_pos count)).2 hhigh
  have hpos := List.length_pos_iff.2 (decimal_ne_nil n)
  by_contra hne
  have hshort : (decimal n).length ≤ count := by omega
  have hcount : 0 < count := by omega
  have := (length_decimal_le_iff hcount).1 hshort
  omega

theorem exists_length_decimal {n : Nat} (hn : 0 < n) :
    ∃ count, (decimal n).length = count + 1 ∧ 10 ^ count ≤ n ∧ n < 10 ^ (count + 1) := by
  obtain ⟨count, hcount⟩ := Nat.exists_eq_add_one.2 (List.length_pos_iff.2 (decimal_ne_nil n))
  refine ⟨count, hcount, ?_, (length_decimal_le_iff (by omega)).1 hcount.le⟩
  cases count with
  | zero =>
      rw [pow_zero]
      exact hn
  | succ count =>
      by_contra hlt
      have := (length_decimal_le_iff (n := n) (by omega)).2 (Nat.lt_of_not_le hlt)
      omega

/-- A zero stands in front of a decimal only if it stands alone. -/
theorem head?_decimal {n : Nat} (h : (decimal n).head? = some 0x30) : n = 0 := by
  induction n using Nat.strong_induction_on with
  | _ n ih =>
      by_cases hn : n < 10
      · rw [decimal_of_lt hn, List.head?_cons, Option.some.injEq] at h
        have hnat := congrArg UInt8.toNat h
        rw [Byte.toNat_ofDigit hn] at hnat
        simpa using hnat
      · rw [decimal_of_le (Nat.le_of_not_lt hn),
          List.head?_append_of_ne_nil _ (decimal_ne_nil _)] at h
        have := ih (n / 10) (by omega) h
        omega

/-- Digits without a superfluous zero in front are the decimal of their value. -/
theorem decimal_digitsValue {digits : Bytes} (hne : digits ≠ []) (hdigits : digits.AllDigits)
    (hzero : digits.head? = some 0x30 → digits = [0x30]) :
    decimal digits.digitsValue = digits := by
  induction digits using List.reverseRecOn with
  | nil => exact absurd rfl hne
  | append_singleton digits b ih =>
      have hb : Byte.isDigit b = true := hdigits b (by simp)
      have hlt := Byte.digit_lt hb
      rw [Bytes.digitsValue_concat]
      by_cases hnil : digits = []
      · subst hnil
        rw [Bytes.digitsValue_nil, Nat.zero_mul, Nat.zero_add, decimal_of_lt hlt,
          Byte.ofDigit_digit hb, List.nil_append]
      · -- the digits before the last one have no superfluous zero either
        rw [List.head?_append_of_ne_nil _ hnil] at hzero
        have hlead : digits.head? ≠ some 0x30 := by
          intro hhead
          have hlength := congrArg List.length (hzero hhead)
          simp only [List.length_append, List.length_singleton] at hlength
          exact hnil (List.length_eq_zero_iff.1 (by omega))
        have hdecimal := ih hnil (fun c hc => hdigits c (by simp [hc]))
          (fun hhead => absurd hhead hlead)
        have hpos : Bytes.digitsValue digits ≠ 0 := by
          intro h0
          rw [h0, decimal_of_lt (by omega)] at hdecimal
          exact hlead (by rw [← hdecimal]; rfl)
        have hdiv : (Bytes.digitsValue digits * 10 + Byte.digit b) / 10 =
            Bytes.digitsValue digits := by omega
        have hmod : (Bytes.digitsValue digits * 10 + Byte.digit b) % 10 = Byte.digit b := by omega
        rw [decimal_of_le (by omega), hdiv, hmod, hdecimal, Byte.ofDigit_digit hb]

end Tagged
