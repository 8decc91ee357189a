import Tagged.Proofs.Binary64.Truncated
import Tagged.Proofs.IntegerFloat
import Tagged.Proofs.Literal.Faithful

/-!
# Two spellings of an integer

The decimal digits of an integer are read as the binary64 number nearest to it. Its hexadecimal
digits are read as the number nearest to what is left of it when the dropped digits are replaced by
zeros. The two differ only where a tie comes about by dropping digits.
-/

namespace Tagged.Literal

open Binary64 Bytes

/-- How many of the hexadecimal digits of a number are dropped. All others together are below
`2 ^ 63`. -/
def droppedDigits (n : Nat) : Nat := (n.log2 - 59) / 4

def kept (n : Nat) : Nat := n / 16 ^ droppedDigits n * 16 ^ droppedDigits n

theorem kept_le (n : Nat) : kept n ≤ n := Nat.div_mul_le_self _ _

theorem sixteen_pow (d : Nat) : 16 ^ d = 2 ^ (4 * d) := by
  rw [show 16 = 2 ^ 4 from rfl, pow_mul]

/-- What is left of a number is the number itself, or has 60 bits. -/
theorem kept_eq_or_le (n : Nat) : kept n = n ∨ 2 ^ 59 ≤ n / 16 ^ droppedDigits n := by
  by_cases hnone : droppedDigits n = 0
  · left
    rw [kept, hnone, pow_zero, Nat.div_one, Nat.mul_one]
  · right
    unfold droppedDigits at *
    have hne : n ≠ 0 := by
      rintro rfl
      exact hnone rfl
    rw [Nat.le_div_iff_mul_le (by positivity), sixteen_pow, ← pow_add]
    exact (Nat.pow_le_pow_right Nat.two_pos (by omega)).trans (Nat.log2_self_le hne)

theorem keeps_kept (n : Nat) : Keeps (kept n) n := by
  intro c hc hle
  rcases kept_eq_or_le n with heq | hlarge
  · rw [heq]
    exact hle
  · have hpow : (16 : ℚ) ^ droppedDigits n = 2 ^ ((4 * droppedDigits n : Nat) : Int) := by
      rw [zpow_natCast]
      exact_mod_cast sixteen_pow _
    have hlt : n < (n / 16 ^ droppedDigits n + 1) * 16 ^ droppedDigits n := by
      rw [mul_comm]
      exact Nat.lt_mul_div_succ _ (by positivity)
    have hbound : c < ((n / 16 ^ droppedDigits n : Nat) + 1) *
        2 ^ ((4 * droppedDigits n : Nat) : Int) := by
      rw [← hpow]
      exact hle.trans_lt (by exact_mod_cast hlt)
    have hkept := hc.le_of_lt ((by decide : 2 ^ 54 ≤ 2 ^ 59).trans hlarge) hbound
    rw [← hpow] at hkept
    exact_mod_cast hkept

/-- An integer is rounded before it is scaled, but not twice. -/
theorem isRounded_scale_nat {n : Nat} (hpos : 0 < n) (h : n < 2 ^ 63) (k : Nat) :
    IsRounded false (n * 2 ^ k) (scale (ofInt n) (boundExponent k)) := by
  have hscaled := isRounded_scale_boundExponent hpos h k
  rw [zpow_natCast] at hscaled
  exact (isRounded_ofNat n).of_scaled hpos (isFinite_ofInt h) hscaled

namespace HexDigits

theorem Reads.dropped_eq {h : HexDigits} {number places dropped : Nat}
    (hr : h.Reads number places dropped) : dropped = droppedDigits number := by
  have hlt := hr.significand_lt
  have hlimit := hr.limit_le
  rw [hr.significand] at hlt hlimit
  rw [Nat.div_lt_iff_lt_mul (by positivity), sixteen_pow, ← pow_add] at hlt
  unfold droppedDigits
  by_cases hnone : dropped = 0
  · have hlog : number.log2 < 63 + 4 * dropped := by
      by_cases hzero : number = 0
      · rw [hzero]
        exact Nat.lt_of_lt_of_le (by decide : Nat.log2 0 < 63) (Nat.le_add_right _ _)
      · exact (Nat.log2_lt hzero).2 hlt
    omega
  · have hge := hlimit hnone
    rw [Nat.le_div_iff_mul_le (by positivity), sixteen_pow, show limit = 2 ^ 59 from rfl,
      ← pow_add] at hge
    have hne : number ≠ 0 := by
      have := Nat.two_pow_pos (59 + 4 * dropped)
      omega
    have hlow := (Nat.le_log2 hne).2 hge
    have hhigh := (Nat.log2_lt hne).2 hlt
    omega

/-- Digits without a point are read as the number nearest to what is left of their value. -/
theorem isRounded_ofParts {digits : Bytes} (hdigits : ∀ b ∈ digits, Byte.isHexDigit b = true) :
    IsRounded false (kept (hexValue digits)) (ofParts digits none) := by
  obtain ⟨dropped, hreads⟩ := exists_reads_digits hdigits
  have hdropped := hreads.dropped_eq
  obtain ⟨hsignificand, hexponent, hlt, -⟩ := hreads
  rw [Nat.cast_zero, mul_zero, sub_zero] at hexponent
  have hkept : kept (hexValue digits) =
      (digits.foldl read {}).significand * 2 ^ (4 * dropped) := by
    rw [hsignificand, kept, ← hdropped, sixteen_pow]
  have hcast : (4 * dropped : Int) = (4 * dropped : Nat) := by push_cast; rfl
  rw [ofParts, hkept, hexponent, hcast]
  generalize (digits.foldl read {}).significand = n at *
  rcases Nat.eq_zero_or_pos n with rfl | hpos
  · -- no digit is dropped behind zeros
    have hnone : dropped = 0 := by
      rcases kept_eq_or_le (hexValue digits) with heq | hlarge
      · rw [hdropped, droppedDigits, ← heq, hkept, Nat.zero_mul]
        rfl
      · rw [← hdropped, ← hsignificand] at hlarge
        exact absurd hlarge (by decide)
    have hzero : ofInt (0 : Nat) = zero false := ofRatio_zero false Nat.one_pos
    rw [hnone, hzero, scale_zero false (fitsInt32_boundExponent _), if_neg (by decide),
      Nat.zero_mul, Nat.cast_zero]
    exact isRounded_zero false le_rfl (by rw [zero_mul]; exact one_half_pos)
  · rw [Nat.cast_mul, Nat.cast_pow, Nat.cast_ofNat]
    exact isRounded_scale_nat hpos hlt (4 * dropped)

end HexDigits

theorem isRounded_floatValue_hexadecimal {digits : Bytes} (hne : digits ≠ [])
    (hdigits : ∀ b ∈ digits, Byte.isHexDigit b = true) :
    IsRounded false (kept (hexValue digits)) (floatValue (0x30 :: 0x78 :: digits)) := by
  have hread := markedHexadecimal?_plain (x := 0x78) rfl (.whole hne hdigits)
  have hvalue : floatValue (0x30 :: 0x78 :: digits) = HexDigits.ofParts digits none := by
    rw [floatValue, skipSpace_of_isDigit rfl, float?, splitSign_of_isDigit rfl]
    simp [hread]
  rw [hvalue]
  exact HexDigits.isRounded_ofParts hdigits

theorem isRounded_floatValue_decimal (n : Nat) : IsRounded false n (floatValue (decimal n)) := by
  obtain ⟨b, rest, hcons⟩ := List.exists_cons_of_ne_nil (decimal_ne_nil n)
  have hdigits := allDigits_decimal n
  have hb : Byte.isDigit b = true := by
    rw [hcons] at hdigits
    exact hdigits b (by simp)
  have hskip : skipSpace (decimal n) = decimal n := by
    rw [hcons, skipSpace_of_isDigit hb]
  have hsplit : splitSign (decimal n) = (false, decimal n) := by
    rw [hcons, splitSign_of_isDigit hb]
  have hvalue : floatValue (decimal n) = ofDecimal false n 0 := by
    rw [floatValue, hskip, float?_of_allDigits] <;> rw [hsplit]
    · rw [digitsValue_decimal]
    · exact decimal_ne_nil n
    · exact hdigits
  have hrounded := isRounded_ofRatio false n Nat.one_pos
  rw [Nat.cast_one, div_one] at hrounded
  rw [hvalue, ofDecimal_zero_exponent]
  exact hrounded

/-- The decimal digits of an integer are read as the number nearest to it, or as infinity if it is
too large. Its hexadecimal digits are read as the same number, unless some of the digits that are
dropped are not zero and the rest lies halfway above an even number. Then they are read as this
number, and the decimal digits as the next one. -/
theorem hexadecimal_agrees_with_decimal {n : Nat} {digits : Bytes} (hne : digits ≠ [])
    (hdigits : ∀ b ∈ digits, Byte.isHexDigit b = true) (hvalue : hexValue digits = n) :
    (floatValue (decimal n)).negative = false ∧ (floatValue (decimal n)).IsNearest n ∧
      ((floatValue (decimal n)).isFinite = true ↔ n < overflowBound) ∧
      ((∀ x : Binary64, x.negative = false → x.IsEvenTie (kept n) → kept n = n) →
        floatValue (0x30 :: 0x78 :: digits) = floatValue (decimal n)) ∧
      ∀ x : Binary64, x.negative = false → x.IsEvenTie (kept n) → kept n ≠ n →
        floatValue (0x30 :: 0x78 :: digits) = x ∧ floatValue (decimal n) = x.next := by
  subst hvalue
  have hhex := isRounded_floatValue_hexadecimal hne hdigits
  have hdecimal := isRounded_floatValue_decimal (hexValue digits)
  have hle := kept_le (hexValue digits)
  obtain ⟨hsame, hlost⟩ := hhex.truncated hdecimal (by exact_mod_cast hle) (keeps_kept _)
  refine ⟨hdecimal.negative_eq, hdecimal.isNearest, hdecimal.isFinite_iff,
    fun hnone => hsame fun x hx htie hlt => ?_, fun x hx htie hkept => hlost x hx htie ?_⟩
  · rw [hnone x hx htie] at hlt
    exact lt_irrefl _ hlt
  · exact_mod_cast lt_of_le_of_ne hle hkept

/-- The last digit of `2 ^ 65 + 2 ^ 12 + 1` is dropped, which leaves a tie. -/
theorem dropped_digit_is_lost :
    let digits := ascii "20000000000001001"
    let x : Binary64 := ⟨false, 0x4400000000000000, by decide⟩
    (∀ b ∈ digits, Byte.isHexDigit b = true) ∧ hexValue digits = 36893488147419107329 ∧
      x.IsEvenTie (kept 36893488147419107329) ∧
      floatValue (0x30 :: 0x78 :: digits) = x ∧
      floatValue (decimal 36893488147419107329) = x.next := by
  intro digits x
  have hdigits : ∀ b ∈ digits, Byte.isHexDigit b = true := by decide +kernel
  have hvalue : hexValue digits = 36893488147419107329 := by decide +kernel
  have hkept : kept 36893488147419107329 = 2 ^ 65 + 2 ^ 12 := by decide +kernel
  have htie : x.IsEvenTie (kept 36893488147419107329) := by
    have hunits : 2 * (2 ^ 65 + 2 ^ 12) * unit = x.units + x.next.units := by decide +kernel
    refine ⟨rfl, by decide, ?_⟩
    rw [hkept, absValue, absValue, ← add_div, eq_div_iff cast_unit_pos.ne']
    exact_mod_cast hunits
  obtain ⟨-, -, -, -, hlost⟩ := hexadecimal_agrees_with_decimal (by decide) hdigits hvalue
  exact ⟨hdigits, hvalue, htie, hlost x rfl htie (by decide +kernel)⟩

theorem hexadecimal_differs_from_decimal :
    hexValue (ascii "20000000000001001") = 36893488147419107329 ∧
      floatValue (ascii "0x20000000000001001") ≠ floatValue (decimal 36893488147419107329) := by
  decide +kernel

end Tagged.Literal
