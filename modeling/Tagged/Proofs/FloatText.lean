import Tagged.Proofs.Binary64.Kinds
import Tagged.Proofs.Binary64.Rounding
import Tagged.Proofs.Decimal.GeneralText
import Tagged.Proofs.IntegerText

/-!
# Floats and their texts

The text of a float is read whole by the float parser. For every number but the subnormal
ones the number that is read has the same text again: its error is far below the sixth
digit, at powers of ten and at both ends of the range too.
-/

namespace Tagged

namespace Binary64

open Decimal

def significant (x : Binary64) : Significant := .ofRatio x.units unit

theorem significant_of_isZero {x : Binary64} (h : x.isZero = true) : x.significant = ⟨0, 0⟩ := by
  rw [significant, Significant.ofRatio, units_of_isZero h, if_pos rfl]

theorem significant_spec {x : Binary64} (h : x.isZero = false) :
    10 ^ 5 ≤ x.significant.digits ∧ x.significant.digits < 10 ^ 6 ∧
      |x.significant.value - x.absValue| ≤ 10 ^ (x.significant.exponent - 5) / 2 := by
  exact Significant.ofRatio_spec (units_pos h) unit_pos

theorem absValue_bounds {x : Binary64} (h : x.isZero = false) :
    (10 ^ 5 - 1 / 2) * (10 : ℚ) ^ (x.significant.exponent - 5) ≤ x.absValue ∧
      x.absValue < 10 ^ 6 * (10 : ℚ) ^ (x.significant.exponent - 5) := by
  obtain ⟨hlow, hhigh, herror⟩ := significant_spec h
  have hpos : (0 : ℚ) < 10 ^ (x.significant.exponent - 5) := by positivity
  have hlowq : (10 ^ 5 : ℚ) ≤ x.significant.digits := by exact_mod_cast hlow
  have hhighq : (x.significant.digits : ℚ) + 1 ≤ 10 ^ 6 := by exact_mod_cast hhigh
  rw [Significant.value, abs_le] at herror
  generalize (10 : ℚ) ^ (x.significant.exponent - 5) = p at *
  have h₁ := mul_le_mul_of_nonneg_right hlowq hpos.le
  have h₂ := mul_le_mul_of_nonneg_right hhighq hpos.le
  constructor <;> linarith [herror.1, herror.2]

/-! ## The range of exponents -/

theorem two_pow_lt_six_digits : (2 : ℚ) ^ 1024 * 2 < 359539 * 10 ^ 303 := by
  have h : 2 ^ 1024 * 2 < 359539 * 10 ^ 303 := by decide +kernel
  have hq : ((2 ^ 1024 * 2 : Nat) : ℚ) < ((359539 * 10 ^ 303 : Nat) : ℚ) := Nat.cast_lt.2 h
  rwa [Nat.cast_mul, Nat.cast_mul, Nat.cast_pow, Nat.cast_pow, Nat.cast_ofNat, Nat.cast_ofNat,
    Nat.cast_ofNat] at hq

theorem six_digits_lt_overflowBound : (179769 : ℚ) * 10 ^ 303 < overflowBound := by
  have h : 2 * (179769 * 10 ^ 303) < (2 ^ 54 - 1) * 2 ^ 971 := by decide +kernel
  have hq : ((2 * (179769 * 10 ^ 303) : Nat) : ℚ) < (((2 ^ 54 - 1) * 2 ^ 971 : Nat) : ℚ) :=
    Nat.cast_lt.2 h
  rw [Nat.cast_mul, Nat.cast_mul, Nat.cast_mul, Nat.cast_pow 2 971, Nat.cast_pow 10 303,
    Nat.cast_ofNat, Nat.cast_ofNat, Nat.cast_ofNat] at hq
  unfold overflowBound binade
  generalize (2 : ℚ) ^ 971 = p at *
  generalize (10 : ℚ) ^ 303 = t at *
  norm_num at hq ⊢
  linarith

theorem ten_zpow_le_one_div_unit : (10 : ℚ) ^ (-324 : ℤ) ≤ 1 / (unit : ℚ) := by
  have h : 2 ^ 1074 ≤ 10 ^ 324 := by decide +kernel
  have hq : ((2 ^ 1074 : Nat) : ℚ) ≤ ((10 ^ 324 : Nat) : ℚ) := Nat.cast_le.2 h
  rw [← unit_eq, Nat.cast_pow, Nat.cast_ofNat] at hq
  rw [zpow_neg, ← one_div]
  exact one_div_le_one_div_of_le cast_unit_pos hq

theorem significant_exponent_le {x : Binary64} (hfinite : x.isFinite = true)
    (h : x.isZero = false) : x.significant.exponent ≤ 308 := by
  by_contra hlarge
  have hlow := (absValue_bounds h).1
  have hrange := absValue_lt hfinite
  have htop := two_pow_lt_six_digits
  have hp : (10 : ℚ) ^ (304 : ℤ) ≤ 10 ^ (x.significant.exponent - 5) :=
    zpow_le_zpow_right₀ (by norm_num) (by omega)
  rw [show (304 : ℤ) = (303 : ℕ) + 1 from rfl, zpow_add₀ (by norm_num), zpow_natCast,
    zpow_one] at hp
  have hpos : (0 : ℚ) < 10 ^ 303 := by positivity
  generalize (10 : ℚ) ^ 303 = t at *
  generalize (2 : ℚ) ^ 1024 = u at *
  linarith

/-- What is written of a finite number is still below the overflow bound: at the top of the
range the six digits are at most `179769`. -/
theorem significant_value_le {x : Binary64} (hfinite : x.isFinite = true)
    (h : x.isZero = false) : x.significant.value ≤ 179769 * 10 ^ 303 := by
  obtain ⟨hlow, hhigh, herror⟩ := significant_spec h
  have hexponent := significant_exponent_le hfinite h
  have hpos : (0 : ℚ) < 10 ^ 303 := by positivity
  rw [Significant.value] at herror ⊢
  -- below the last decade any six digits are small enough; in it the range bounds the digits
  rcases (show x.significant.exponent ≤ 307 ∨ x.significant.exponent = 308 by omega)
    with hsmall | htop
  · have hp : (10 : ℚ) ^ (x.significant.exponent - 5) ≤ 10 ^ (302 : ℤ) :=
      zpow_le_zpow_right₀ (by norm_num) (by omega)
    have hten : (10 : ℚ) ^ (302 : ℤ) * 10 = 10 ^ 303 := by
      rw [← zpow_add_one₀ (by norm_num), ← zpow_natCast]
      rfl
    have hdigits : (x.significant.digits : ℚ) ≤ 10 ^ 6 := by exact_mod_cast hhigh.le
    have hq : (0 : ℚ) < 10 ^ (302 : ℤ) := by positivity
    refine (mul_le_mul hdigits hp (by positivity) (by positivity)).trans ?_
    rw [← hten]
    generalize (10 : ℚ) ^ (302 : ℤ) = q at hq ⊢
    linarith only [hq]
  · have hp : (10 : ℚ) ^ (x.significant.exponent - 5) = 10 ^ 303 := by
      rw [htop, ← zpow_natCast]
      rfl
    have hrange := absValue_lt hfinite
    have hbound := two_pow_lt_six_digits
    rw [hp, abs_le] at herror
    rw [hp]
    generalize (10 : ℚ) ^ 303 = t at *
    generalize (2 : ℚ) ^ 1024 = u at *
    have hlt : (x.significant.digits : ℚ) < 179770 := by
      refine lt_of_mul_lt_mul_right ?_ hpos.le
      linarith [herror.2]
    have hle : (x.significant.digits : ℚ) ≤ 179769 := by
      have : x.significant.digits < 179770 := by exact_mod_cast hlt
      exact_mod_cast Nat.le_of_lt_succ this
    exact mul_le_mul_of_nonneg_right hle hpos.le

theorem neg_le_significant_exponent {x : Binary64} (h : x.isZero = false) :
    -324 ≤ x.significant.exponent := by
  have hten : (10 : ℚ) ^ (-324 : ℤ) < 10 ^ (x.significant.exponent + 1) := by
    calc
      (10 : ℚ) ^ (-324 : ℤ) ≤ x.absValue :=
        ten_zpow_le_one_div_unit.trans (one_div_unit_le_absValue h)
      _ < 10 ^ 6 * 10 ^ (x.significant.exponent - 5) := (absValue_bounds h).2
      _ = 10 ^ (x.significant.exponent + 1) := by
        rw [← Decimal.ten_zpow_add_nat]
        congr 1
        omega
  have := (zpow_lt_zpow_iff_right₀ (by norm_num : (1 : ℚ) < 10)).1 hten
  omega

theorem significant_range {x : Binary64} (hfinite : x.isFinite = true) :
    x.significant.digits < 10 ^ 6 ∧ x.significant.exponent.natAbs < 1000 := by
  cases h : x.isZero with
  | true =>
      rw [significant_of_isZero h]
      decide
  | false =>
      have hlow := neg_le_significant_exponent h
      have hhigh := significant_exponent_le hfinite h
      exact ⟨(significant_spec h).2.1, by omega⟩

/-! ## Reading a number's text -/

theorem general_of_isFinite {x : Binary64} (h : x.isFinite = true) :
    x.general = Literal.signed x.negative x.significant.parts.text := by
  obtain ⟨hnan, hinfinite⟩ := kind_of_isFinite h
  rw [← Significant.general_eq_text]
  simp [general, hnan, hinfinite, Literal.signed, significant]

def reread (x : Binary64) : Binary64 := x.significant.parts.numeral.value x.negative

theorem float?_general_of_isFinite {x : Binary64} (h : x.isFinite = true) :
    Literal.float? x.general = some (x.reread, []) := by
  obtain ⟨hdigits, hexponent⟩ := significant_range h
  rw [general_of_isFinite h, reread]
  apply Parts.float?_signed_text (Significant.parts_wellFormed hdigits)
  intro e he
  rwa [Significant.parts_exponent he]

theorem negative_ofDecimal (negative : Bool) (significand : Nat) (exponent : Int) :
    (ofDecimal negative significand exponent).negative = negative := by
  unfold ofDecimal
  split <;> rfl

theorem negative_reread (x : Binary64) : x.reread.negative = x.negative := by
  obtain ⟨significand, exponent, hvalue, -⟩ :=
    Parts.value_numeral x.significant.parts x.negative
  rw [reread, hvalue, negative_ofDecimal]

theorem reread_of_isZero {x : Binary64} (h : x.isZero = true) : x.reread = zero x.negative := by
  rw [reread, significant_of_isZero h]
  cases x.negative <;> decide +kernel

/-- The digits of a finite number do not overflow, so only the rounding of the reader
separates them from the number that is read. -/
theorem reread_spec {x : Binary64} (hfinite : x.isFinite = true) (h : x.isZero = false) :
    x.reread.isFinite = true ∧
      |x.reread.absValue - x.significant.value| ≤
        Max.max (1 / (unit : ℚ)) (x.significant.value / 2 ^ 52) / 2 := by
  obtain ⟨hlow, hhigh, -⟩ := significant_spec h
  obtain ⟨significand, exponent, hreread, hvalue⟩ :=
    Parts.value_numeral x.significant.parts x.negative
  rw [Significant.value_parts hlow hhigh] at hvalue
  rw [reread, hreread, ← hvalue]
  apply ofDecimal_of_lt_overflowBound
  rw [hvalue]
  exact (significant_value_le hfinite h).trans_lt six_digits_lt_overflowBound

/-! ## Normal numbers -/

/-- A finite number whose significand has all of its 53 bits. -/
def IsNormal (x : Binary64) : Prop := x.isFinite = true ∧ (2 : ℚ) ^ (-1022 : ℤ) ≤ x.absValue

theorem IsNormal.isZero_eq_false {x : Binary64} (h : x.IsNormal) : x.isZero = false :=
  isZero_eq_false_of_absValue_pos (lt_of_lt_of_le (by positivity) h.2)

theorem two_zpow_eq : (2 : ℚ) ^ (-1022 : ℤ) = 2 ^ 52 * (1 / (unit : ℚ)) := by
  rw [unit_eq, Nat.cast_pow, Nat.cast_ofNat, one_div, ← zpow_natCast, ← zpow_natCast,
    ← zpow_neg, ← zpow_add₀ (by norm_num)]
  rfl

theorem isNormal_of_binade_le {x : Binary64} (hfinite : x.isFinite = true)
    (h : binade ≤ x.magnitude) : x.IsNormal := by
  refine ⟨hfinite, ?_⟩
  have hunits : binade ≤ x.units := by
    unfold units patternUnits
    split
    · exact h
    · exact Nat.le_trans (Nat.le_add_right _ _) (Nat.le_mul_of_pos_right _ (Nat.pow_pos (by omega)))
  have hunitsq : (2 : ℚ) ^ 52 ≤ x.units := by exact_mod_cast hunits
  rw [two_zpow_eq, absValue, mul_one_div]
  exact div_le_div_of_nonneg_right hunitsq (Nat.cast_nonneg _)

theorem abs_significant_value_sub_le {x : Binary64} (h : x.isZero = false) :
    |x.significant.value - x.absValue| ≤ x.absValue / (2 * 10 ^ 5 - 1) := by
  have herror := (significant_spec h).2.2
  have hlow := (absValue_bounds h).1
  generalize (10 : ℚ) ^ (x.significant.exponent - 5) = p at *
  refine herror.trans ?_
  rw [le_div_iff₀ (by norm_num)]
  linarith only [hlow]

theorem IsNormal.abs_reread_sub_le {x : Binary64} (h : x.IsNormal) :
    |x.reread.absValue - x.significant.value| ≤ x.significant.value / 2 ^ 52 := by
  have hzero := h.isZero_eq_false
  have hround := (reread_spec h.1 hzero).2
  have hunit := h.2
  rw [two_zpow_eq] at hunit
  have hdigits := (abs_le.1 (abs_significant_value_sub_le hzero)).1
  have hpos : 0 ≤ 1 / (unit : ℚ) := by positivity
  generalize 1 / (unit : ℚ) = u at *
  -- a unit is at most one part in `2 ^ 51` of the digits, as these are more than half of `x`
  refine hround.trans ?_
  rw [div_le_iff₀ (by norm_num)]
  apply max_le <;> linarith only [hunit, hdigits, hpos]

/-- The number that is read has the same six digits. The error stays below a twentieth of the
last digit, which also settles a number just below a power of ten, where a digit is worth a
tenth of what it is worth above. -/
theorem IsNormal.significant_reread {x : Binary64} (h : x.IsNormal) :
    x.reread.significant = x.significant := by
  have hzero := h.isZero_eq_false
  obtain ⟨hlow, hhigh, -⟩ := significant_spec hzero
  have hclose := h.abs_reread_sub_le
  have hvalue : 0 < x.significant.value := by
    rw [Significant.value]
    have : (0 : ℚ) < x.significant.digits := by exact_mod_cast lt_of_lt_of_le (by norm_num) hlow
    positivity
  have hpos : 0 < x.reread.absValue := by
    linarith [(abs_le.1 hclose).1]
  apply Significant.ofRatio_eq_of_close (units_pos (isZero_eq_false_of_absValue_pos hpos))
    unit_pos hlow hhigh
  refine hclose.trans_lt ?_
  have hhighq : (x.significant.digits : ℚ) < 10 ^ 6 := by exact_mod_cast hhigh
  have hp : (0 : ℚ) < 10 ^ (x.significant.exponent - 5) := by positivity
  have hbound := mul_lt_mul_of_pos_right hhighq hp
  rw [Significant.value]
  generalize (x.significant.digits : ℚ) * 10 ^ (x.significant.exponent - 5) = d at *
  generalize (10 : ℚ) ^ (x.significant.exponent - 5) = p at *
  linarith only [hbound, hp]

/-! ## Every number's text -/

theorem general_of_isNaN {x : Binary64} (h : x.isNaN = true) :
    x.general = Literal.signed x.negative (ascii "nan") := by
  simp [general, h, Literal.signed]

theorem general_of_isInfinite {x : Binary64} (h : x.isInfinite = true) :
    x.general = Literal.signed x.negative (ascii "inf") := by
  have hmagnitude : x.magnitude = infinityPattern := by simpa [isInfinite] using h
  have hnan : x.isNaN = false := decide_eq_false (by omega)
  simp [general, h, hnan, Literal.signed]

theorem isFinite_or (x : Binary64) :
    x.isFinite = true ∨ x.isInfinite = true ∨ x.isNaN = true := by
  simp only [isFinite, isInfinite, isNaN, decide_eq_true_eq, beq_iff_eq]
  omega

theorem general_spec (x : Binary64) :
    x.general.length ≤ Value.numberWidth ∧ 0 ∉ x.general ∧
      Bytes.skipSpace x.general = x.general := by
  obtain h | h | h := x.isFinite_or
  · obtain ⟨hdigits, hexponent⟩ := significant_range h
    have hwellFormed := Significant.parts_wellFormed hdigits
    have hlength := Significant.length_general_le hdigits hexponent
    rw [Significant.general_eq_text] at hlength
    have hnul : 0 ∉ x.significant.parts.text := fun hmem =>
      (ne_of_isLiteralByte (Parts.isLiteralByte_of_mem_text hwellFormed 0 hmem)).1 rfl
    obtain ⟨b, rest, htext, hb⟩ := Parts.exists_text_eq_cons hwellFormed
    rw [general_of_isFinite h]
    refine ⟨?_, ?_, ?_⟩
    · cases x.negative <;> simp [Literal.signed, Value.numberWidth] <;> omega
    · cases x.negative <;> simp [Literal.signed, hnul]
    · rw [htext, Literal.skipSpace_signed hb]
  · rw [general_of_isInfinite h]
    cases x.negative <;> decide
  · rw [general_of_isNaN h]
    cases x.negative <;> decide

/-- What is left of a number when its text is read: its sign and its kind, and its size up to
one part in `10 ^ 5`. -/
structure ReadsAs (x y : Binary64) : Prop where
  negative : y.negative = x.negative
  isNaN : y.isNaN = x.isNaN
  isInfinite : y.isInfinite = x.isInfinite
  close : x.isFinite = true → |y.absValue - x.absValue| ≤ x.absValue / 10 ^ 5

theorem ReadsAs.of_isFinite {x y : Binary64} (hx : x.isFinite = true) (hy : y.isFinite = true)
    (hnegative : y.negative = x.negative)
    (hclose : |y.absValue - x.absValue| ≤ x.absValue / 10 ^ 5) : x.ReadsAs y where
  negative := hnegative
  isNaN := by rw [(kind_of_isFinite hx).1, (kind_of_isFinite hy).1]
  isInfinite := by rw [(kind_of_isFinite hx).2, (kind_of_isFinite hy).2]
  close _ := hclose

theorem general_congr {x y : Binary64} (hx : x.isFinite = true) (hy : y.isFinite = true)
    (hnegative : y.negative = x.negative) (hdigits : y.significant = x.significant) :
    y.general = x.general := by
  rw [general_of_isFinite hx, general_of_isFinite hy, hnegative, hdigits]

theorem readsAs_zero {x : Binary64} (h : x.isZero = true) :
    x.isFinite = true ∧ x.ReadsAs x.reread ∧ x.reread.general = x.general := by
  have hmagnitude : x.magnitude = 0 := by simpa [isZero] using h
  have hfinite : x.isFinite = true := decide_eq_true (by rw [hmagnitude]; decide)
  have hzero : (zero x.negative).isZero = true := rfl
  rw [reread_of_isZero h]
  refine ⟨hfinite, .of_isFinite hfinite rfl rfl ?_, general_congr hfinite rfl rfl ?_⟩
  · rw [absValue, absValue, units_of_isZero h, units_of_isZero hzero, sub_self, abs_zero,
      Nat.cast_zero, zero_div, zero_div]
  · rw [significant_of_isZero h, significant_of_isZero hzero]

theorem IsNormal.readsAs {x : Binary64} (h : x.IsNormal) :
    x.ReadsAs x.reread ∧ x.reread.general = x.general := by
  have hzero := h.isZero_eq_false
  have hfinite := (reread_spec h.1 hzero).1
  refine ⟨.of_isFinite h.1 hfinite x.negative_reread ?_,
    general_congr h.1 hfinite x.negative_reread h.significant_reread⟩
  obtain ⟨hreadLow, hreadHigh⟩ := abs_le.1 h.abs_reread_sub_le
  obtain ⟨hdigitsLow, hdigitsHigh⟩ := abs_le.1 (abs_significant_value_sub_le hzero)
  have hpos : 0 < x.absValue := lt_of_lt_of_le (by positivity) h.2
  rw [abs_le]
  constructor <;> linarith only [hreadLow, hreadHigh, hdigitsLow, hdigitsHigh, hpos]

theorem reading_of_isInfinite {x : Binary64} (h : x.isInfinite = true) :
    Literal.float? x.general = some (infinity x.negative, []) ∧ x.ReadsAs (infinity x.negative) ∧
      (infinity x.negative).general = x.general := by
  have hmagnitude : x.magnitude = infinityPattern := by simpa [isInfinite] using h
  refine ⟨?_, ⟨rfl, ?_, h.symm, ?_⟩, ?_⟩
  · rw [general_of_isInfinite h]
    cases x.negative <;> decide
  · rw [isNaN, isNaN, hmagnitude, infinity]
  · intro hfinite
    rw [(kind_of_isFinite hfinite).2] at h
    cases h
  · rw [general_of_isInfinite h, general_of_isInfinite rfl, infinity]

theorem reading_of_isNaN {x : Binary64} (h : x.isNaN = true) :
    Literal.float? x.general = some (nan x.negative, []) ∧ x.ReadsAs (nan x.negative) ∧
      (nan x.negative).general = x.general := by
  have hmagnitude : infinityPattern < x.magnitude := of_decide_eq_true h
  refine ⟨?_, ⟨rfl, h.symm, ?_, ?_⟩, ?_⟩
  · rw [general_of_isNaN h]
    cases x.negative <;> decide
  · exact (beq_false_of_ne (by omega)).symm
  · intro hfinite
    rw [(kind_of_isFinite hfinite).1] at h
    cases h
  · rw [general_of_isNaN h, general_of_isNaN rfl, nan]

end Binary64

namespace Value

theorem toText_float (x : Binary64) : (Value.float x).toText = .string (.live x.general) := by
  obtain ⟨hlength, hnul, -⟩ := x.general_spec
  rw [toText, render, List.take_of_length_le hlength, ofBytes_of_notMem hnul]

theorem toFloat_toText_float {x y : Binary64} {rest : Bytes}
    (h : Literal.float? x.general = some (y, rest)) :
    (Value.float x).toText.toFloat = .float y := by
  rw [toText_float]
  simp only [toFloat, Text.bytes, Literal.floatValue, x.general_spec.2.2, h]

/-- The text of a zero, an infinity, a NaN or a normal number is read whole, as a number of the
same sign, kind and size, and that number has the same text. -/
theorem float_text_stable (x : Binary64)
    (h : x.isZero = true ∨ x.isInfinite = true ∨ x.isNaN = true ∨ x.IsNormal) :
    (∃ y, Literal.float? x.general = some (y, []) ∧ x.ReadsAs y) ∧
      (Value.float x).toText.toFloat.toText = (Value.float x).toText := by
  obtain ⟨y, hread, hreads, hgeneral⟩ : ∃ y, Literal.float? x.general = some (y, []) ∧
      x.ReadsAs y ∧ y.general = x.general := by
    obtain hzero | hinfinite | hnan | hnormal := h
    · have hreading := Binary64.readsAs_zero hzero
      exact ⟨_, Binary64.float?_general_of_isFinite hreading.1, hreading.2⟩
    · exact ⟨_, Binary64.reading_of_isInfinite hinfinite⟩
    · exact ⟨_, Binary64.reading_of_isNaN hnan⟩
    · exact ⟨_, Binary64.float?_general_of_isFinite hnormal.1, hnormal.readsAs⟩
  refine ⟨⟨y, hread, hreads⟩, ?_⟩
  rw [toFloat_toText_float hread, toText_float, toText_float, hgeneral]

/-- The largest finite number, where the six digits leave least room below infinity. -/
theorem largest_float_text_stable :
    let x : Binary64 := ⟨false, 0x7fefffffffffffff, by decide⟩
    x.IsNormal ∧ x.general = ascii "1.79769e+308" ∧
      (∃ y, Literal.float? x.general = some (y, []) ∧ x.ReadsAs y) ∧
      (Value.float x).toText.toFloat.toText = (Value.float x).toText := by
  have hnormal := Binary64.isNormal_of_binade_le
    (x := ⟨false, 0x7fefffffffffffff, by decide⟩) (by decide) (by decide)
  exact ⟨hnormal, by decide +kernel, float_text_stable _ (.inr (.inr (.inr hnormal)))⟩

-- A subnormal number's text need not be stable: this one is written `1e-318`, which is read as
-- the number below it, and that is written `9.99999e-319`.
example :
    let x : Binary64 := ⟨false, 202403, by decide⟩
    (Value.float x).toText.toFloat.toText ≠ (Value.float x).toText := by
  decide +kernel

end Value

end Tagged
