import Mathlib.Algebra.Order.Floor.Ring
import Mathlib.Data.Rat.Floor
import Tagged.Proofs.Binary64.Neighbours

/-!
# Exact values

The rational number that a bit pattern stands for, with its sign. Numbers compare as their values
do. An integer is rounded to the number nearest to it among all numbers of either sign, and this
alone makes the rounding of integers monotone.
-/

namespace Tagged.Binary64

/-- The value of a finite number. Infinity counts as the power of two that would come next. -/
def value (x : Binary64) : ℚ := if x.negative then -x.absValue else x.absValue

theorem absValue_nonneg (x : Binary64) : 0 ≤ x.absValue :=
  div_nonneg (Nat.cast_nonneg _) cast_unit_pos.le

theorem abs_value (x : Binary64) : |x.value| = x.absValue := by
  unfold value
  split
  · rw [abs_neg, abs_of_nonneg x.absValue_nonneg]
  · exact abs_of_nonneg x.absValue_nonneg

/-! ## Fields -/

def exponentField (bits : UInt64) : Nat := bits.toNat / 2 ^ 52 % 2 ^ 11

def fractionField (bits : UInt64) : Nat := bits.toNat % 2 ^ 52

def fieldsValue (bits : UInt64) : ℚ :=
  (if 2 ^ 63 ≤ bits.toNat then -1 else 1) *
    if exponentField bits = 0 then (fractionField bits : ℚ) * (2 : ℚ) ^ (-1074 : Int)
    else (2 ^ 52 + fractionField bits : ℚ) * (2 : ℚ) ^ ((exponentField bits : Int) - 1075)

theorem fractionField_lt (bits : UInt64) : fractionField bits < binade :=
  Nat.mod_lt _ (by decide)

theorem ofBits_magnitude (bits : UInt64) :
    (ofBits bits).magnitude = exponentField bits * binade + fractionField bits := by
  have hmagnitude : (ofBits bits).magnitude = bits.toNat % 2 ^ 63 := rfl
  rw [hmagnitude]
  unfold exponentField fractionField binade
  omega

theorem absValue_ofBits (bits : UInt64) :
    (ofBits bits).absValue =
      if exponentField bits = 0 then (fractionField bits : ℚ) * (2 : ℚ) ^ (-1074 : Int)
      else (2 ^ 52 + fractionField bits : ℚ) * (2 : ℚ) ^ ((exponentField bits : Int) - 1075) := by
  have hfraction := fractionField_lt bits
  rw [absValue, units, ofBits_magnitude, div_unit]
  split
  next hzero =>
    rw [hzero, patternUnits_add (.inl rfl) (by omega), pow_zero, Nat.mul_one]
  next hexponent =>
    obtain ⟨e, he⟩ := Nat.exists_eq_succ_of_ne_zero hexponent
    have hpattern : exponentField bits * binade + fractionField bits =
        e * binade + (binade + fractionField bits) := by
      rw [he, Nat.succ_mul, Nat.add_assoc]
    have hbinade : (binade : ℚ) = 2 ^ 52 := by norm_num [binade]
    have hpower : (2 : ℚ) ^ ((exponentField bits : Int) - 1075) = 2 ^ e * 2 ^ (-1074 : Int) := by
      rw [he, ← zpow_natCast, ← zpow_add₀ (two_ne_zero' ℚ)]
      congr 1
      omega
    rw [hpattern, patternUnits_add (.inr (by omega)) (by omega), Nat.cast_mul, Nat.cast_add,
      hbinade, Nat.cast_pow, Nat.cast_ofNat, hpower, mul_assoc]

theorem value_ofBits (bits : UInt64) : (ofBits bits).value = fieldsValue bits := by
  have hsign : (ofBits bits).negative = decide (2 ^ 63 ≤ bits.toNat) := rfl
  rw [value, fieldsValue, ← absValue_ofBits, hsign]
  by_cases hnegative : 2 ^ 63 ≤ bits.toNat
  · rw [if_pos (decide_eq_true hnegative), if_pos hnegative, neg_one_mul]
  · rw [if_neg (by simpa using hnegative), if_neg hnegative, one_mul]

/-- The greatest exponent is that of infinity, and with any other fraction that of a NaN. -/
theorem kind_ofBits (bits : UInt64) :
    ((ofBits bits).isFinite = true ↔ exponentField bits ≠ 2047) ∧
    ((ofBits bits).isNaN = true ↔ exponentField bits = 2047 ∧ fractionField bits ≠ 0) := by
  have hfraction := fractionField_lt bits
  have hexponent : exponentField bits < 2048 := Nat.mod_lt _ (by decide)
  rw [isFinite, isNaN, ofBits_magnitude, decide_eq_true_eq, decide_eq_true_eq]
  unfold infinityPattern
  unfold binade at *
  omega

/-! ## Comparison -/

/-- No finite number is nearer to `q`, and where another value is as near this one has the even
pattern. -/
structure IsNearestTo (x : Binary64) (q : ℚ) : Prop where
  isFinite : x.isFinite = true
  nearest : ∀ y : Binary64, y.isFinite = true → |x.value - q| ≤ |y.value - q|
  even_of_tie : ∀ y : Binary64, y.isFinite = true → y.value ≠ x.value →
    |y.value - q| = |x.value - q| → x.magnitude % 2 = 0

/-- Of two numbers the larger one can be nearer only to what is not below their midpoint. -/
theorem add_le_of_abs_sub_le {a b q : ℚ} (hlt : b < a) (h : |a - q| ≤ |b - q|) :
    a + b ≤ 2 * q := by
  by_contra hgt
  rw [abs_le] at h
  rcases abs_cases (b - q) with ⟨habs, _⟩ | ⟨habs, _⟩ <;> linarith [h.1, h.2]

theorem IsNearestTo.value_le {x y : Binary64} {q q' : ℚ} (hx : x.IsNearestTo q)
    (hy : y.IsNearestTo q') (h : q < q') : x.value ≤ y.value := by
  by_contra hgt
  have hlt : y.value < x.value := lt_of_not_ge hgt
  have hlow := add_le_of_abs_sub_le hlt (hx.nearest y hy.isFinite)
  have hhigh : -y.value + -x.value ≤ 2 * -q' := by
    apply add_le_of_abs_sub_le (neg_lt_neg hlt)
    have hnearest := hy.nearest x hx.isFinite
    rwa [← abs_neg, ← abs_neg (x.value - q'), neg_sub', neg_sub'] at hnearest
  linarith

/-- What is nearest in absolute value, and has the sign of `q`, is nearest. -/
theorem IsRounded.isNearestTo {x : Binary64} {q : ℚ} (h : IsRounded (decide (q < 0)) |q| x)
    (hfinite : x.isFinite = true) : x.IsNearestTo q := by
  obtain ⟨-, hnearest, heven⟩ := h.isNearest
  have hdistance : |x.value - q| = |x.absValue - (|q|)| := by
    rw [value, h.negative_eq]
    by_cases hq : q < 0
    · rw [if_pos (decide_eq_true hq), abs_of_neg hq, ← abs_neg, neg_sub', neg_neg]
    · rw [if_neg (by simpa using hq), abs_of_nonneg (le_of_not_gt hq)]
  have hcloser : ∀ y : Binary64, |y.absValue - (|q|)| ≤ |y.value - q| := by
    intro y
    rw [← y.abs_value]
    exact abs_abs_sub_abs_le _ _
  have hbelow : ∀ y : Binary64, y.isFinite = true → |x.value - q| ≤ |y.value - q| := by
    intro y hy
    rw [hdistance]
    exact (hnearest y (kind_of_isFinite hy).1).trans (hcloser y)
  refine ⟨hfinite, hbelow, fun y hy hne htie => ?_⟩
  by_cases hmagnitude : y.magnitude = x.magnitude
  · -- the same magnitude with the other sign is as near to zero only, and zero has one value
    have hneg : y.value = -x.value := by
      have habs : |y.value| = |x.value| := by
        rw [y.abs_value, x.abs_value, absValue, absValue, units, units, hmagnitude]
      rcases abs_eq_abs.1 habs with hsame | hopposite
      · exact absurd hsame hne
      · exact hopposite
    have hzero : x.value = 0 := by
      rw [hneg] at htie
      rcases abs_eq_abs.1 htie with hfirst | hsecond
      · linarith
      · have hbound := hbelow (zero false) rfl
        have hvalue : (zero false).value = 0 := by
          rw [← abs_eq_zero, abs_value, absValue, units_of_isZero rfl, Nat.cast_zero, zero_div]
        have hq : q = 0 := by linarith
        rw [hq, hvalue, sub_zero, sub_zero, abs_zero] at hbound
        exact abs_nonpos_iff.1 hbound
    exact absurd (by rw [hneg, hzero, neg_zero]) hne
  · apply heven y (kind_of_isFinite hy).1 hmagnitude
    apply le_antisymm _ (hnearest y (kind_of_isFinite hy).1)
    rw [← hdistance, ← htie]
    exact hcloser y

/-! ## Integers -/

/-- Every multiple of a power of two with 53 bits is the value of a number. -/
theorem exists_value_eq {r e : Nat} (hr : r ≤ 2 ^ 53) (he : e ≤ 970) (negative : Bool) :
    ∃ x : Binary64, x.isFinite = true ∧
      x.value = if negative then -((r : ℚ) * 2 ^ e) else (r : ℚ) * 2 ^ e := by
  obtain ⟨pattern, hpattern⟩ := exists_pattern (r := r) hr (e + 1074)
  have hlt : pattern < infinityPattern := by
    rw [← patternUnits_strictMono.lt_iff_lt, hpattern, patternUnits_infinityPattern, unit_eq,
      pow_add, ← Nat.mul_assoc]
    rw [Nat.mul_lt_mul_right (Nat.two_pow_pos 1074)]
    refine (Nat.mul_le_mul_right _ hr).trans_lt ?_
    rw [← pow_add]
    exact pow_lt_pow_right₀ Nat.one_lt_two (by omega)
  have hmagnitude : (ofPattern negative pattern).magnitude = pattern := Nat.min_eq_left hlt.le
  have habs : (ofPattern negative pattern).absValue = r * 2 ^ e := by
    rw [absValue, units, hmagnitude, hpattern, pow_add, ← Nat.mul_assoc, ← unit_eq, Nat.cast_mul,
      mul_div_cancel_right₀ _ cast_unit_pos.ne', Nat.cast_mul, Nat.cast_pow, Nat.cast_ofNat]
  refine ⟨ofPattern negative pattern, ?_, ?_⟩
  · rw [isFinite, hmagnitude]
    exact decide_eq_true hlt
  · rw [value, habs]
    rfl

section Int64

variable {i : Int} (hi : i.natAbs ≤ 2 ^ 63)

include hi

theorem isNearestTo_ofInt : (ofInt i).IsNearestTo i := by
  apply (isRounded_ofInt i).isNearestTo
  rw [(isRounded_ofInt i).isFinite_iff, ← Int.cast_abs, ← Nat.cast_natAbs]
  calc
    (i.natAbs : ℚ) ≤ 2 ^ 63 := by exact_mod_cast hi
    _ ≤ 2 ^ 1023 := pow_le_pow_right₀ (by norm_num) (by norm_num)
    _ < overflowBound := two_pow_lt_overflowBound

theorem abs_value_ofInt_sub_le {r e : Nat} (hr : r ≤ 2 ^ 53) (he : e ≤ 970) :
    |(ofInt i).value - i| ≤ |(r : ℚ) * 2 ^ e - i.natAbs| := by
  obtain ⟨x, hfinite, hvalue⟩ := exists_value_eq hr he (decide ((i : ℚ) < 0))
  refine ((isNearestTo_ofInt hi).nearest x hfinite).trans_eq ?_
  rw [hvalue, Nat.cast_natAbs, Int.cast_abs]
  by_cases hneg : (i : ℚ) < 0
  · rw [if_pos (decide_eq_true hneg), abs_of_neg hneg, ← abs_neg, neg_sub', neg_neg]
  · rw [if_neg (by simpa using hneg), abs_of_nonneg (le_of_not_gt hneg)]

/-- Between `2 ^ 62` and `2 ^ 63` the numbers are the multiples of `2 ^ 10`, and nowhere below are
they further apart. -/
theorem abs_value_ofInt_sub_le_512 : |(ofInt i).value - i| ≤ 512 := by
  obtain ⟨r, hr⟩ : ∃ r : Nat, r = (i.natAbs + 512) / 1024 := ⟨_, rfl⟩
  refine (abs_value_ofInt_sub_le hi (r := r) (e := 10) (by omega) (by omega)).trans ?_
  have hnear : |(r : Int) * 2 ^ 10 - i.natAbs| ≤ 512 := by
    rw [abs_le]
    omega
  exact_mod_cast hnear

theorem value_ofInt_of_le (hsmall : i.natAbs ≤ 2 ^ 53) : (ofInt i).value = i := by
  have hbound := abs_value_ofInt_sub_le hi (r := i.natAbs) (e := 0) hsmall (by omega)
  rw [pow_zero, mul_one, sub_self, abs_zero] at hbound
  exact sub_eq_zero.1 (abs_nonpos_iff.1 hbound)

end Int64

theorem value_ofInt_mono {i j : Int} (hi : i.natAbs ≤ 2 ^ 63) (hj : j.natAbs ≤ 2 ^ 63)
    (h : i ≤ j) : (ofInt i).value ≤ (ofInt j).value := by
  rcases h.eq_or_lt with rfl | hlt
  · exact le_rfl
  · exact (isNearestTo_ofInt hi).value_le (isNearestTo_ofInt hj) (Int.cast_lt.2 hlt)

end Tagged.Binary64
