import Mathlib.Tactic.Linarith
import Tagged.Proofs.Binary64.Rounding

/-!
# Kinds of numbers

Rounding never gives a NaN, and a product is one only where zero meets infinity. Both ends of the
powers of two are met with in scaling: from `2 ^ 1024` on they are infinite, and down to
`2 ^ -1074` none of them is zero.
-/

namespace Tagged.Binary64

theorem kind_of_isFinite {x : Binary64} (h : x.isFinite = true) :
    x.isNaN = false ∧ x.isInfinite = false := by
  have hmagnitude : x.magnitude < infinityPattern := of_decide_eq_true h
  exact ⟨decide_eq_false (by omega), beq_false_of_ne (by omega)⟩

theorem isZero_eq_false_of_isInfinite {x : Binary64} (h : x.isInfinite = true) :
    x.isZero = false := by
  rw [isInfinite, beq_iff_eq] at h
  rw [isZero, h]
  rfl

/-! ## NaNs -/

theorem isNaN_ofPattern (negative : Bool) (pattern : Nat) :
    (ofPattern negative pattern).isNaN = false :=
  decide_eq_false (Nat.not_lt.2 (Nat.min_le_right _ _))

theorem isNaN_ofRatio (negative : Bool) (num den : Nat) :
    (ofRatio negative num den).isNaN = false :=
  isNaN_ofPattern _ _

theorem isNaN_ofInt (i : Int) : (ofInt i).isNaN = false :=
  isNaN_ofRatio _ _ _

theorem isNaN_ofDecimal (negative : Bool) (significand : Nat) (exponent : Int) :
    (ofDecimal negative significand exponent).isNaN = false := by
  unfold ofDecimal
  split <;> exact isNaN_ofRatio _ _ _

theorem isNaN_powerOfTwo (k : Int) : (powerOfTwo k).isNaN = false := by
  unfold powerOfTwo
  split <;> exact isNaN_ofRatio _ _ _

/-- A product of numbers is a number unless zero meets infinity. -/
theorem isNaN_mul_eq_false {x y : Binary64} (hx : x.isNaN = false) (hy : y.isNaN = false)
    (hzero : x.isZero = true → y.isInfinite = false)
    (hinfinite : x.isInfinite = true → y.isZero = false) : (x.mul y).isNaN = false := by
  have hmeet : ((x.isZero && y.isInfinite) || (x.isInfinite && y.isZero)) = false := by
    cases hx0 : x.isZero <;> cases hx1 : x.isInfinite <;> simp_all
  simp only [mul, hx, hy, hmeet, Bool.false_eq_true, if_false]
  split
  · rfl
  · exact isNaN_ofRatio _ _ _

theorem zero_mul_of_isInfinite (negative : Bool) {y : Binary64} (hy : y.isInfinite = true) :
    (zero negative).mul y = nan true := by
  have hnan : y.isNaN = false := by
    rw [isInfinite, beq_iff_eq] at hy
    rw [isNaN, hy]
    rfl
  have hzero : (zero negative).isNaN = false ∧ (zero negative).isZero = true := ⟨rfl, rfl⟩
  simp [mul, hnan, hy, hzero]

/-! ## Zeros -/

theorem units_of_isZero {x : Binary64} (h : x.isZero = true) : x.units = 0 := by
  rw [units, show x.magnitude = 0 by simpa [isZero] using h]
  rfl

theorem isZero_eq_false_of_absValue_pos {x : Binary64} (h : 0 < x.absValue) :
    x.isZero = false := by
  by_contra hzero
  rw [absValue, units_of_isZero (eq_true_of_ne_false hzero), Nat.cast_zero, zero_div] at h
  exact lt_irrefl 0 h

theorem ofRatio_zero (negative : Bool) {den : Nat} (hden : 0 < den) :
    ofRatio negative 0 den = zero negative := by
  have hpattern : roundPattern 0 den = 0 := by
    simp [roundPattern, roundHalfEven, hden]
  rw [ofRatio, Nat.zero_mul, hpattern]
  rfl

theorem zero_mul_of_isFinite (negative : Bool) {y : Binary64} (hy : y.isFinite = true) :
    (zero negative).mul y = zero (negative != y.negative) := by
  obtain ⟨hnan, hinfinite⟩ := kind_of_isFinite hy
  have hzero : (zero negative).isNaN = false ∧ (zero negative).isInfinite = false ∧
      (zero negative).units = 0 ∧ (zero negative).negative = negative := ⟨rfl, rfl, rfl, rfl⟩
  simp only [mul, hnan, hinfinite, hzero, Bool.false_eq_true, if_false, Bool.and_false,
    Bool.false_and, Bool.or_false, Nat.zero_mul]
  exact ofRatio_zero _ (Nat.mul_pos unit_pos unit_pos)

theorem roundPattern_pos {num den : Nat} (hden : 0 < den) (h : den ≤ num) :
    0 < roundPattern num den := by
  have hquot : 1 ≤ num / den := (Nat.one_le_div_iff hden).2 h
  rw [roundPattern_eq]
  by_cases he : roundExponent num den = 0
  · have hround := (roundHalfEven_bounds num (den * 2 ^ roundExponent num den)).1
    rw [he, pow_zero, Nat.mul_one] at hround
    rw [roundSignificand, he, pow_zero, Nat.mul_one]
    omega
  · have := le_roundSignificand he
    unfold binade at this
    omega

theorem isZero_ofRatio_eq_false (negative : Bool) {num den : Nat} (hden : 0 < den)
    (h : den ≤ num * unit) : (ofRatio negative num den).isZero = false := by
  have hpos := roundPattern_pos hden h
  apply beq_false_of_ne
  change Nat.min (roundPattern (num * unit) den) infinityPattern ≠ 0
  exact (Nat.lt_min.2 ⟨hpos, by decide⟩).ne'

/-- A factor of one or more does not take a number to zero. -/
theorem isZero_mul_eq_false {x y : Binary64} (hx : x.isFinite = true) (hx' : x.isZero = false)
    (hy : y.isFinite = true) (hone : unit ≤ y.units) : (x.mul y).isZero = false := by
  obtain ⟨hxnan, hxinf⟩ := kind_of_isFinite hx
  obtain ⟨hynan, hyinf⟩ := kind_of_isFinite hy
  have hunits := units_pos hx'
  simp only [mul, hxnan, hynan, hxinf, hyinf, hx', Bool.false_eq_true, if_false, Bool.and_false,
    Bool.false_and, Bool.or_false]
  apply isZero_ofRatio_eq_false
  · exact Nat.mul_pos unit_pos unit_pos
  · apply Nat.mul_le_mul_right
    calc
      unit ≤ y.units := hone
      _ ≤ x.units * y.units := Nat.le_mul_of_pos_left _ hunits

/-! ## Powers of two -/

theorem powerOfTwo_negative (k : Int) : (powerOfTwo k).negative = false := by
  unfold powerOfTwo
  split <;> rfl

theorem isInfinite_powerOfTwo {k : Int} (h : 1024 ≤ k) : (powerOfTwo k).isInfinite = true := by
  have hpos : 0 ≤ k := by omega
  have hquot : Nat.pow 2 k.toNat * unit / 1 = 2 ^ (k.toNat + 1074) := by
    rw [Nat.div_one, unit_eq, pow_add]
    rfl
  have hexponent : roundExponent (Nat.pow 2 k.toNat * unit) 1 = k.toNat + 1022 := by
    rw [roundExponent, hquot, Nat.log2_two_pow]
    omega
  have hsignificand : binade ≤ roundSignificand (Nat.pow 2 k.toNat * unit) 1 :=
    le_roundSignificand (by omega)
  have hpattern : infinityPattern ≤ roundPattern (Nat.pow 2 k.toNat * unit) 1 := by
    rw [roundPattern_eq, hexponent]
    unfold binade at *
    unfold infinityPattern
    omega
  rw [powerOfTwo, if_pos hpos, isInfinite, beq_iff_eq]
  exact Nat.min_eq_right hpattern

theorem two_pow_lt_overflowBound : (2 : ℚ) ^ 1023 < overflowBound := by
  have hpos : (0 : ℚ) < 2 ^ 971 := by positivity
  rw [show 1023 = 52 + 971 from rfl, pow_add, overflowBound]
  apply mul_lt_mul_of_pos_right _ hpos
  norm_num [binade]

theorem isFinite_powerOfTwo {k : Int} (h : k ≤ 1023) : (powerOfTwo k).isFinite = true := by
  have hone : (1 : ℚ) ≤ 2 ^ 1023 := one_le_pow₀ (by norm_num)
  unfold powerOfTwo
  split
  next hpos =>
    apply (ofRatio_of_lt_overflowBound false Nat.one_pos ?_).1
    rw [Nat.pow_eq, Nat.cast_pow, Nat.cast_ofNat, Nat.cast_one, div_one]
    apply lt_of_le_of_lt _ two_pow_lt_overflowBound
    exact pow_le_pow_right₀ (by norm_num) (by omega)
  next hneg =>
    apply (ofRatio_of_lt_overflowBound false (Nat.pow_pos (by omega)) ?_).1
    apply lt_of_le_of_lt _ two_pow_lt_overflowBound
    refine le_trans ?_ hone
    rw [Nat.cast_one, Nat.cast_pow, Nat.cast_ofNat]
    exact div_le_one_of_le₀ (one_le_pow₀ (by norm_num)) (by positivity)

theorem isZero_powerOfTwo_eq_false {k : Int} (h : -1074 ≤ k) : (powerOfTwo k).isZero = false := by
  unfold powerOfTwo
  split
  next hpos =>
    apply isZero_ofRatio_eq_false false Nat.one_pos
    exact Nat.mul_pos (Nat.pow_pos (by omega)) unit_pos
  next hneg =>
    apply isZero_ofRatio_eq_false false (Nat.pow_pos (by omega))
    obtain ⟨d, hd⟩ := Nat.exists_eq_add_of_le (show k.natAbs ≤ 1074 by omega)
    rw [Nat.one_mul, unit_eq, hd]
    exact Nat.pow_le_pow_right Nat.two_pos (Nat.le_add_right _ _)

end Tagged.Binary64
