import Tagged.Proofs.Binary64.Neighbours
import Tagged.Proofs.Literal.NotANumber

/-!
# Scaling rounds once

A number from one to `2 ^ 64` is scaled by a power of two in steps of `2 ^ 1000`. Every step but the
last one is exact, or settles the outcome: on the way up the number becomes infinite, on the way
down it becomes zero. So the whole scaling amounts to one rounding of the exact product.
-/

namespace Tagged.Literal

open Binary64

/-! ## Products -/

theorem isRounded_mul {x y : Binary64} (hx : x.isFinite = true) (hy : y.isFinite = true) :
    IsRounded (x.negative != y.negative) (x.absValue * y.absValue) (x.mul y) := by
  obtain ⟨hxnan, hxinf⟩ := kind_of_isFinite hx
  obtain ⟨hynan, hyinf⟩ := kind_of_isFinite hy
  have hmul : x.mul y =
      ofRatio (x.negative != y.negative) (x.units * y.units) (unit * unit) := by
    simp only [mul, hxnan, hynan, hxinf, hyinf, Bool.false_eq_true, if_false, Bool.and_false,
      Bool.false_and, Bool.or_false]
  have hrounded := isRounded_ofRatio (x.negative != y.negative) (x.units * y.units)
    (Nat.mul_pos unit_pos unit_pos)
  rw [Nat.cast_mul, Nat.cast_mul, ← div_mul_div_comm] at hrounded
  rw [hmul]
  exact hrounded

theorem infinity_mul (negative : Bool) {y : Binary64} (hnan : y.isNaN = false)
    (hzero : y.isZero = false) (hpositive : y.negative = false) :
    (infinity negative).mul y = infinity negative := by
  have hkind : (infinity negative).isNaN = false ∧ (infinity negative).isInfinite = true ∧
      (infinity negative).isZero = false ∧ (infinity negative).negative = negative :=
    ⟨rfl, rfl, rfl, rfl⟩
  simp [mul, hkind, hnan, hzero, hpositive]

theorem isRounded_powerOfTwo (k : Int) : IsRounded false (2 ^ k) (powerOfTwo k) := by
  unfold powerOfTwo
  split
  next hpos =>
    have hrounded := isRounded_ofRatio false (Nat.pow 2 k.toNat) Nat.one_pos
    rw [Nat.cast_one, div_one, Nat.pow_eq, Nat.cast_pow, Nat.cast_ofNat, ← zpow_natCast,
      Int.toNat_of_nonneg hpos] at hrounded
    exact hrounded
  next hneg =>
    have hrounded := isRounded_ofRatio false 1 (Nat.pow_pos (n := k.natAbs) Nat.two_pos)
    rw [Nat.cast_one, Nat.cast_pow, Nat.cast_ofNat, one_div, ← zpow_natCast, ← zpow_neg,
      show -(k.natAbs : Int) = k by omega] at hrounded
    exact hrounded

theorem absValue_powerOfTwo {k : Int} (hlow : -1000 ≤ k) (hhigh : k ≤ 1000) :
    (powerOfTwo k).absValue = 2 ^ k := by
  apply (isRounded_powerOfTwo k).absValue_eq (isFinite_powerOfTwo (by omega)) (hasBits_two_zpow k)
  exact zpow_le_zpow_right₀ (by norm_num) (by omega)

theorem isRounded_mul_powerOfTwo {x : Binary64} (hx : x.isFinite = true) {k : Int}
    (hlow : -1000 ≤ k) (hhigh : k ≤ 1000) :
    IsRounded x.negative (x.absValue * 2 ^ k) (x.mul (powerOfTwo k)) := by
  have hrounded := isRounded_mul hx (isFinite_powerOfTwo (show k ≤ 1023 by omega))
  rw [absValue_powerOfTwo hlow hhigh, powerOfTwo_negative, Bool.bne_false] at hrounded
  exact hrounded

/-! ## Steps -/

theorem scaleUp_of_le (x : Binary64) {e : Int} (he : e ≤ 1000) : scaleUp x e = (x, e) := by
  rw [scaleUp]
  simp [he]

theorem scaleDown_of_le (x : Binary64) {e : Int} (he : -1000 ≤ e) : scaleDown x e = (x, e) := by
  rw [scaleDown]
  simp [he]

/-- All steps up are exact, as long as the number is finite. -/
theorem scaleUp_spec {x : Binary64} {negative : Bool} {q : ℚ} (e : Int)
    (hx : IsRounded negative q x) (hbits : HasBits 53 q) (hone : 1 ≤ q) :
    IsRounded negative (q * 2 ^ (e - (scaleUp x e).2)) (scaleUp x e).1 ∧
      ((scaleUp x e).1.isFinite = true → (scaleUp x e).2 ≤ 1000) := by
  fun_induction scaleUp x e generalizing q with
  | case1 x e hstep ih =>
      simp only [Bool.and_eq_true, decide_eq_true_eq] at hstep
      have hvalue := hx.absValue_eq hstep.1.2 hbits (two_zpow_le_one.trans hone)
      have hmul := isRounded_mul_powerOfTwo hstep.1.2 (k := 1000) (by omega) (by omega)
      rw [hvalue, hx.negative_eq] at hmul
      have hlarge : 1 ≤ q * 2 ^ (1000 : Int) := by
        have hpow : (1 : ℚ) ≤ 2 ^ (1000 : Int) := one_le_zpow₀ (by norm_num) (by norm_num)
        exact one_le_mul_of_one_le_of_one_le hone hpow
      obtain ⟨hrounded, hfinite⟩ := ih hmul (hbits.mul_two_zpow 1000) hlarge
      refine ⟨?_, hfinite⟩
      rw [mul_assoc, ← zpow_add₀ (two_ne_zero' ℚ)] at hrounded
      convert hrounded using 3
      omega
  | case2 x e hstop =>
      rw [sub_self, zpow_zero, mul_one]
      refine ⟨hx, fun hfinite => ?_⟩
      have hvalue := hx.absValue_eq hfinite hbits (two_zpow_le_one.trans hone)
      have hzero := isZero_eq_false_of_absValue_pos (x := x) (by linarith)
      simp only [hfinite, hzero, Bool.not_false, Bool.and_true, decide_eq_true_eq] at hstop
      omega

/-! ## Scaling -/

/-- On the way up a number that is no longer finite is beyond the range, and stays infinite. -/
theorem isRounded_scale_up {x : Binary64} (hx : x.isFinite = true) (hone : 1 ≤ x.absValue)
    {e : Int} (hfits : FitsInt32 e) (he : 1000 < e) :
    IsRounded x.negative (x.absValue * 2 ^ e) (scale x e) := by
  obtain ⟨hrounded, hfinite⟩ := scaleUp_spec e (isRounded_self hx) (hasBits_absValue x) hone
  obtain ⟨hpos, hle⟩ := scaleUp_snd_bounds x e
  rw [scale_eq x hfits, scaleDown_of_le _ (by omega)]
  dsimp only
  generalize (scaleUp x e).1 = y at hrounded hfinite ⊢
  generalize (scaleUp x e).2 = e' at hrounded hle hpos hfinite ⊢
  have hbits := (hasBits_absValue x).mul_two_zpow (e - e')
  have hgrown : 1 ≤ x.absValue * 2 ^ (e - e') :=
    one_le_mul_of_one_le_of_one_le hone (one_le_zpow₀ (by norm_num) (by omega))
  have htotal : x.absValue * 2 ^ (e - e') * 2 ^ e' = x.absValue * 2 ^ e := by
    rw [mul_assoc, ← zpow_add₀ (two_ne_zero' ℚ), sub_add_cancel]
  cases hy : y.isFinite with
  | true =>
      have hlast := isRounded_mul_powerOfTwo hy (show -1000 ≤ e' by omega) (hfinite hy)
      rw [hrounded.absValue_eq hy hbits (two_zpow_le_one.trans hgrown), htotal,
        hrounded.negative_eq] at hlast
      exact hlast
  | false =>
      have hbeyond := hrounded.two_pow_le hy hbits (two_zpow_le_one.trans hgrown)
      rw [hrounded.eq_infinity hbeyond, infinity_mul _ (isNaN_powerOfTwo _)
        (isZero_powerOfTwo_eq_false (by omega)) (powerOfTwo_negative _)]
      apply isRounded_infinity
      calc
        (2 : ℚ) ^ 1024 ≤ x.absValue * 2 ^ (e - e') := hbeyond
        _ ≤ x.absValue * 2 ^ (e - e') * 2 ^ e' :=
          le_mul_of_one_le_right (by positivity) (one_le_zpow₀ (by norm_num) (by omega))
        _ = x.absValue * 2 ^ e := htotal

theorem scaleDown_of_lt {x : Binary64} (hzero : x.isZero = false) {e : Int} (he : e < -1000) :
    scaleDown x e = scaleDown (x.mul (powerOfTwo (-1000))) (e + 1000) := by
  conv_lhs => rw [scaleDown]
  simp [hzero, he]

/-- A step down from one is exact, and leaves a number that is not zero. -/
theorem stepDown_spec {x : Binary64} (hx : x.isFinite = true) (hone : 1 ≤ x.absValue) :
    (x.mul (powerOfTwo (-1000))).isFinite = true ∧
      (x.mul (powerOfTwo (-1000))).negative = x.negative ∧
      (x.mul (powerOfTwo (-1000))).absValue = x.absValue * 2 ^ (-1000 : Int) := by
  have hrounded := isRounded_mul_powerOfTwo hx (k := -1000) (by omega) (by omega)
  have hbits := (hasBits_absValue x).mul_two_zpow (-1000)
  have hpow : (0 : ℚ) < 2 ^ (-1000 : Int) := by positivity
  have hnormal : (2 : ℚ) ^ (-1021 : Int) ≤ x.absValue * 2 ^ (-1000 : Int) :=
    calc
      (2 : ℚ) ^ (-1021 : Int) ≤ 2 ^ (-1000 : Int) := zpow_le_zpow_right₀ (by norm_num) (by norm_num)
      _ ≤ x.absValue * 2 ^ (-1000 : Int) := le_mul_of_one_le_left hpow.le hone
  have hfinite : (x.mul (powerOfTwo (-1000))).isFinite = true := by
    by_contra hinfinite
    have hbeyond := hrounded.two_pow_le (eq_false_of_ne_true hinfinite) hbits hnormal
    have hless : x.absValue * 2 ^ (-1000 : Int) ≤ x.absValue :=
      mul_le_of_le_one_right (by linarith) (zpow_le_one_of_nonpos₀ (by norm_num) (by norm_num))
    exact absurd (hbeyond.trans hless) (not_le.2 (absValue_lt hx))
  exact ⟨hfinite, hrounded.negative_eq, hrounded.absValue_eq hfinite hbits hnormal⟩

theorem mul_two_zpow_lt_half {q : ℚ} (hq : q ≤ 2 ^ 64) {e : Int} (he : e ≤ -2000) :
    q * 2 ^ e * unit < 1 / 2 := by
  have hhigh : q ≤ 2 ^ (64 : Int) := by exact_mod_cast hq
  rw [unit_eq_zpow, mul_assoc, ← zpow_add₀ (two_ne_zero' ℚ), one_div, ← zpow_neg_one]
  calc
    q * 2 ^ (e + 1074) ≤ 2 ^ (64 : Int) * 2 ^ (e + 1074) :=
      mul_le_mul_of_nonneg_right hhigh (by positivity)
    _ = 2 ^ (64 + (e + 1074)) := (zpow_add₀ (two_ne_zero' ℚ) _ _).symm
    _ < 2 ^ (-1 : Int) := zpow_lt_zpow_right₀ (by norm_num) (by omega)

/-- On the way down the first step is exact, and where there is a second one it gives zero. -/
theorem isRounded_scale_down {x : Binary64} (hx : x.isFinite = true) (hone : 1 ≤ x.absValue)
    (hhigh : x.absValue ≤ 2 ^ 64) {e : Int} (hfits : FitsInt32 e) (he : e < -1000) :
    IsRounded x.negative (x.absValue * 2 ^ e) (scale x e) := by
  obtain ⟨hfinite, hnegative, hvalue⟩ := stepDown_spec hx hone
  have hzero : x.isZero = false := isZero_eq_false_of_absValue_pos (by linarith)
  rw [scale_eq x hfits, scaleUp_of_le _ (by omega), scaleDown_of_lt hzero he]
  generalize x.mul (powerOfTwo (-1000)) = y at hfinite hnegative hvalue ⊢
  rcases le_or_gt (-2000) e with hle | hlt
  · rw [scaleDown_of_le _ (by omega)]
    have hlast := isRounded_mul_powerOfTwo hfinite (show -1000 ≤ e + 1000 by omega) (by omega)
    rw [hvalue, hnegative, mul_assoc, ← zpow_add₀ (two_ne_zero' ℚ),
      neg_add_cancel_comm_assoc] at hlast
    exact hlast
  · have hyzero : y.isZero = false := by
      apply isZero_eq_false_of_absValue_pos
      rw [hvalue]
      positivity
    have hsecond := isRounded_mul_powerOfTwo hfinite (k := -1000) (by omega) (by omega)
    rw [hvalue, hnegative, mul_assoc, ← zpow_add₀ (two_ne_zero' ℚ)] at hsecond
    have hgone := hsecond.eq_zero (by positivity) (mul_two_zpow_lt_half hhigh (by omega))
    have hstop : scaleDown (zero x.negative) (e + 1000 + 1000) =
        (zero x.negative, e + 1000 + 1000) := by
      have hzero : (zero x.negative).isZero = true := rfl
      rw [scaleDown]
      simp [hzero]
    rw [scaleDown_of_lt hyzero (by omega), hgone, hstop,
      zero_mul_of_isFinite _ (isFinite_powerOfTwo (by omega)), powerOfTwo_negative, Bool.bne_false]
    exact isRounded_zero _ (by positivity) (mul_two_zpow_lt_half hhigh (by omega))

theorem isRounded_scale {x : Binary64} (hx : x.isFinite = true) (hone : 1 ≤ x.absValue)
    (hhigh : x.absValue ≤ 2 ^ 64) {e : Int} (he : FitsInt32 e) :
    IsRounded x.negative (x.absValue * 2 ^ e) (scale x e) := by
  rcases lt_or_ge 1000 e with hup | hle
  · exact isRounded_scale_up hx hone he hup
  · rcases lt_or_ge e (-1000) with hdown | hge
    · exact isRounded_scale_down hx hone hhigh he hdown
    · rw [scale_eq x he, scaleUp_of_le _ hle, scaleDown_of_le _ hge]
      exact isRounded_mul_powerOfTwo hx hge hle

end Tagged.Literal
