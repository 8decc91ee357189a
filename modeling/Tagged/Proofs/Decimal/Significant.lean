import Mathlib.Algebra.Order.Field.Power
import Mathlib.Tactic.FieldSimp
import Mathlib.Tactic.Linarith
import Mathlib.Tactic.Positivity
import Mathlib.Tactic.Ring
import Tagged.Decimal.General
import Tagged.Proofs.Binary64.Rounding
import Tagged.Proofs.Digits

/-!
# Six significant digits

Rounding a positive ratio to six significant digits gives six digits, and changes it by at
most half a unit of the last of them. Every ratio that is close enough to a number of six
digits is rounded to that number, also from below a power of ten, where the digits of the
ratio are finer than those of the number.
-/

namespace Tagged.Decimal

/-- The leading digit of a positive ratio stands at its leading exponent. -/
theorem leadingExponent_bounds {num den : Nat} (hnum : 0 < num) (hden : 0 < den) :
    (10 : ℚ) ^ leadingExponent num den ≤ num / den ∧
      (num : ℚ) / den < 10 ^ (leadingExponent num den + 1) := by
  have hdenq : (0 : ℚ) < den := by exact_mod_cast hden
  rw [le_div_iff₀ hdenq, div_lt_iff₀ hdenq]
  by_cases hone : den ≤ num
  · -- at least one: the digits of the whole part
    obtain ⟨count, hlength, hlow, hhigh⟩ :=
      exists_length_decimal (Nat.div_pos hone hden)
    have he : leadingExponent num den = count := by
      rw [leadingExponent, if_pos hone, hlength]
      omega
    have hlow' : 10 ^ count * den ≤ num := (Nat.le_div_iff_mul_le hden).1 hlow
    have hhigh' : num < 10 ^ (count + 1) * den := (Nat.div_lt_iff_lt_mul hden).1 hhigh
    rw [he, ← Nat.cast_succ, zpow_natCast, zpow_natCast]
    constructor
    · exact_mod_cast hlow'
    · exact_mod_cast hhigh'
  · -- below one: the digits of the reciprocal
    have hinverse : 0 < (den - 1) / num := Nat.div_pos (by omega) hnum
    obtain ⟨count, hlength, hlow, hhigh⟩ := exists_length_decimal hinverse
    have he : leadingExponent num den = -(count + 1 : Nat) := by
      rw [leadingExponent, if_neg hone, hlength]
    have hlow' : 10 ^ count * num ≤ den - 1 := (Nat.le_div_iff_mul_le hnum).1 hlow
    have hhigh' : den - 1 < 10 ^ (count + 1) * num := (Nat.div_lt_iff_lt_mul hnum).1 hhigh
    have hlowq : (10 : ℚ) ^ count * num < den := by
      have : 10 ^ count * num < den := by omega
      exact_mod_cast this
    have hhighq : (den : ℚ) ≤ 10 ^ (count + 1) * num := by
      have : den ≤ 10 ^ (count + 1) * num := by omega
      exact_mod_cast this
    have hnext : -((count + 1 : Nat) : Int) + 1 = -(count : Int) := by
      push_cast
      ring
    rw [he, hnext, zpow_neg, zpow_neg, zpow_natCast, zpow_natCast]
    constructor
    · rw [inv_mul_le_iff₀ (by positivity)]
      exact hhighq
    · rw [lt_inv_mul_iff₀ (by positivity)]
      exact hlowq

theorem ten_zpow_add_nat (e : Int) (count : Nat) :
    (10 : ℚ) ^ (e + count) = 10 ^ count * 10 ^ e := by
  rw [zpow_add₀ (by norm_num), zpow_natCast, mul_comm]

theorem leadingExponent_eq {num den : Nat} (hnum : 0 < num) (hden : 0 < den) {e : Int}
    (hlow : (10 : ℚ) ^ e ≤ num / den) (hhigh : (num : ℚ) / den < 10 ^ (e + 1)) :
    leadingExponent num den = e := by
  obtain ⟨hlow', hhigh'⟩ := leadingExponent_bounds hnum hden
  have hten : (1 : ℚ) < 10 := by norm_num
  have h₁ := (zpow_lt_zpow_iff_right₀ hten).1 (hlow.trans_lt hhigh')
  have h₂ := (zpow_lt_zpow_iff_right₀ hten).1 (hlow'.trans_lt hhigh)
  omega

theorem inUnits_spec (num : Nat) {den : Nat} (hden : 0 < den) (e : Int) :
    0 < (inUnits num den e).2 ∧
      ((inUnits num den e).1 : ℚ) / (inUnits num den e).2 = num / den / 10 ^ e := by
  by_cases hpos : 0 ≤ e
  · have hpow : (10 : ℚ) ^ e = 10 ^ e.toNat := by
      rw [← zpow_natCast, Int.toNat_of_nonneg hpos]
    rw [inUnits, if_pos hpos, hpow, Nat.pow_eq]
    refine ⟨by positivity, ?_⟩
    push_cast
    rw [div_div]
  · have hpow : (10 : ℚ) ^ e = (10 ^ e.natAbs)⁻¹ := by
      rw [← zpow_natCast, ← zpow_neg]
      congr 1
      omega
    rw [inUnits, if_neg hpos, hpow, Nat.pow_eq]
    refine ⟨hden, ?_⟩
    push_cast
    rw [div_inv_eq_mul, mul_div_right_comm]

def sixDigits (num den : Nat) : Nat :=
  let (n, d) := inUnits num den (leadingExponent num den - 5)
  roundHalfEven n d

theorem abs_sixDigits_sub_le (num : Nat) {den : Nat} (hden : 0 < den) :
    |(sixDigits num den : ℚ) - num / den / 10 ^ (leadingExponent num den - 5)| ≤ 1 / 2 := by
  obtain ⟨hpos, hvalue⟩ := inUnits_spec num hden (leadingExponent num den - 5)
  have hround := abs_roundHalfEven_sub_le
    (inUnits num den (leadingExponent num den - 5)).1 hpos
  rw [hvalue] at hround
  exact hround

theorem sixDigits_eq_of_close {num den d : Nat} (hden : 0 < den)
    (h : |(num : ℚ) / den / 10 ^ (leadingExponent num den - 5) - d| < 1 / 2) :
    sixDigits num den = d := by
  obtain ⟨hpos, hvalue⟩ := inUnits_spec num hden (leadingExponent num den - 5)
  rw [← hvalue] at h
  exact roundHalfEven_eq_of_abs_lt hpos h

theorem scaled_bounds {num den : Nat} (hnum : 0 < num) (hden : 0 < den) :
    (10 : ℚ) ^ 5 ≤ num / den / 10 ^ (leadingExponent num den - 5) ∧
      (num : ℚ) / den / 10 ^ (leadingExponent num den - 5) < 10 ^ 6 := by
  obtain ⟨hlow, hhigh⟩ := leadingExponent_bounds hnum hden
  have hfive := ten_zpow_add_nat (leadingExponent num den - 5) 5
  have hsix := ten_zpow_add_nat (leadingExponent num den - 5) 6
  rw [show leadingExponent num den - 5 + (5 : Nat) = leadingExponent num den by omega] at hfive
  rw [show leadingExponent num den - 5 + (6 : Nat) = leadingExponent num den + 1 by omega] at hsix
  rw [le_div_iff₀ (by positivity), div_lt_iff₀ (by positivity), ← hfive, ← hsix]
  exact ⟨hlow, hhigh⟩

theorem sixDigits_bounds {num den : Nat} (hnum : 0 < num) (hden : 0 < den) :
    10 ^ 5 ≤ sixDigits num den ∧ sixDigits num den ≤ 10 ^ 6 := by
  obtain ⟨hlow, hhigh⟩ := scaled_bounds hnum hden
  have hround := abs_le.1 (abs_sixDigits_sub_le num hden)
  generalize (num : ℚ) / den / 10 ^ (leadingExponent num den - 5) = u at *
  have h₁ : (10 ^ 5 : ℚ) < sixDigits num den + 1 := by linarith
  have h₂ : (sixDigits num den : ℚ) < 10 ^ 6 + 1 := by linarith
  have h₁' : 10 ^ 5 < sixDigits num den + 1 := by exact_mod_cast h₁
  have h₂' : sixDigits num den < 10 ^ 6 + 1 := by exact_mod_cast h₂
  omega

namespace Significant

def value (s : Significant) : ℚ := s.digits * 10 ^ (s.exponent - 5)

theorem ofRatio_of_pos {num : Nat} (hnum : 0 < num) (den : Nat) :
    ofRatio num den =
      if sixDigits num den = 10 ^ 6 then ⟨10 ^ 5, leadingExponent num den + 1⟩
      else ⟨sixDigits num den, leadingExponent num den⟩ := by
  rw [ofRatio, if_neg (by omega)]
  rfl

/-- Six digits, and an error of at most half a unit of the last one. -/
theorem ofRatio_spec {num den : Nat} (hnum : 0 < num) (hden : 0 < den) :
    10 ^ 5 ≤ (ofRatio num den).digits ∧ (ofRatio num den).digits < 10 ^ 6 ∧
      |(ofRatio num den).value - num / den| ≤ 10 ^ ((ofRatio num den).exponent - 5) / 2 := by
  obtain ⟨hlow, hhigh⟩ := sixDigits_bounds hnum hden
  have hround := abs_sixDigits_sub_le num hden
  have hpos : (0 : ℚ) < 10 ^ (leadingExponent num den - 5) := by positivity
  have herror : |(sixDigits num den : ℚ) * 10 ^ (leadingExponent num den - 5) - num / den| ≤
      10 ^ (leadingExponent num den - 5) / 2 := by
    have hscale : (num : ℚ) / den = num / den / 10 ^ (leadingExponent num den - 5) *
        10 ^ (leadingExponent num den - 5) := by
      rw [div_mul_cancel₀ _ hpos.ne']
    rw [hscale, ← sub_mul, abs_mul, abs_of_pos hpos]
    linarith [mul_le_mul_of_nonneg_right hround hpos.le]
  rw [ofRatio_of_pos hnum]
  split
  next hcarry =>
    -- the digits overflow into the next power of ten
    have hnext := ten_zpow_add_nat (leadingExponent num den - 5) 1
    rw [show leadingExponent num den - 5 + (1 : Nat) = leadingExponent num den + 1 - 5 by omega]
      at hnext
    refine ⟨le_refl _, by norm_num, ?_⟩
    rw [hcarry] at herror
    simp only [value]
    rw [hnext]
    generalize (10 : ℚ) ^ (leadingExponent num den - 5) = p at *
    push_cast at herror ⊢
    rw [show (100000 : ℚ) * (10 ^ 1 * p) = 1000000 * p by ring]
    linarith
  next hcarry =>
    exact ⟨hlow, lt_of_le_of_ne hhigh hcarry, herror⟩

theorem ofRatio_of_close_above {num den : Nat} (hnum : 0 < num) (hden : 0 < den)
    {s : Significant} (hhigh : s.digits < 10 ^ 6) {u : ℚ}
    (hu : (num : ℚ) / den = u * 10 ^ (s.exponent - 5)) (habove : 10 ^ 5 ≤ u)
    (hclose : |u - s.digits| < 1 / 20) : ofRatio num den = s := by
  have hpos : (0 : ℚ) < 10 ^ (s.exponent - 5) := by positivity
  have hfive := ten_zpow_add_nat (s.exponent - 5) 5
  have hsix := ten_zpow_add_nat (s.exponent - 5) 6
  rw [show s.exponent - 5 + (5 : Nat) = s.exponent by omega] at hfive
  rw [show s.exponent - 5 + (6 : Nat) = s.exponent + 1 by omega] at hsix
  have hdigits : (s.digits : ℚ) + 1 ≤ 10 ^ 6 := by exact_mod_cast hhigh
  have hbelow : u < 10 ^ 6 := by linarith [(abs_lt.1 hclose).2]
  have hexponent : leadingExponent num den = s.exponent := by
    apply leadingExponent_eq hnum hden
    · rw [hfive, hu]
      exact mul_le_mul_of_nonneg_right habove hpos.le
    · rw [hsix, hu]
      exact mul_lt_mul_of_pos_right hbelow hpos
  have hsixDigits : sixDigits num den = s.digits := by
    apply sixDigits_eq_of_close hden
    rw [hexponent, hu, mul_div_cancel_right₀ _ hpos.ne']
    linarith
  rw [ofRatio_of_pos hnum, hsixDigits, hexponent, if_neg hhigh.ne]

/-- A ratio close to a power of ten from below: it has one digit more, and these round up to
the power of ten. -/
theorem ofRatio_of_close_below {num den : Nat} (hnum : 0 < num) (hden : 0 < den)
    {s : Significant} (hlow : 10 ^ 5 ≤ s.digits) {u : ℚ}
    (hu : (num : ℚ) / den = u * 10 ^ (s.exponent - 5)) (hbelow : u < 10 ^ 5)
    (hclose : |u - s.digits| < 1 / 20) : ofRatio num den = s := by
  have hpos : (0 : ℚ) < 10 ^ (s.exponent - 6) := by positivity
  have hone := ten_zpow_add_nat (s.exponent - 6) 1
  have hfive := ten_zpow_add_nat (s.exponent - 6) 5
  have hsix := ten_zpow_add_nat (s.exponent - 6) 6
  rw [show s.exponent - 6 + (1 : Nat) = s.exponent - 5 by omega] at hone
  rw [show s.exponent - 6 + (5 : Nat) = s.exponent - 1 by omega] at hfive
  rw [show s.exponent - 6 + (6 : Nat) = s.exponent - 1 + 1 by omega] at hsix
  rw [abs_lt] at hclose
  have hdigits : s.digits = 10 ^ 5 := by
    have : (s.digits : ℚ) < 10 ^ 5 + 1 := by linarith
    have : s.digits < 10 ^ 5 + 1 := by exact_mod_cast this
    omega
  rw [hdigits] at hclose
  push_cast at hclose
  have hu' : (num : ℚ) / den = 10 * u * 10 ^ (s.exponent - 6) := by
    rw [hu, hone]
    ring
  have hexponent : leadingExponent num den = s.exponent - 1 := by
    apply leadingExponent_eq hnum hden
    · rw [hfive, hu']
      exact mul_le_mul_of_nonneg_right (by linarith) hpos.le
    · rw [hsix, hu']
      exact mul_lt_mul_of_pos_right (by linarith) hpos
  have hsixDigits : sixDigits num den = 10 ^ 6 := by
    apply sixDigits_eq_of_close hden
    rw [hexponent, show s.exponent - 1 - 5 = s.exponent - 6 by ring, hu',
      mul_div_cancel_right₀ _ hpos.ne', abs_lt]
    push_cast
    constructor <;> linarith
  rw [ofRatio_of_pos hnum, if_pos hsixDigits, hexponent, sub_add_cancel, ← hdigits]

/-- A ratio close to a number of six digits is rounded to it. Below a power of ten the ratio
has one digit more, so it has to be ten times closer than elsewhere. -/
theorem ofRatio_eq_of_close {num den : Nat} (hnum : 0 < num) (hden : 0 < den) {s : Significant}
    (hlow : 10 ^ 5 ≤ s.digits) (hhigh : s.digits < 10 ^ 6)
    (hclose : |(num : ℚ) / den - s.value| < 10 ^ (s.exponent - 5) / 20) :
    ofRatio num den = s := by
  have hpos : (0 : ℚ) < 10 ^ (s.exponent - 5) := by positivity
  have hu : (num : ℚ) / den =
      num / den / 10 ^ (s.exponent - 5) * 10 ^ (s.exponent - 5) := by
    rw [div_mul_cancel₀ _ hpos.ne']
  generalize (num : ℚ) / den / 10 ^ (s.exponent - 5) = u at hu
  have hscaled : |u - s.digits| < 1 / 20 := by
    rw [hu, value, ← sub_mul, abs_mul, abs_of_pos hpos] at hclose
    exact lt_of_mul_lt_mul_right (by linarith) hpos.le
  rcases le_or_gt (10 ^ 5) u with habove | hbelow
  · exact ofRatio_of_close_above hnum hden hhigh hu habove hscaled
  · exact ofRatio_of_close_below hnum hden hlow hu hbelow hscaled

end Significant

end Tagged.Decimal
