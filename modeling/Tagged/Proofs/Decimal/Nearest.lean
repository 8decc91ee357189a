import Mathlib.Algebra.Order.Field.Power
import Mathlib.Tactic.Linarith
import Mathlib.Tactic.Positivity
import Mathlib.Tactic.Ring
import Tagged.Proofs.Decimal.Significant

/-!
# The nearest number of six digits

Of all numbers of six significant digits, whatever their exponents, the one that a positive ratio
is rounded to is nearest to it, and of two that are equally near the one with the even last digit.
No other number of six digits is nearest in this sense.
-/

namespace Tagged.Decimal

namespace Significant

def IsSix (s : Significant) : Prop := 10 ^ 5 ≤ s.digits ∧ s.digits < 10 ^ 6

/-- No number of six digits is nearer to `q`, and where another one is as near the last digit is
even. -/
structure IsNearest (s : Significant) (q : ℚ) : Prop where
  isSix : s.IsSix
  nearest : ∀ other : Significant, other.IsSix → |s.value - q| ≤ |other.value - q|
  even_of_tie : ∀ other : Significant, other.IsSix → other ≠ s →
    |other.value - q| = |s.value - q| → s.digits % 2 = 0

/-! ## Numbers of six digits -/

theorem IsSix.value_bounds {s : Significant} (h : s.IsSix) :
    (10 : ℚ) ^ s.exponent ≤ s.value ∧ s.value < 10 ^ (s.exponent + 1) := by
  have hlow : (10 ^ 5 : ℚ) ≤ s.digits := by exact_mod_cast h.1
  have hhigh : (s.digits : ℚ) < 10 ^ 6 := by exact_mod_cast h.2
  have hpos : (0 : ℚ) < 10 ^ (s.exponent - 5) := by positivity
  have hfive := ten_zpow_add_nat (s.exponent - 5) 5
  have hsix := ten_zpow_add_nat (s.exponent - 5) 6
  rw [show s.exponent - 5 + (5 : Nat) = s.exponent by omega] at hfive
  rw [show s.exponent - 5 + (6 : Nat) = s.exponent + 1 by omega] at hsix
  rw [hfive, hsix, value]
  exact ⟨mul_le_mul_of_nonneg_right hlow hpos.le, mul_lt_mul_of_pos_right hhigh hpos⟩

/-- Six digits are written in one way only. -/
theorem IsSix.eq_of_value_eq {s t : Significant} (hs : s.IsSix) (ht : t.IsSix)
    (h : s.value = t.value) : s = t := by
  obtain ⟨hslow, hshigh⟩ := hs.value_bounds
  obtain ⟨htlow, hthigh⟩ := ht.value_bounds
  have hten : (1 : ℚ) < 10 := by norm_num
  have h₁ := (zpow_lt_zpow_iff_right₀ hten).1 (hslow.trans_lt (h ▸ hthigh))
  have h₂ := (zpow_lt_zpow_iff_right₀ hten).1 (htlow.trans_lt (h ▸ hshigh))
  have hexponent : s.exponent = t.exponent := by omega
  have hpos : (0 : ℚ) < 10 ^ (t.exponent - 5) := by positivity
  rw [value, value, hexponent] at h
  have hdigits : s.digits = t.digits := by exact_mod_cast mul_right_cancel₀ hpos.ne' h
  obtain ⟨digits, exponent⟩ := s
  exact congrArg₂ mk hdigits hexponent

/-- On the grid of six digits with the exponent `e`, a number of six digits is a point or lies
below all of its numbers. -/
theorem IsSix.on_grid_or_below {s : Significant} (h : s.IsSix) (e : Int) :
    (∃ m : Nat, s.value = m * 10 ^ (e - 5) ∧ (s.digits % 2 = 0 → m % 2 = 0)) ∨
      s.value < 10 ^ e := by
  rcases le_or_gt e s.exponent with hle | hlt
  · left
    refine ⟨s.digits * 10 ^ (s.exponent - e).toNat, ?_, ?_⟩
    · have hshift := ten_zpow_add_nat (e - 5) (s.exponent - e).toNat
      rw [show e - 5 + ((s.exponent - e).toNat : Int) = s.exponent - 5 by omega] at hshift
      rw [value, hshift]
      push_cast
      ring
    · intro heven
      rw [Nat.mul_mod, heven, Nat.zero_mul, Nat.zero_mod]
  · right
    calc
      s.value < 10 ^ (s.exponent + 1) := h.value_bounds.2
      _ ≤ 10 ^ e := zpow_le_zpow_right₀ (by norm_num) (by omega)

/-! ## Rounding to six digits -/

section OfRatio

variable {num den : Nat} (hnum : 0 < num) (hden : 0 < den)

include hnum

/-- The last digit is worth what it is worth in the ratio, also where the digits run over into
the next power of ten. -/
theorem value_ofRatio :
    (ofRatio num den).value = sixDigits num den * 10 ^ (leadingExponent num den - 5) := by
  rw [ofRatio_of_pos hnum]
  split
  next hcarry =>
    have hnext := ten_zpow_add_nat (leadingExponent num den - 5) 1
    rw [show leadingExponent num den - 5 + (1 : Nat) = leadingExponent num den + 1 - 5 by omega]
      at hnext
    rw [value, hcarry, hnext]
    push_cast
    ring
  next => rfl

theorem digits_ofRatio_mod_two : (ofRatio num den).digits % 2 = sixDigits num den % 2 := by
  rw [ofRatio_of_pos hnum]
  split
  next hcarry =>
    rw [hcarry]
    norm_num
  next => rfl

include hden

theorem isSix_ofRatio : (ofRatio num den).IsSix :=
  ⟨(ofRatio_spec hnum hden).1, (ofRatio_spec hnum hden).2.1⟩

theorem abs_value_ofRatio_sub_le (m : Nat) :
    |(ofRatio num den).value - num / den| ≤
      |(m : ℚ) * 10 ^ (leadingExponent num den - 5) - num / den| := by
  have hpos : (0 : ℚ) < 10 ^ (leadingExponent num den - 5) := by positivity
  obtain ⟨hunits, hvalue⟩ := inUnits_spec num hden (leadingExponent num den - 5)
  have hround := abs_roundHalfEven_sub_le_abs_sub
    (inUnits num den (leadingExponent num den - 5)).1 hunits m
  rw [hvalue] at hround
  rw [value_ofRatio hnum, abs_mul_sub_eq hpos, abs_mul_sub_eq hpos]
  exact mul_le_mul_of_nonneg_right hround hpos.le

/-- A number below the decade of the ratio is further away than the least number of it. -/
theorem abs_value_ofRatio_sub_lt {s : Significant}
    (hbelow : s.value < 10 ^ leadingExponent num den) :
    |(ofRatio num den).value - num / den| < |s.value - num / den| := by
  have hlow := (leadingExponent_bounds hnum hden).1
  have hfive := ten_zpow_add_nat (leadingExponent num den - 5) 5
  rw [show leadingExponent num den - 5 + (5 : Nat) = leadingExponent num den by omega] at hfive
  have hleast := abs_value_ofRatio_sub_le hnum hden (10 ^ 5)
  rw [Nat.cast_pow, Nat.cast_ofNat, ← hfive] at hleast
  refine hleast.trans_lt ?_
  rw [abs_of_nonpos (sub_nonpos.2 hlow), abs_of_neg (by linarith)]
  linarith

theorem ofRatio_of_tie {m : Nat} (hm : m ≠ sixDigits num den)
    (h : |(m : ℚ) * 10 ^ (leadingExponent num den - 5) - num / den| =
      |(ofRatio num den).value - num / den|) :
    sixDigits num den % 2 = 0 ∧ m % 2 = 1 := by
  have hpos : (0 : ℚ) < 10 ^ (leadingExponent num den - 5) := by positivity
  obtain ⟨hunits, hvalue⟩ := inUnits_spec num hden (leadingExponent num den - 5)
  rw [value_ofRatio hnum, abs_mul_sub_eq hpos, abs_mul_sub_eq hpos] at h
  have hscaled := mul_right_cancel₀ hpos.ne' h
  rw [← hvalue] at hscaled
  have htie := roundHalfEven_of_tie hunits hm hscaled
  change sixDigits num den % 2 = 0 ∧
    (m = sixDigits num den + 1 ∨ m + 1 = sixDigits num den) at htie
  omega

theorem isNearest_ofRatio : (ofRatio num den).IsNearest (num / den) where
  isSix := isSix_ofRatio hnum hden
  nearest other hother := by
    rcases hother.on_grid_or_below (leadingExponent num den) with ⟨m, hm, -⟩ | hbelow
    · rw [hm]
      exact abs_value_ofRatio_sub_le hnum hden m
    · exact (abs_value_ofRatio_sub_lt hnum hden hbelow).le
  even_of_tie other hother hne htie := by
    rcases hother.on_grid_or_below (leadingExponent num den) with ⟨m, hm, -⟩ | hbelow
    · rw [hm] at htie
      rw [digits_ofRatio_mod_two hnum]
      refine (ofRatio_of_tie hnum hden ?_ htie).1
      rintro rfl
      apply hne
      apply hother.eq_of_value_eq (isSix_ofRatio hnum hden)
      rw [hm, value_ofRatio hnum]
    · exact absurd htie (abs_value_ofRatio_sub_lt hnum hden hbelow).ne'

/-- Two numbers that are both nearest would be neighbours with even last digits. -/
theorem isNearest_iff (s : Significant) : s.IsNearest (num / den) ↔ s = ofRatio num den := by
  refine ⟨fun hs => ?_, fun hs => hs ▸ isNearest_ofRatio hnum hden⟩
  have hnearest := isNearest_ofRatio hnum hden
  have htie : |s.value - num / den| = |(ofRatio num den).value - num / den| :=
    le_antisymm (hs.nearest _ hnearest.isSix) (hnearest.nearest s hs.isSix)
  by_contra hne
  have heven := hs.even_of_tie _ hnearest.isSix (Ne.symm hne) htie.symm
  rcases hs.isSix.on_grid_or_below (leadingExponent num den) with ⟨m, hm, hparity⟩ | hbelow
  · have hm' : m ≠ sixDigits num den := by
      rintro rfl
      apply hne
      apply hs.isSix.eq_of_value_eq hnearest.isSix
      rw [hm, value_ofRatio hnum]
    rw [hm] at htie
    have hodd := (ofRatio_of_tie hnum hden hm' htie).2
    have := hparity heven
    omega
  · exact absurd htie (abs_value_ofRatio_sub_lt hnum hden hbelow).ne'

end OfRatio

end Significant

end Tagged.Decimal
