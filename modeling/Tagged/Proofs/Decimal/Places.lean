import Mathlib.Algebra.Order.Floor.Semifield
import Mathlib.Data.Rat.Floor
import Mathlib.Tactic.Linarith
import Mathlib.Tactic.Positivity
import Mathlib.Tactic.Ring
import Tagged.Proofs.Decimal.GeneralText
import Tagged.Proofs.Decimal.Nearest

/-!
# Rounding to decimal places

A number can also be rounded to a number of places behind the point, without regard to its
significant digits. Where the places are those that six digits leave behind the point, this second
rounding of the exact number finds the same digits again, also for a number that the first rounding
took up to a power of ten. So positional digits are the digits of either rounding.
-/

namespace Tagged.Decimal

/-! ## Digits from the end -/

def lastDigits : Nat → Nat → Bytes
  | 0, _ => []
  | count + 1, n => lastDigits count (n / 10) ++ [Byte.ofDigit (n % 10)]

theorem length_lastDigits (count n : Nat) : (lastDigits count n).length = count := by
  induction count generalizing n with
  | zero => rfl
  | succ count ih => rw [lastDigits, List.length_append, ih, List.length_singleton]

theorem decimal_eq_append {count n : Nat} (h : 10 ^ count ≤ n) :
    decimal n = decimal (n / 10 ^ count) ++ lastDigits count n := by
  induction count generalizing n with
  | zero => rw [pow_zero, Nat.div_one, lastDigits, List.append_nil]
  | succ count ih =>
      rw [pow_succ] at h
      have hpos : 1 ≤ 10 ^ count := Nat.one_le_pow _ _ (by omega)
      rw [decimal_of_le (by omega), ih (by omega), lastDigits, List.append_assoc,
        Nat.div_div_eq_div_mul, pow_succ, Nat.mul_comm 10]

theorem lastDigits_zero (count : Nat) : lastDigits count 0 = List.replicate count 0x30 := by
  induction count with
  | zero => rfl
  | succ count ih =>
      rw [lastDigits, Nat.zero_div, ih, List.replicate_succ']
      rfl

theorem lastDigits_of_lt {n count : Nat} (h : n < 10 ^ count) (zeros : Nat) :
    lastDigits (zeros + count) n = List.replicate zeros 0x30 ++ lastDigits count n := by
  induction count generalizing n with
  | zero =>
      rw [show n = 0 by simpa using h, Nat.add_zero, lastDigits_zero, lastDigits, List.append_nil]
  | succ count ih =>
      rw [pow_succ] at h
      rw [← Nat.add_assoc, lastDigits, ih (by omega), lastDigits, List.append_assoc]

theorem lastDigits_eq_decimal {n count : Nat} (hlow : 10 ^ count ≤ n)
    (hhigh : n < 10 ^ (count + 1)) : lastDigits (count + 1) n = decimal n := by
  induction count generalizing n with
  | zero =>
      rw [pow_zero] at hlow
      rw [zero_add, pow_one] at hhigh
      rw [lastDigits, Nat.mod_eq_of_lt hhigh, decimal_of_lt hhigh]
      rfl
  | succ count ih =>
      rw [pow_succ] at hlow hhigh
      have hpos : 1 ≤ 10 ^ count := Nat.one_le_pow _ _ (by omega)
      rw [lastDigits, ih (by omega) (by omega), ← decimal_of_le (by omega)]

/-! ## Positional digits -/

namespace Significant

def places (s : Significant) : Nat := (5 - s.exponent).toNat

variable {s : Significant}

theorem IsSix.text_eq (h : s.IsSix) : s.text = decimal s.digits := by
  rw [text, length_decimal_eq h.1 h.2]
  simp [precision]

theorem value_eq_div (hexponent : s.exponent ≤ 5) : s.value = s.digits / (10 ^ s.places : Nat) := by
  have hpow : (10 : ℚ) ^ (s.exponent - 5) = (10 ^ s.places)⁻¹ := by
    rw [← zpow_natCast, ← zpow_neg, places]
    congr 1
    omega
  rw [value, hpow, Nat.cast_pow, Nat.cast_ofNat, div_eq_mul_inv]

theorem floor_value (hexponent : s.exponent ≤ 5) : ⌊s.value⌋₊ = s.digits / 10 ^ s.places := by
  rw [value_eq_div hexponent, Nat.floor_div_eq_div]

/-- Positional digits are those of the six digits, split at the places. -/
theorem IsSix.parts_of_positional (h : s.IsSix) (hlow : -4 ≤ s.exponent) (hhigh : s.exponent < 6) :
    s.parts = ⟨decimal (s.digits / 10 ^ s.places), lastDigits s.places s.digits, none⟩ := by
  have hplaces : (s.places : Int) = 5 - s.exponent := by
    rw [places]
    omega
  have hrange : ¬(s.exponent < -4 || (precision : Int) ≤ s.exponent) = true := by
    simp only [Bool.or_eq_true, decide_eq_true_eq]
    unfold precision
    omega
  rw [parts, if_neg hrange, h.text_eq]
  split
  next hneg =>
    -- a number below one: the six digits stand behind zeros
    have hzero : s.digits / 10 ^ s.places = 0 := by
      apply Nat.div_eq_of_lt
      calc
        s.digits < 10 ^ 6 := h.2
        _ ≤ 10 ^ s.places := Nat.pow_le_pow_right (by omega) (by omega)
    rw [hzero, show s.places = s.exponent.natAbs - 1 + 6 by omega, lastDigits_of_lt h.2,
      lastDigits_eq_decimal h.1 h.2, decimal_of_lt (show 0 < 10 by omega)]
    rfl
  next hpos =>
    have hle : 10 ^ s.places ≤ s.digits := by
      calc
        10 ^ s.places ≤ 10 ^ 5 := Nat.pow_le_pow_right (by omega) (by omega)
        _ ≤ s.digits := h.1
    have hsplit := decimal_eq_append hle
    have hlength : (decimal (s.digits / 10 ^ s.places)).length = s.exponent.toNat + 1 := by
      have htotal := congrArg List.length hsplit
      rw [length_decimal_eq h.1 h.2, List.length_append, length_lastDigits] at htotal
      omega
    rw [hsplit, List.take_left' hlength, List.drop_left' hlength]

end Significant

/-! ## The second rounding -/

/-- A ratio rounded to a number of places: the digits before the point and all of the places. -/
def fixed (num den places : Nat) : Bytes × Bytes :=
  let n := roundHalfEven (num * 10 ^ places) den
  (decimal (n / 10 ^ places), lastDigits places n)

theorem inUnits_of_le_five (num den : Nat) {e : Int} (he : e ≤ 5) :
    inUnits num den (e - 5) = (num * 10 ^ (5 - e).toNat, den) := by
  unfold inUnits
  split
  next hpos =>
    have : e = 5 := by omega
    subst this
    simp
  next hneg =>
    rw [show (e - 5).natAbs = (5 - e).toNat by omega]
    rfl

/-- Rounded to the places that its six digits leave, a ratio has these digits again. -/
theorem roundHalfEven_places {num den : Nat} (hnum : 0 < num) (hden : 0 < den)
    (hexponent : (Significant.ofRatio num den).exponent ≤ 5) :
    roundHalfEven (num * 10 ^ (Significant.ofRatio num den).places) den =
      (Significant.ofRatio num den).digits := by
  have hgrid := inUnits_spec num hden (leadingExponent num den - 5)
  have hround := abs_sixDigits_sub_le num hden
  unfold Significant.places
  rw [Significant.ofRatio_of_pos hnum] at hexponent ⊢
  split at hexponent
  next hcarry =>
    -- a digit fewer behind the point: what was rounded up to `10 ^ 6` is next to `10 ^ 5`
    dsimp only at hexponent
    rw [if_pos hcarry]
    dsimp only
    have hten : (num * 10 ^ (5 - leadingExponent num den).toNat : Nat) =
        num * 10 ^ (5 - (leadingExponent num den + 1)).toNat * 10 := by
      rw [Nat.mul_assoc, ← pow_succ]
      congr 2
      omega
    rw [inUnits_of_le_five num den (by omega), hten] at hgrid
    apply roundHalfEven_eq_of_abs_lt hden
    rw [hcarry, ← hgrid.2, abs_le] at hround
    push_cast at hround ⊢
    rw [mul_div_right_comm] at hround
    rw [abs_lt]
    constructor <;> linarith
  next hcarry =>
    dsimp only at hexponent
    rw [if_neg hcarry, sixDigits, inUnits_of_le_five num den hexponent]

theorem positional_eq_fixed {num den : Nat} (hnum : 0 < num) (hden : 0 < den)
    (hlow : -4 ≤ (Significant.ofRatio num den).exponent)
    (hhigh : (Significant.ofRatio num den).exponent < 6) :
    general (Significant.ofRatio num den) =
      joinPoint (fixed num den (Significant.ofRatio num den).places).1
        (fixed num den (Significant.ofRatio num den).places).2 := by
  have hsix := Significant.isSix_ofRatio hnum hden
  rw [Significant.general_eq_text, hsix.parts_of_positional hlow hhigh, Parts.text, exponentPart,
    List.append_nil, fixed, roundHalfEven_places hnum hden (by omega)]

end Tagged.Decimal
