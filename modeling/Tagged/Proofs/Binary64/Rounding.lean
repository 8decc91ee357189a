import Mathlib.Algebra.Order.Field.Power
import Mathlib.Data.Nat.Cast.Order.Field
import Mathlib.Tactic.FieldSimp
import Mathlib.Tactic.Linarith
import Mathlib.Tactic.Positivity
import Mathlib.Tactic.Ring
import Tagged.Binary64.Round

/-!
# The error of rounding

How far a rounded number can be from the exact one. A quotient is rounded to an integer by at
most a half, and to binary64 by at most half the spacing of the numbers around it, which is a
unit for the small ones and one part in `2 ^ 52` for all others.
-/

namespace Tagged

theorem roundHalfEven_bounds (num den : Nat) :
    num / den ≤ roundHalfEven num den ∧ roundHalfEven num den ≤ num / den + 1 := by
  unfold roundHalfEven
  dsimp only
  split <;> omega

theorem cast_div_eq_add (num : Nat) {den : Nat} (hden : 0 < den) :
    (num : ℚ) / den = (num / den : Nat) + (num % den : Nat) / den := by
  have hdenq : (den : ℚ) ≠ 0 := by exact_mod_cast hden.ne'
  have hsplit : (num : ℚ) = den * (num / den : Nat) + (num % den : Nat) := by
    exact_mod_cast (Nat.div_add_mod num den).symm
  rw [div_eq_iff hdenq, hsplit]
  field_simp

theorem abs_roundHalfEven_sub_le (num : Nat) {den : Nat} (hden : 0 < den) :
    |(roundHalfEven num den : ℚ) - num / den| ≤ 1 / 2 := by
  have hdenq : (0 : ℚ) < den := by exact_mod_cast hden
  have hmod : num % den < den := Nat.mod_lt num hden
  rw [cast_div_eq_add num hden, abs_le]
  unfold roundHalfEven
  dsimp only
  split
  next hdown =>
    have htwice : 2 * (num % den) ≤ den := by
      simp only [Bool.or_eq_true, Bool.and_eq_true, decide_eq_true_eq, beq_iff_eq] at hdown
      omega
    have hfrac : ((num % den : Nat) : ℚ) / den ≤ 1 / 2 := by
      rw [div_le_div_iff₀ hdenq (by norm_num)]
      have : (2 : ℚ) * (num % den : Nat) ≤ den := by exact_mod_cast htwice
      linarith
    have hpos : (0 : ℚ) ≤ (num % den : Nat) / den := by positivity
    constructor <;> linarith
  next hup =>
    have htwice : den ≤ 2 * (num % den) := by
      simp only [Bool.or_eq_true, Bool.and_eq_true, decide_eq_true_eq, beq_iff_eq] at hup
      omega
    have hfrac : (1 : ℚ) / 2 ≤ ((num % den : Nat) : ℚ) / den := by
      rw [div_le_div_iff₀ (by norm_num) hdenq]
      have : (den : ℚ) ≤ 2 * (num % den : Nat) := by exact_mod_cast htwice
      linarith
    have hone : ((num % den : Nat) : ℚ) / den ≤ 1 := by
      rw [div_le_one hdenq]
      exact_mod_cast hmod.le
    push_cast
    constructor <;> linarith

theorem roundHalfEven_eq_of_abs_lt {num den d : Nat} (hden : 0 < den)
    (h : |(num : ℚ) / den - d| < 1 / 2) : roundHalfEven num den = d := by
  have hround := abs_roundHalfEven_sub_le num hden
  rw [abs_lt] at h
  rw [abs_le] at hround
  have hlow : (roundHalfEven num den : ℚ) < d + 1 := by linarith
  have hhigh : (d : ℚ) < roundHalfEven num den + 1 := by linarith
  have hlow' : roundHalfEven num den < d + 1 := by exact_mod_cast hlow
  have hhigh' : d < roundHalfEven num den + 1 := by exact_mod_cast hhigh
  omega

theorem one_le_abs_cast_sub {m n : Nat} (h : m ≠ n) : (1 : ℚ) ≤ |(m : ℚ) - n| := by
  have hint : (1 : ℤ) ≤ |(m : ℤ) - n| := by
    apply Int.one_le_abs
    omega
  exact_mod_cast hint

/-- No integer is nearer to a quotient than the one that it is rounded to. -/
theorem abs_roundHalfEven_sub_le_abs_sub (num : Nat) {den : Nat} (hden : 0 < den) (m : Nat) :
    |(roundHalfEven num den : ℚ) - num / den| ≤ |(m : ℚ) - num / den| := by
  by_cases hm : m = roundHalfEven num den
  · rw [hm]
  · have hround := abs_roundHalfEven_sub_le num hden
    have hapart := one_le_abs_cast_sub hm
    have htriangle := abs_sub_le (m : ℚ) (num / den) (roundHalfEven num den)
    rw [abs_sub_comm ((num : ℚ) / den)] at htriangle
    linarith

theorem roundHalfEven_mod_two_of_half {num den : Nat} (hden : 0 < den)
    (h : |(roundHalfEven num den : ℚ) - num / den| = 1 / 2) : roundHalfEven num den % 2 = 0 := by
  have hdenq : (den : ℚ) ≠ 0 := by exact_mod_cast hden.ne'
  have hmod : num % den < den := Nat.mod_lt num hden
  -- a half away means that twice the remainder is the divisor, and then the parity decides
  have htwice : roundHalfEven num den = num / den ∨ roundHalfEven num den = num / den + 1 := by
    have := roundHalfEven_bounds num den
    omega
  have hhalf : 2 * (num % den) = den := by
    have hfrac : ((num % den : Nat) : ℚ) / den = 1 / 2 := by
      rw [cast_div_eq_add num hden] at h
      rcases htwice with hr | hr
      · rw [hr, sub_add_cancel_left, abs_neg, abs_of_nonneg (by positivity)] at h
        exact h
      · have hle : ((num % den : Nat) : ℚ) / den ≤ 1 := by
          rw [div_le_one (by positivity)]
          exact_mod_cast hmod.le
        rw [hr, Nat.cast_add, Nat.cast_one, add_sub_add_left_eq_sub,
          abs_of_nonneg (by linarith)] at h
        linarith
    rw [div_eq_iff hdenq] at hfrac
    have : (2 : ℚ) * (num % den : Nat) = den := by linarith
    exact_mod_cast this
  unfold roundHalfEven
  dsimp only
  rw [hhalf]
  by_cases heven : num / den % 2 = 0
  · simp [heven]
  · simp only [lt_self_iff_false, decide_false, BEq.rfl, Bool.true_and, Bool.false_or, beq_iff_eq,
      heven, if_false]
    omega

/-- Of two integers that are equally near to a quotient it is rounded to the even one, and they
are neighbours. -/
theorem roundHalfEven_of_tie {num den m : Nat} (hden : 0 < den) (hm : m ≠ roundHalfEven num den)
    (h : |(m : ℚ) - num / den| = |(roundHalfEven num den : ℚ) - num / den|) :
    roundHalfEven num den % 2 = 0 ∧
      (m = roundHalfEven num den + 1 ∨ m + 1 = roundHalfEven num den) := by
  have hround := abs_roundHalfEven_sub_le num hden
  have hapart := one_le_abs_cast_sub hm
  have htriangle := abs_sub_le (m : ℚ) (num / den) (roundHalfEven num den)
  rw [abs_sub_comm ((num : ℚ) / den), h] at htriangle
  refine ⟨roundHalfEven_mod_two_of_half hden (by linarith), ?_⟩
  have hclose : |(m : ℚ) - roundHalfEven num den| ≤ 1 := by linarith
  have hint : |(m : ℤ) - roundHalfEven num den| ≤ 1 := by exact_mod_cast hclose
  rw [abs_le] at hint
  omega

/-- Distances on a grid, in units of the grid. -/
theorem abs_mul_sub_eq {c : ℚ} (hc : 0 < c) (m q : ℚ) : |m * c - q| = |m - q / c| * c := by
  rw [← abs_of_pos hc, ← abs_mul, abs_of_pos hc, sub_mul, div_mul_cancel₀ _ hc.ne']

namespace Binary64

/-- A significand `r` at the exponent `e` has the pattern `e * binade + r`, also where it is
short of 53 bits at the least exponent or has just outgrown them. -/
theorem patternUnits_add {e r : Nat} (hlow : e = 0 ∨ binade ≤ r) (hhigh : r ≤ 2 * binade) :
    patternUnits (e * binade + r) = r * 2 ^ e := by
  unfold patternUnits
  by_cases hsmall : r < binade
  · have he : e = 0 := by omega
    subst he
    rw [if_pos (by omega)]
    simp
  · rw [if_neg (by omega)]
    unfold binade at *
    by_cases htop : r < 2 * 0x10000000000000
    · have hmod : (e * 0x10000000000000 + r) % 0x10000000000000 = r - 0x10000000000000 := by
        omega
      have hdiv : (e * 0x10000000000000 + r) / 0x10000000000000 - 1 = e := by omega
      rw [hmod, hdiv, show 0x10000000000000 + (r - 0x10000000000000) = r by omega]
      rfl
    · have hmod : (e * 0x10000000000000 + r) % 0x10000000000000 = 0 := by omega
      have hdiv : (e * 0x10000000000000 + r) / 0x10000000000000 - 1 = e + 1 := by omega
      rw [hmod, hdiv, show r = 2 * 0x10000000000000 by omega]
      change (0x10000000000000 + 0) * 2 ^ (e + 1) = 2 * 0x10000000000000 * 2 ^ e
      ring

def roundExponent (num den : Nat) : Nat := (num / den).log2 - 52

def roundSignificand (num den : Nat) : Nat :=
  roundHalfEven num (den * 2 ^ roundExponent num den)

theorem roundPattern_eq (num den : Nat) :
    roundPattern num den = roundExponent num den * binade + roundSignificand num den := rfl

theorem div_lt_of_roundExponent (num den : Nat) :
    num / den < 2 ^ (roundExponent num den + 53) := by
  have hself := Nat.lt_log2_self (n := num / den)
  have hle : (num / den).log2 + 1 ≤ roundExponent num den + 53 := by
    unfold roundExponent
    omega
  exact hself.trans_le (Nat.pow_le_pow_right (by omega) hle)

theorem le_div_of_roundExponent_ne_zero {num den : Nat} (he : roundExponent num den ≠ 0) :
    2 ^ (roundExponent num den + 52) ≤ num / den := by
  have hne : num / den ≠ 0 := by
    intro h0
    rw [roundExponent, h0] at he
    exact he rfl
  have hlog : roundExponent num den + 52 = (num / den).log2 := by
    unfold roundExponent at he ⊢
    omega
  rw [hlog]
  exact Nat.log2_self_le hne

theorem roundSignificand_le (num den : Nat) :
    roundSignificand num den ≤ 2 * binade := by
  have hround := (roundHalfEven_bounds num (den * 2 ^ roundExponent num den)).2
  have hlt : num / (den * 2 ^ roundExponent num den) < 2 * binade := by
    rw [← Nat.div_div_eq_div_mul]
    apply Nat.div_lt_of_lt_mul
    calc
      num / den < 2 ^ (roundExponent num den + 53) := div_lt_of_roundExponent num den
      _ = 2 ^ roundExponent num den * (2 * binade) := by rw [pow_add]; rfl
  unfold roundSignificand
  omega

theorem le_roundSignificand {num den : Nat} (he : roundExponent num den ≠ 0) :
    binade ≤ roundSignificand num den := by
  have hround := (roundHalfEven_bounds num (den * 2 ^ roundExponent num den)).1
  have hle : binade ≤ num / (den * 2 ^ roundExponent num den) := by
    rw [← Nat.div_div_eq_div_mul, Nat.le_div_iff_mul_le (by positivity)]
    calc
      binade * 2 ^ roundExponent num den = 2 ^ (roundExponent num den + 52) := by
        rw [pow_add, mul_comm]; rfl
      _ ≤ num / den := le_div_of_roundExponent_ne_zero he
  exact hle.trans hround

theorem patternUnits_roundPattern (num den : Nat) :
    patternUnits (roundPattern num den) =
      roundSignificand num den * 2 ^ roundExponent num den := by
  rw [roundPattern_eq]
  apply patternUnits_add _ (roundSignificand_le num den)
  by_cases he : roundExponent num den = 0
  · exact .inl he
  · exact .inr (le_roundSignificand he)

theorem abs_roundSignificand_sub_le (num : Nat) {den : Nat} (hden : 0 < den) :
    |(roundSignificand num den : ℚ) - num / den / 2 ^ roundExponent num den| ≤ 1 / 2 := by
  have hscaled : 0 < den * 2 ^ roundExponent num den := by positivity
  have hround := abs_roundHalfEven_sub_le num hscaled
  rw [Nat.cast_mul, Nat.cast_pow, Nat.cast_ofNat, ← div_div] at hround
  exact hround

theorem two_pow_roundExponent_le (num den : Nat) :
    (2 : ℚ) ^ roundExponent num den ≤ Max.max 1 ((num : ℚ) / den / 2 ^ 52) := by
  by_cases he : roundExponent num den = 0
  · rw [he, pow_zero]
    exact le_max_left _ _
  · have hle : (2 : ℚ) ^ (roundExponent num den + 52) ≤ (num / den : Nat) := by
      exact_mod_cast le_div_of_roundExponent_ne_zero he
    have hfloor : ((num / den : Nat) : ℚ) ≤ num / den := Nat.cast_div_le
    apply le_max_of_le_right
    rw [le_div_iff₀ (by positivity), ← pow_add]
    exact hle.trans hfloor

theorem abs_patternUnits_roundPattern_sub_le (num : Nat) {den : Nat} (hden : 0 < den) :
    |(patternUnits (roundPattern num den) : ℚ) - num / den| ≤
      Max.max 1 ((num : ℚ) / den / 2 ^ 52) / 2 := by
  have hround := abs_roundSignificand_sub_le num hden
  have hscale := two_pow_roundExponent_le num den
  have hpos : (0 : ℚ) < 2 ^ roundExponent num den := by positivity
  have hsplit : (patternUnits (roundPattern num den) : ℚ) - num / den =
      (roundSignificand num den - num / den / 2 ^ roundExponent num den) *
        2 ^ roundExponent num den := by
    rw [patternUnits_roundPattern, sub_mul, div_mul_cancel₀ _ hpos.ne']
    push_cast
    ring
  calc
    |(patternUnits (roundPattern num den) : ℚ) - num / den|
        = |(roundSignificand num den : ℚ) - num / den / 2 ^ roundExponent num den| *
            2 ^ roundExponent num den := by rw [hsplit, abs_mul, abs_of_pos hpos]
    _ ≤ 1 / 2 * 2 ^ roundExponent num den := by gcongr
    _ ≤ Max.max 1 ((num : ℚ) / den / 2 ^ 52) / 2 := by linarith

/-- Below the midpoint between the largest finite number and the next power of two, values
are rounded to finite numbers. -/
theorem roundPattern_lt_infinityPattern {num den : Nat} (hden : 0 < den)
    (h : (num : ℚ) / den < (2 * binade - 1 / 2) * 2 ^ 2045) :
    roundPattern num den < infinityPattern := by
  have hsignificand := roundSignificand_le num den
  have hfloor : ((num / den : Nat) : ℚ) ≤ num / den := Nat.cast_div_le
  have hexponent : roundExponent num den ≤ 2045 := by
    by_contra hlarge
    have hle : (2 : ℚ) ^ (roundExponent num den + 52) ≤ (num / den : Nat) := by
      exact_mod_cast le_div_of_roundExponent_ne_zero (by omega)
    have hpow : (2 : ℚ) ^ 53 * 2 ^ 2045 ≤ 2 ^ (roundExponent num den + 52) := by
      rw [← pow_add]
      exact pow_le_pow_right₀ (by norm_num) (by omega)
    have hbinade : (2 : ℚ) ^ 53 = 2 * binade := by norm_num [binade]
    have hpos : (0 : ℚ) < 2 ^ 2045 := by positivity
    rw [hbinade] at hpow
    generalize (2 : ℚ) ^ 2045 = p at *
    linarith
  rw [roundPattern_eq]
  by_cases htop : roundExponent num den = 2045
  · -- at the largest exponent the significand must not outgrow its 53 bits
    have hround := abs_roundSignificand_sub_le num hden
    rw [htop, abs_le] at hround
    have hscaled : (num : ℚ) / den / 2 ^ 2045 < 2 * binade - 1 / 2 := by
      rw [div_lt_iff₀ (by positivity)]
      exact h
    have hlt : (roundSignificand num den : ℚ) < 2 * binade := by
      generalize (num : ℚ) / den / 2 ^ 2045 = q at *
      linarith [hround.2]
    have hlt' : roundSignificand num den < 2 * binade := by exact_mod_cast hlt
    rw [htop]
    unfold binade infinityPattern at *
    omega
  · unfold binade infinityPattern at *
    omega

def absValue (x : Binary64) : ℚ := x.units / unit

theorem unit_eq : unit = 2 ^ 1074 := by
  decide +kernel

theorem unit_pos : 0 < unit := by
  rw [unit_eq]
  positivity

theorem cast_unit_pos : (0 : ℚ) < unit := Nat.cast_pos.2 unit_pos

theorem patternUnits_pos {pattern : Nat} (h : 0 < pattern) : 0 < patternUnits pattern := by
  unfold patternUnits
  split
  · exact h
  · exact Nat.mul_pos (by unfold binade; omega) (Nat.pow_pos (by omega))

theorem units_pos {x : Binary64} (h : x.isZero = false) : 0 < x.units := by
  apply patternUnits_pos
  simp only [isZero, beq_eq_false_iff_ne] at h
  omega

theorem patternUnits_lt {pattern e : Nat} (h : pattern < (e + 2) * binade) :
    patternUnits pattern < 2 ^ (53 + e) := by
  have hpow : 1 ≤ 2 ^ e := Nat.one_le_two_pow
  rw [pow_add]
  unfold patternUnits
  split
  next hsmall =>
    unfold binade at hsmall
    omega
  next =>
    unfold binade at h ⊢
    have hexponent : pattern / 0x10000000000000 - 1 ≤ e := by omega
    have hsignificand : 0x10000000000000 + pattern % 0x10000000000000 < 2 ^ 53 := by omega
    exact Nat.mul_lt_mul_of_lt_of_le hsignificand (Nat.pow_le_pow_right (by omega) hexponent)
      hpow

theorem absValue_lt {x : Binary64} (h : x.isFinite = true) : x.absValue < 2 ^ 1024 := by
  have hunits : x.units < 2 ^ (53 + 2045) := patternUnits_lt (of_decide_eq_true h)
  have hunitsq : (x.units : ℚ) < ((2 ^ (53 + 2045) : Nat) : ℚ) := Nat.cast_lt.2 hunits
  rw [Nat.cast_pow, Nat.cast_ofNat] at hunitsq
  rw [absValue, div_lt_iff₀ cast_unit_pos, unit_eq, Nat.cast_pow, Nat.cast_ofNat, ← pow_add]
  exact hunitsq

theorem one_div_unit_le_absValue {x : Binary64} (h : x.isZero = false) :
    1 / (unit : ℚ) ≤ x.absValue := by
  have hpos := units_pos h
  rw [absValue, div_le_div_iff_of_pos_right cast_unit_pos]
  exact_mod_cast hpos

/-- The midpoint between the largest finite number and the next power of two. -/
def overflowBound : ℚ := (2 * binade - 1 / 2) * 2 ^ 971

theorem overflowBound_mul_unit : overflowBound * unit = (2 * binade - 1 / 2) * 2 ^ 2045 := by
  rw [overflowBound, unit_eq, Nat.cast_pow, Nat.cast_ofNat, mul_assoc, ← pow_add]

/-- A ratio below the overflow bound is rounded to a finite number, with an error of at most
half a unit or half of one part in `2 ^ 52`. -/
theorem ofRatio_of_lt_overflowBound (negative : Bool) {num den : Nat} (hden : 0 < den)
    (h : (num : ℚ) / den < overflowBound) :
    (ofRatio negative num den).isFinite = true ∧
      |(ofRatio negative num den).absValue - num / den| ≤
        Max.max (1 / (unit : ℚ)) (num / den / 2 ^ 52) / 2 := by
  have hscaled : ((num * unit : Nat) : ℚ) / den = num / den * unit := by
    push_cast
    ring
  have hlt : roundPattern (num * unit) den < infinityPattern := by
    apply roundPattern_lt_infinityPattern hden
    rw [hscaled, ← overflowBound_mul_unit]
    exact mul_lt_mul_of_pos_right h cast_unit_pos
  have hmagnitude : (ofRatio negative num den).magnitude = roundPattern (num * unit) den :=
    Nat.min_eq_left hlt.le
  constructor
  · rw [isFinite, hmagnitude]
    exact decide_eq_true hlt
  · have herror := abs_patternUnits_roundPattern_sub_le (num * unit) hden
    rw [hscaled] at herror
    have hsplit : (patternUnits (roundPattern (num * unit) den) : ℚ) / unit - num / den =
        (patternUnits (roundPattern (num * unit) den) - num / den * unit) / unit := by
      rw [sub_div, mul_div_cancel_right₀ _ cast_unit_pos.ne']
    have hmax : Max.max (1 / (unit : ℚ)) (num / den / 2 ^ 52) * unit =
        Max.max 1 ((num : ℚ) / den * unit / 2 ^ 52) := by
      rw [max_mul_of_nonneg _ _ cast_unit_pos.le, one_div_mul_cancel cast_unit_pos.ne', div_mul_eq_mul_div]
    rw [absValue, units, hmagnitude, hsplit, abs_div, abs_of_pos cast_unit_pos, div_le_iff₀ cast_unit_pos]
    calc
      |(patternUnits (roundPattern (num * unit) den) : ℚ) - num / den * unit|
          ≤ Max.max 1 ((num : ℚ) / den * unit / 2 ^ 52) / 2 := herror
      _ = Max.max (1 / (unit : ℚ)) (num / den / 2 ^ 52) / 2 * unit := by
        rw [← hmax, div_mul_eq_mul_div]

theorem ofDecimal_eq_ofRatio (negative : Bool) (significand : Nat) (exponent : Int) :
    ∃ num den : Nat, 0 < den ∧ (num : ℚ) / den = significand * 10 ^ exponent ∧
      ofDecimal negative significand exponent = ofRatio negative num den := by
  by_cases hpos : 0 ≤ exponent
  · refine ⟨significand * Nat.pow 10 exponent.toNat, 1, by omega, ?_, ?_⟩
    · have hpow : (10 : ℚ) ^ exponent = 10 ^ exponent.toNat := by
        rw [← zpow_natCast, Int.toNat_of_nonneg hpos]
      rw [hpow, Nat.pow_eq]
      push_cast
      ring
    · rw [ofDecimal, if_pos hpos]
  · refine ⟨significand, Nat.pow 10 exponent.natAbs, Nat.pow_pos (by omega), ?_, ?_⟩
    · have hpow : (10 : ℚ) ^ exponent = (10 ^ exponent.natAbs)⁻¹ := by
        rw [← zpow_natCast, ← zpow_neg]
        congr 1
        omega
      rw [hpow, Nat.pow_eq]
      push_cast
      ring
    · rw [ofDecimal, if_neg hpos]

theorem ofDecimal_of_lt_overflowBound (negative : Bool) {significand : Nat} {exponent : Int}
    (h : (significand : ℚ) * 10 ^ exponent < overflowBound) :
    (ofDecimal negative significand exponent).isFinite = true ∧
      |(ofDecimal negative significand exponent).absValue - significand * 10 ^ exponent| ≤
        Max.max (1 / (unit : ℚ)) (significand * 10 ^ exponent / 2 ^ 52) / 2 := by
  obtain ⟨num, den, hden, hvalue, heq⟩ := ofDecimal_eq_ofRatio negative significand exponent
  rw [← hvalue] at h ⊢
  rw [heq]
  exact ofRatio_of_lt_overflowBound negative hden h

end Binary64

end Tagged
