import Mathlib.Algebra.Order.Field.Power
import Tagged.Proofs.Binary64.Nearest

/-!
# Neighbours

A number is faithful to a rational one if it is the same, or else one of the two numbers around
it. Rounding more than once can miss the nearest number, but as long as every step leaves all
binary64 numbers on the side where they were, it cannot skip a neighbour. Two such steps are the
ones that work with significands: leaving off all but the leading bits, and rounding to 53 bits
at any exponent.
-/

namespace Tagged.Binary64

/-! ## Numbers of few bits -/

def HasBits (bits : Nat) (q : ℚ) : Prop :=
  ∃ (s : Nat) (k : Int), s ≤ 2 ^ bits ∧ q = s * 2 ^ k

theorem two_zpow_le_one : (2 : ℚ) ^ (-1021 : Int) ≤ 1 :=
  zpow_le_one_of_nonpos₀ (by norm_num) (by norm_num)

theorem unit_eq_zpow : (unit : ℚ) = 2 ^ (1074 : Int) := by
  rw [unit_eq, Nat.cast_pow, Nat.cast_ofNat]
  rfl

theorem div_unit (q : ℚ) : q / unit = q * 2 ^ (-1074 : Int) := by
  rw [unit_eq_zpow, zpow_neg, div_eq_mul_inv]

namespace HasBits

variable {bits : Nat} {q : ℚ}

theorem mul_two_zpow (h : HasBits bits q) (j : Int) : HasBits bits (q * 2 ^ j) := by
  obtain ⟨s, k, hs, rfl⟩ := h
  exact ⟨s, k + j, hs, by rw [zpow_add₀ (two_ne_zero' ℚ), mul_assoc]⟩

theorem mono (h : HasBits bits q) {more : Nat} (hle : bits ≤ more) : HasBits more q := by
  obtain ⟨s, k, hs, rfl⟩ := h
  exact ⟨s, k, hs.trans (Nat.pow_le_pow_right Nat.two_pos hle), rfl⟩

/-- A number of few bits that lies below the next multiple of `2 ^ e` does not lie above the
last one, if this one has more bits. -/
theorem le_of_lt (h : HasBits bits q) {m : Nat} (hm : 2 ^ bits ≤ m) {e : Int}
    (hlt : q < (m + 1) * 2 ^ e) : q ≤ m * 2 ^ e := by
  obtain ⟨s, k, hs, rfl⟩ := h
  have hpos : (0 : ℚ) < 2 ^ e := by positivity
  rcases le_or_gt e k with hle | hgt
  · -- on the grid of `2 ^ e` the bound is one of the points
    have hgrid : (s : ℚ) * 2 ^ k = (s * 2 ^ (k - e).toNat : Nat) * 2 ^ e := by
      rw [Nat.cast_mul, Nat.cast_pow, Nat.cast_ofNat, mul_assoc, ← zpow_natCast,
        ← zpow_add₀ (two_ne_zero' ℚ)]
      congr 2
      omega
    rw [hgrid] at hlt ⊢
    have hpoint : s * 2 ^ (k - e).toNat < m + 1 := by
      exact_mod_cast lt_of_mul_lt_mul_right hlt hpos.le
    exact mul_le_mul_of_nonneg_right (Nat.cast_le.2 (Nat.le_of_lt_succ hpoint)) hpos.le
  · have hsm : (s : ℚ) ≤ m := Nat.cast_le.2 (hs.trans hm)
    have hpow : (2 : ℚ) ^ k ≤ 2 ^ e := zpow_le_zpow_right₀ (by norm_num) hgt.le
    exact mul_le_mul hsm hpow (by positivity) (by positivity)

theorem exists_pattern (h : HasBits 53 q) (hnormal : (2 : ℚ) ^ (-1021 : Int) ≤ q) :
    ∃ pattern, (patternUnits pattern : ℚ) = q * unit := by
  obtain ⟨s, k, hs, rfl⟩ := h
  have hexponent : -1074 ≤ k := by
    have hle : (2 : ℚ) ^ (-1021 : Int) ≤ 2 ^ (53 + k) := by
      rw [zpow_add₀ (two_ne_zero' ℚ)]
      refine hnormal.trans (mul_le_mul_of_nonneg_right ?_ (by positivity))
      exact_mod_cast hs
    have := (zpow_le_zpow_iff_right₀ (by norm_num : (1 : ℚ) < 2)).1 hle
    omega
  obtain ⟨pattern, hpattern⟩ := Binary64.exists_pattern (r := s) hs (k + 1074).toNat
  refine ⟨pattern, ?_⟩
  rw [hpattern, Nat.cast_mul, Nat.cast_pow, Nat.cast_ofNat, unit_eq_zpow, mul_assoc,
    ← zpow_add₀ (two_ne_zero' ℚ), ← zpow_natCast, Int.toNat_of_nonneg (by omega)]

end HasBits

theorem hasBits_two_zpow (k : Int) : HasBits 53 ((2 : ℚ) ^ k) :=
  ⟨1, k, Nat.one_le_two_pow, by rw [Nat.cast_one, one_mul]⟩

theorem hasBits_patternUnits (pattern : Nat) : HasBits 53 ((patternUnits pattern : ℚ) / unit) := by
  obtain ⟨e, r, -, hr, -, hunits⟩ := exists_significand pattern
  refine ⟨r, e + -1074, hr.le, ?_⟩
  rw [hunits, div_unit, Nat.cast_mul, Nat.cast_pow, Nat.cast_ofNat, zpow_add₀ (two_ne_zero' ℚ),
    zpow_natCast, mul_assoc]

theorem hasBits_absValue (x : Binary64) : HasBits 53 x.absValue := hasBits_patternUnits x.magnitude

/-- The number halfway between two neighbours has one more bit. -/
theorem hasBits_midpoint (pattern : Nat) :
    HasBits 54 (((patternUnits pattern : ℚ) + patternUnits (pattern + 1)) / 2 / unit) := by
  obtain ⟨e, r, hlow, hr, hpattern, hunits⟩ := exists_significand pattern
  have hnext : patternUnits (pattern + 1) = (r + 1) * 2 ^ e := by
    rw [hpattern, Nat.add_assoc]
    exact patternUnits_add (by omega) (by omega)
  refine ⟨2 * r + 1, e + (-1 + -1074), ?_, ?_⟩
  · unfold binade at hr
    omega
  · have hsplit := zpow_add₀ (two_ne_zero' ℚ)
    rw [hunits, hnext, div_unit, hsplit, hsplit, zpow_natCast, zpow_neg_one]
    generalize (2 : ℚ) ^ (-1074 : Int) = least
    push_cast
    ring

/-! ## Rounding to 53 bits -/

namespace IsRounded

variable {negative : Bool} {q c : ℚ} {x : Binary64}

/-- What has 53 bits is not rounded. -/
theorem absValue_eq (h : IsRounded negative q x) (hfinite : x.isFinite = true)
    (hbits : HasBits 53 q) (hnormal : (2 : ℚ) ^ (-1021 : Int) ≤ q) : x.absValue = q := by
  obtain ⟨pattern, hpattern⟩ := hbits.exists_pattern hnormal
  rw [absValue, units, (h.isNearestPattern hfinite).eq_of_exact hpattern, hpattern,
    mul_div_cancel_right₀ _ cast_unit_pos.ne']

/-- What has 53 bits is infinite only where it is beyond the range. -/
theorem two_pow_le (h : IsRounded negative q x) (hinfinite : x.isFinite = false)
    (hbits : HasBits 53 q) (hnormal : (2 : ℚ) ^ (-1021 : Int) ≤ q) : 2 ^ 1024 ≤ q := by
  obtain ⟨pattern, h, rfl⟩ := h
  obtain ⟨exact, hexact⟩ := hbits.exists_pattern hnormal
  have hle : infinityPattern ≤ exact := by
    have hcut : infinityPattern ≤ (ofPattern negative pattern).magnitude :=
      Nat.not_lt.1 (of_decide_eq_false hinfinite)
    rw [← h.eq_of_exact hexact]
    exact hcut.trans (Nat.min_le_left _ _)
  have hunits := patternUnits_le_iff.2 hle
  rw [hexact, patternUnits_infinityPattern, Nat.cast_mul, Nat.cast_pow, Nat.cast_ofNat] at hunits
  exact le_of_mul_le_mul_right hunits cast_unit_pos

theorem le_absValue (h : IsRounded negative q x) (hfinite : x.isFinite = true)
    (hc : HasBits 53 c) (hnormal : (2 : ℚ) ^ (-1021 : Int) ≤ c) (hle : c ≤ q) :
    c ≤ x.absValue := by
  obtain ⟨pattern, hpattern⟩ := hc.exists_pattern hnormal
  rw [absValue, le_div_iff₀ cast_unit_pos, ← hpattern]
  apply patternUnits_le_iff.2
  apply (h.isNearestPattern hfinite).le_of_le
  rw [hpattern]
  exact mul_le_mul_of_nonneg_right hle cast_unit_pos.le

theorem absValue_le (h : IsRounded negative q x) (hfinite : x.isFinite = true)
    (hc : HasBits 53 c) (hnormal : (2 : ℚ) ^ (-1021 : Int) ≤ c) (hge : q ≤ c) :
    x.absValue ≤ c := by
  obtain ⟨pattern, hpattern⟩ := hc.exists_pattern hnormal
  rw [absValue, div_le_iff₀ cast_unit_pos, ← hpattern]
  apply patternUnits_le_iff.2
  apply (h.isNearestPattern hfinite).ge_of_ge
  rw [hpattern]
  exact mul_le_mul_of_nonneg_right hge cast_unit_pos.le

/-- At whatever exponent it is used later, a significand is rounded no further down than to a
number of 53 bits that is below it. -/
theorem le_absValue_mul (h : IsRounded negative q x) (hfinite : x.isFinite = true) (hone : 1 ≤ q)
    (hc : HasBits 53 c) {t : Int} (hle : c ≤ q * 2 ^ t) : c ≤ x.absValue * 2 ^ t := by
  have hpos : (0 : ℚ) < 2 ^ t := by positivity
  have hshift : c * 2 ^ (-t) = c / 2 ^ t := by rw [zpow_neg, div_eq_mul_inv]
  have hbits := hc.mul_two_zpow (-t)
  rw [hshift] at hbits
  rw [← div_le_iff₀ hpos] at hle ⊢
  rcases le_or_gt 1 (c / 2 ^ t) with hlarge | hsmall
  · exact h.le_absValue hfinite hbits (two_zpow_le_one.trans hlarge) hle
  · exact hsmall.le.trans (h.le_absValue hfinite (hasBits_two_zpow 0) two_zpow_le_one hone)

theorem absValue_mul_le (h : IsRounded negative q x) (hfinite : x.isFinite = true) (hone : 1 ≤ q)
    (hc : HasBits 53 c) {t : Int} (hge : q * 2 ^ t ≤ c) : x.absValue * 2 ^ t ≤ c := by
  have hpos : (0 : ℚ) < 2 ^ t := by positivity
  have hshift : c * 2 ^ (-t) = c / 2 ^ t := by rw [zpow_neg, div_eq_mul_inv]
  have hbits := hc.mul_two_zpow (-t)
  rw [hshift] at hbits
  rw [← le_div_iff₀ hpos] at hge ⊢
  exact h.absValue_le hfinite hbits (two_zpow_le_one.trans (hone.trans hge)) hge

end IsRounded

/-! ## Faithful numbers -/

structure IsNextBelow (x : Binary64) (q : ℚ) : Prop where
  isFinite : x.isFinite = true
  lt : x.absValue < q
  largest : ∀ y : Binary64, y.isFinite = true → y.absValue < q → y.absValue ≤ x.absValue

/-- The least number above `q`, which is infinity if no finite number lies above it. -/
structure IsNextAbove (x : Binary64) (q : ℚ) : Prop where
  isNaN : x.isNaN = false
  lt : x.isFinite = true → q < x.absValue
  least : ∀ y : Binary64, y.isFinite = true → q < y.absValue →
    x.isFinite = true ∧ x.absValue ≤ y.absValue

/-- No finite number is passed over on the way from `q` to `x`, nor `q` itself if it is one. -/
structure IsFaithful (x : Binary64) (q : ℚ) : Prop where
  isNaN : x.isNaN = false
  ge_of_le : ∀ y : Binary64, y.isFinite = true → y.absValue ≤ q → y.magnitude ≤ x.magnitude
  le_of_ge : ∀ y : Binary64, y.isFinite = true → q ≤ y.absValue → x.magnitude ≤ y.magnitude

theorem absValue_le_iff {x y : Binary64} :
    x.absValue ≤ y.absValue ↔ x.magnitude ≤ y.magnitude := by
  rw [absValue, absValue, div_le_div_iff_of_pos_right cast_unit_pos]
  exact patternUnits_le_iff

namespace IsFaithful

variable {x : Binary64} {q : ℚ}

theorem magnitude_eq (h : x.IsFaithful q) {y : Binary64} (hy : y.isFinite = true)
    (hq : y.absValue = q) : x.magnitude = y.magnitude :=
  Nat.le_antisymm (h.le_of_ge y hy hq.ge) (h.ge_of_le y hy hq.le)

theorem neighbour (h : x.IsFaithful q)
    (hq : ∀ y : Binary64, y.isFinite = true → y.absValue ≠ q) :
    x.IsNextBelow q ∨ x.IsNextAbove q := by
  cases hx : x.isFinite with
  | false =>
      right
      refine ⟨h.isNaN, by simp [hx], fun y hy hlt => ?_⟩
      have hle := h.le_of_ge y hy hlt.le
      have hy' : y.magnitude < infinityPattern := of_decide_eq_true hy
      have hx' : ¬ x.magnitude < infinityPattern := of_decide_eq_false hx
      omega
  | true =>
      rcases lt_or_gt_of_ne (hq x hx) with hlt | hgt
      · left
        exact ⟨hx, hlt, fun y hy hy' => absValue_le_iff.2 (h.ge_of_le y hy hy'.le)⟩
      · right
        exact ⟨h.isNaN, fun _ => hgt, fun y hy hy' =>
          ⟨hx, absValue_le_iff.2 (h.le_of_ge y hy hy'.le)⟩⟩

end IsFaithful

/-- If no finite number changes sides between `q` and `q'`, rounding `q'` is faithful to `q`. -/
theorem IsRounded.isFaithful {negative : Bool} {x : Binary64} {q q' : ℚ}
    (h : IsRounded negative q' x)
    (hbelow : ∀ y : Binary64, y.isFinite = true → y.absValue ≤ q → y.absValue ≤ q')
    (habove : ∀ y : Binary64, y.isFinite = true → q ≤ y.absValue → q' ≤ y.absValue) :
    x.IsFaithful q := by
  obtain ⟨pattern, h, rfl⟩ := h
  refine ⟨isNaN_ofPattern _ _, fun y hy hle => ?_, fun y hy hge => ?_⟩
  · have hpattern : y.magnitude ≤ pattern := by
      apply h.le_of_le
      rw [← div_le_iff₀ cast_unit_pos]
      exact hbelow y hy hle
    have hy' : y.magnitude < infinityPattern := of_decide_eq_true hy
    exact Nat.le_min.2 ⟨hpattern, hy'.le⟩
  · have hpattern : pattern ≤ y.magnitude := by
      apply h.ge_of_ge
      rw [← le_div_iff₀ cast_unit_pos]
      exact habove y hy hge
    exact (Nat.min_le_left _ _).trans hpattern

end Tagged.Binary64
