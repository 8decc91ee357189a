import Mathlib.Order.Monotone.Basic
import Tagged.Proofs.Binary64.Kinds

/-!
# The nearest number

Patterns are ordered as what they stand for, and of all patterns the one that a ratio is rounded
to is nearest to it; of two that are equally near it is the even one. These two facts say all
there is to say about rounding: no other pattern is nearest in this sense, no pattern lies between
a ratio and what it is rounded to, and a ratio that is a pattern's own value is kept.

Patterns go on beyond that of infinity here, as if there were larger exponents. A number whose
pattern is cut off there is infinite.
-/

namespace Tagged.Binary64

/-! ## The order of patterns -/

/-- Every pattern is an exponent and a significand, of 53 bits except at the least exponent. -/
theorem exists_significand (pattern : Nat) :
    ∃ e r : Nat, (e = 0 ∨ binade ≤ r) ∧ r < 2 * binade ∧ pattern = e * binade + r ∧
      patternUnits pattern = r * 2 ^ e := by
  by_cases hsmall : pattern < binade
  · exact ⟨0, pattern, .inl rfl, by omega, by omega, by simp [patternUnits, hsmall]⟩
  · have hpos : 0 < binade := by decide
    have hmod : pattern % binade < binade := Nat.mod_lt _ hpos
    have hsplit : pattern = (pattern / binade - 1) * binade + (binade + pattern % binade) := by
      unfold binade at *
      omega
    refine ⟨pattern / binade - 1, binade + pattern % binade, .inr (by omega), by omega, hsplit, ?_⟩
    rw [patternUnits, if_neg hsmall]
    rfl

theorem patternUnits_strictMono : StrictMono patternUnits := by
  apply strictMono_nat_of_lt_succ
  intro pattern
  obtain ⟨e, r, hlow, hhigh, hpattern, hunits⟩ := exists_significand pattern
  have hnext : patternUnits (pattern + 1) = (r + 1) * 2 ^ e := by
    rw [hpattern, Nat.add_assoc]
    exact patternUnits_add (by omega) (by omega)
  rw [hunits, hnext]
  exact Nat.mul_lt_mul_of_pos_right (Nat.lt_succ_self r) (Nat.two_pow_pos e)

theorem patternUnits_le_iff {p p' : Nat} :
    (patternUnits p : ℚ) ≤ patternUnits p' ↔ p ≤ p' := by
  rw [Nat.cast_le, patternUnits_strictMono.le_iff_le]

theorem patternUnits_lt_iff {p p' : Nat} :
    (patternUnits p : ℚ) < patternUnits p' ↔ p < p' := by
  rw [Nat.cast_lt, patternUnits_strictMono.lt_iff_lt]

/-- On the grid of the exponent `e`, a pattern is a point or lies below all significands of 53
bits. -/
theorem on_grid_or_below (pattern e : Nat) :
    (∃ m : Nat, patternUnits pattern = m * 2 ^ e) ∨
      (e ≠ 0 ∧ patternUnits pattern < binade * 2 ^ e) := by
  obtain ⟨e', r, -, hhigh, -, hunits⟩ := exists_significand pattern
  rw [hunits]
  rcases le_or_gt e e' with hle | hlt
  · left
    refine ⟨r * 2 ^ (e' - e), ?_⟩
    rw [Nat.mul_assoc, ← pow_add, Nat.sub_add_cancel hle]
  · right
    refine ⟨by omega, ?_⟩
    calc
      r * 2 ^ e' < 2 * binade * 2 ^ e' := Nat.mul_lt_mul_of_pos_right hhigh (Nat.two_pow_pos e')
      _ = binade * 2 ^ (e' + 1) := by rw [pow_succ]; ring
      _ ≤ binade * 2 ^ e := Nat.mul_le_mul_left _ (Nat.pow_le_pow_right (by omega) hlt)

/-- Every significand of at most 53 bits has a pattern at every exponent. -/
theorem exists_pattern {r : Nat} (hr : r ≤ 2 * binade) (e : Nat) :
    ∃ pattern, patternUnits pattern = r * 2 ^ e := by
  induction e generalizing r with
  | zero => exact ⟨0 * binade + r, patternUnits_add (.inl rfl) hr⟩
  | succ e ih =>
      by_cases hlow : binade ≤ r
      · exact ⟨(e + 1) * binade + r, patternUnits_add (.inr hlow) hr⟩
      · obtain ⟨pattern, hpattern⟩ := ih (r := 2 * r) (by omega)
        exact ⟨pattern, by rw [hpattern, pow_succ]; ring⟩

/-! ## Nearest patterns -/

/-- No pattern is nearer to `q` units, and where another one is as near this one is even. -/
structure IsNearestPattern (pattern : Nat) (q : ℚ) : Prop where
  nearest : ∀ other : Nat, |(patternUnits pattern : ℚ) - q| ≤ |(patternUnits other : ℚ) - q|
  even_of_tie : ∀ other : Nat, other ≠ pattern →
    |(patternUnits other : ℚ) - q| = |(patternUnits pattern : ℚ) - q| → pattern % 2 = 0

namespace IsNearestPattern

variable {p p' other : Nat} {q : ℚ}

theorem le_of_le (h : IsNearestPattern p q) (hle : (patternUnits other : ℚ) ≤ q) : other ≤ p := by
  by_contra hlt
  have hunits : (patternUnits p : ℚ) < patternUnits other := patternUnits_lt_iff.2 (by omega)
  have hnearest := h.nearest other
  rw [abs_of_neg (by linarith), abs_of_nonpos (by linarith)] at hnearest
  linarith

theorem ge_of_ge (h : IsNearestPattern p q) (hge : q ≤ (patternUnits other : ℚ)) : p ≤ other := by
  by_contra hlt
  have hunits : (patternUnits other : ℚ) < patternUnits p := patternUnits_lt_iff.2 (by omega)
  have hnearest := h.nearest other
  rw [abs_of_pos (by linarith), abs_of_nonneg (by linarith)] at hnearest
  linarith

theorem eq_of_exact (h : IsNearestPattern p q) (hq : (patternUnits other : ℚ) = q) : p = other :=
  Nat.le_antisymm (h.ge_of_ge hq.ge) (h.le_of_le hq.le)

/-- Of two patterns that are both nearest the lower one would be even, and the next one up even
as well. -/
theorem not_lt (h : IsNearestPattern p q) (h' : IsNearestPattern p' q) : ¬ p < p' := by
  intro hlt
  have htie := le_antisymm (h.nearest p') (h'.nearest p)
  have heven := h.even_of_tie p' hlt.ne' htie.symm
  have heven' := h'.even_of_tie p hlt.ne htie
  have hlow : (patternUnits p : ℚ) < patternUnits (p + 1) := patternUnits_lt_iff.2 (by omega)
  have hhigh : (patternUnits (p + 1) : ℚ) < patternUnits p' := patternUnits_lt_iff.2 (by omega)
  have hmiddle := h.nearest (p + 1)
  have hside : (patternUnits p : ℚ) < q ∧ q < patternUnits p' := by
    constructor
    · by_contra hge
      have := h'.ge_of_ge (le_of_not_gt hge)
      omega
    · by_contra hle
      have := h.le_of_le (le_of_not_gt hle)
      omega
  rw [abs_of_neg (by linarith), abs_of_pos (by linarith)] at htie
  rw [abs_of_neg (show (patternUnits p : ℚ) - q < 0 by linarith), le_abs] at hmiddle
  rcases hmiddle with hmiddle | hmiddle <;> linarith

theorem unique (h : IsNearestPattern p q) (h' : IsNearestPattern p' q) : p = p' :=
  Nat.le_antisymm (Nat.not_lt.1 (h'.not_lt h)) (Nat.not_lt.1 (h.not_lt h'))

end IsNearestPattern

theorem isNearestPattern_self (pattern : Nat) :
    IsNearestPattern pattern (patternUnits pattern) where
  nearest other := by
    rw [sub_self, abs_zero]
    exact abs_nonneg _
  even_of_tie other hne htie := by
    rw [sub_self, abs_zero, abs_eq_zero, sub_eq_zero, Nat.cast_inj] at htie
    exact absurd (patternUnits_strictMono.injective htie) hne

section RoundPattern

variable (num : Nat) {den : Nat} (hden : 0 < den)

include hden

theorem abs_roundPattern_sub_le (m : Nat) :
    |(patternUnits (roundPattern num den) : ℚ) - num / den| ≤
      |((m * 2 ^ roundExponent num den : Nat) : ℚ) - num / den| := by
  have hscaled : 0 < den * 2 ^ roundExponent num den := by positivity
  have hpos : (0 : ℚ) < (2 ^ roundExponent num den : Nat) := by positivity
  have hround := abs_roundHalfEven_sub_le_abs_sub num hscaled m
  rw [Nat.cast_mul, ← div_div] at hround
  rw [patternUnits_roundPattern, Nat.cast_mul, Nat.cast_mul, abs_mul_sub_eq hpos,
    abs_mul_sub_eq hpos]
  exact mul_le_mul_of_nonneg_right hround hpos.le

theorem roundPattern_of_tie {m : Nat} (hm : m ≠ roundSignificand num den)
    (h : |((m * 2 ^ roundExponent num den : Nat) : ℚ) - num / den| =
      |(patternUnits (roundPattern num den) : ℚ) - num / den|) : roundPattern num den % 2 = 0 := by
  have hscaled : 0 < den * 2 ^ roundExponent num den := by positivity
  have hpos : (0 : ℚ) < (2 ^ roundExponent num den : Nat) := by positivity
  rw [patternUnits_roundPattern, Nat.cast_mul, Nat.cast_mul, abs_mul_sub_eq hpos,
    abs_mul_sub_eq hpos] at h
  have hcancel := mul_right_cancel₀ hpos.ne' h
  rw [div_div, ← Nat.cast_mul] at hcancel
  have heven : roundSignificand num den % 2 = 0 := (roundHalfEven_of_tie hscaled hm hcancel).1
  rw [roundPattern_eq]
  unfold binade
  omega

/-- A pattern below the grid of the ratio is further away than the least significand on it. -/
theorem abs_roundPattern_sub_lt {other : Nat} (he : roundExponent num den ≠ 0)
    (h : patternUnits other < binade * 2 ^ roundExponent num den) :
    |(patternUnits (roundPattern num den) : ℚ) - num / den| <
      |(patternUnits other : ℚ) - num / den| := by
  have hle : binade * 2 ^ roundExponent num den ≤ num / den := by
    calc
      binade * 2 ^ roundExponent num den = 2 ^ (roundExponent num den + 52) := by
        rw [pow_add, mul_comm]; rfl
      _ ≤ num / den := le_div_of_roundExponent_ne_zero he
  have hfloor : ((num / den : Nat) : ℚ) ≤ num / den := Nat.cast_div_le
  have hleq : ((binade * 2 ^ roundExponent num den : Nat) : ℚ) ≤ num / den :=
    (Nat.cast_le.2 hle).trans hfloor
  have hlt : (patternUnits other : ℚ) < (binade * 2 ^ roundExponent num den : Nat) :=
    Nat.cast_lt.2 h
  refine (abs_roundPattern_sub_le num hden binade).trans_lt ?_
  rw [abs_of_nonpos (sub_nonpos.2 hleq), abs_of_neg (by linarith)]
  linarith

theorem isNearestPattern_roundPattern :
    IsNearestPattern (roundPattern num den) ((num : ℚ) / den) where
  nearest other := by
    rcases on_grid_or_below other (roundExponent num den) with ⟨m, hm⟩ | ⟨he, hbelow⟩
    · rw [hm]
      exact abs_roundPattern_sub_le num hden m
    · exact (abs_roundPattern_sub_lt num hden he hbelow).le
  even_of_tie other hne htie := by
    rcases on_grid_or_below other (roundExponent num den) with ⟨m, hm⟩ | ⟨he, hbelow⟩
    · rw [hm] at htie
      refine roundPattern_of_tie num hden ?_ htie
      rintro rfl
      apply hne
      apply patternUnits_strictMono.injective
      rw [hm, patternUnits_roundPattern]
    · exact absurd htie (abs_roundPattern_sub_lt num hden he hbelow).ne'

end RoundPattern

/-! ## Nearest numbers -/

/-- No number is nearer to `q`, and where another one is as near this one has the even pattern.
Infinity counts as the power of two that would come next. -/
structure IsNearest (x : Binary64) (q : ℚ) : Prop where
  isNaN : x.isNaN = false
  nearest : ∀ y : Binary64, y.isNaN = false → |x.absValue - q| ≤ |y.absValue - q|
  even_of_tie : ∀ y : Binary64, y.isNaN = false → y.magnitude ≠ x.magnitude →
    |y.absValue - q| = |x.absValue - q| → x.magnitude % 2 = 0

theorem patternUnits_infinityPattern : patternUnits infinityPattern = 2 ^ 1024 * unit := by
  have hpattern : infinityPattern = 2046 * binade + binade := by decide
  have hbinade : binade = 2 ^ 52 := by decide
  rw [hpattern, patternUnits_add (.inr le_rfl) (by omega), unit_eq, hbinade, ← pow_add, ← pow_add]

theorem overflowBound_units :
    2 * (overflowBound * unit) =
      patternUnits (infinityPattern - 1) + patternUnits infinityPattern := by
  have hlast : infinityPattern - 1 = 2045 * binade + (2 * binade - 1) := by decide
  have hnext : infinityPattern = 2045 * binade + 2 * binade := by decide
  have hbinade : 1 ≤ 2 * binade := by decide
  have hlow : binade ≤ 2 * binade - 1 := by decide
  rw [overflowBound_mul_unit, hlast, hnext, patternUnits_add (.inr hlow) (by omega),
    patternUnits_add (.inr (by omega)) le_rfl, Nat.cast_mul, Nat.cast_mul, Nat.cast_pow,
    Nat.cast_ofNat]
  generalize (2 : ℚ) ^ 2045 = top
  push_cast [hbinade]
  ring

theorem isNaN_eq_false_iff {x : Binary64} : x.isNaN = false ↔ x.magnitude ≤ infinityPattern := by
  simp [isNaN]

theorem abs_absValue_sub (x : Binary64) (q : ℚ) :
    |x.absValue - q| = |(patternUnits x.magnitude : ℚ) - q * unit| / unit := by
  rw [absValue, units, ← abs_of_pos cast_unit_pos, ← abs_div, abs_of_pos cast_unit_pos, sub_div,
    mul_div_cancel_right₀ _ cast_unit_pos.ne']

/-! ## Rounded numbers -/

/-- The number of the given sign that `q` is rounded to. -/
def IsRounded (negative : Bool) (q : ℚ) (x : Binary64) : Prop :=
  ∃ pattern, IsNearestPattern pattern (q * unit) ∧ x = ofPattern negative pattern

theorem isRounded_ofRatio (negative : Bool) (num : Nat) {den : Nat} (hden : 0 < den) :
    IsRounded negative (num / den) (ofRatio negative num den) := by
  refine ⟨roundPattern (num * unit) den, ?_, rfl⟩
  have hnearest := isNearestPattern_roundPattern (num * unit) hden
  rw [Nat.cast_mul, mul_div_right_comm] at hnearest
  exact hnearest

theorem isRounded_ofInt (i : Int) : IsRounded (decide ((i : ℚ) < 0)) |(i : ℚ)| (ofInt i) := by
  have hrounded := isRounded_ofRatio (decide (i < 0)) i.natAbs Nat.one_pos
  have hsign : decide ((i : ℚ) < 0) = decide (i < 0) := decide_eq_decide.2 Int.cast_lt_zero
  rw [Nat.cast_one, div_one, Nat.cast_natAbs, Int.cast_abs] at hrounded
  rw [hsign]
  exact hrounded

theorem isRounded_ofNat (n : Nat) : IsRounded false n (ofInt n) := by
  have hnonneg : (0 : ℚ) ≤ n := n.cast_nonneg
  have hrounded := isRounded_ofInt n
  rwa [Int.cast_natCast, abs_of_nonneg hnonneg, decide_eq_false (not_lt.2 hnonneg)] at hrounded

theorem isRounded_self {x : Binary64} (hfinite : x.isFinite = true) :
    IsRounded x.negative x.absValue x := by
  have hlt : x.magnitude < infinityPattern := of_decide_eq_true hfinite
  refine ⟨x.magnitude, ?_, ?_⟩
  · rw [absValue, div_mul_cancel₀ _ cast_unit_pos.ne']
    exact isNearestPattern_self _
  · obtain ⟨negative, magnitude, _⟩ := x
    simp only [ofPattern, Nat.min_eq_left hlt.le]

theorem exists_isRounded (negative : Bool) {q : ℚ} (hq : 0 ≤ q) :
    ∃ x, IsRounded negative q x := by
  refine ⟨ofRatio negative q.num.natAbs q.den, ?_⟩
  have hrounded := isRounded_ofRatio negative q.num.natAbs q.den_pos
  rw [Nat.cast_natAbs, abs_of_nonneg (Rat.num_nonneg.2 hq), Rat.num_div_den] at hrounded
  exact hrounded

namespace IsRounded

variable {negative : Bool} {q : ℚ} {x y : Binary64}

theorem unique (hx : IsRounded negative q x) (hy : IsRounded negative q y) : x = y := by
  obtain ⟨p, hp, rfl⟩ := hx
  obtain ⟨p', hp', rfl⟩ := hy
  rw [hp.unique hp']

theorem negative_eq (h : IsRounded negative q x) : x.negative = negative := by
  obtain ⟨pattern, -, rfl⟩ := h
  rfl

theorem isNearestPattern (h : IsRounded negative q x) (hfinite : x.isFinite = true) :
    IsNearestPattern x.magnitude (q * unit) := by
  obtain ⟨pattern, h, rfl⟩ := h
  have hlt : (ofPattern negative pattern).magnitude < infinityPattern := of_decide_eq_true hfinite
  have hle : pattern ≤ infinityPattern := by
    by_contra hgt
    have hcut : (ofPattern negative pattern).magnitude = infinityPattern :=
      Nat.min_eq_right (by omega)
    omega
  have hmagnitude : (ofPattern negative pattern).magnitude = pattern := Nat.min_eq_left hle
  rw [hmagnitude]
  exact h

/-- Beyond infinity there is no number left that could be nearer. -/
theorem isNearest (h : IsRounded negative q x) : x.IsNearest q := by
  obtain ⟨pattern, h, rfl⟩ := h
  rcases le_or_gt pattern infinityPattern with hle | hgt
  · have hmagnitude : (ofPattern negative pattern).magnitude = pattern := Nat.min_eq_left hle
    refine ⟨isNaN_ofPattern _ _, fun y _ => ?_, fun y _ hne htie => ?_⟩
    · rw [abs_absValue_sub, abs_absValue_sub, hmagnitude]
      exact div_le_div_of_nonneg_right (h.nearest y.magnitude) cast_unit_pos.le
    · rw [hmagnitude] at hne ⊢
      rw [abs_absValue_sub, abs_absValue_sub, hmagnitude, div_left_inj' cast_unit_pos.ne'] at htie
      exact h.even_of_tie y.magnitude hne htie
  · have hmagnitude : (ofPattern negative pattern).magnitude = infinityPattern :=
      Nat.min_eq_right hgt.le
    have hbeyond : (patternUnits infinityPattern : ℚ) < q * unit := by
      by_contra hwithin
      have := h.ge_of_ge (le_of_not_gt hwithin)
      omega
    refine ⟨isNaN_ofPattern _ _, fun y hy => ?_, fun y hy hne htie => ?_⟩
    · have hunits : (patternUnits y.magnitude : ℚ) ≤ patternUnits infinityPattern :=
        patternUnits_le_iff.2 (isNaN_eq_false_iff.1 hy)
      rw [abs_absValue_sub, abs_absValue_sub, hmagnitude]
      apply div_le_div_of_nonneg_right _ cast_unit_pos.le
      rw [abs_of_neg (by linarith), abs_of_neg (by linarith)]
      linarith
    · rw [hmagnitude]
      decide

/-- From halfway between the largest finite number and the next power of two on, everything is
rounded to infinity, as the largest finite number is odd. -/
theorem isFinite_iff (h : IsRounded negative q x) : x.isFinite = true ↔ q < overflowBound := by
  obtain ⟨pattern, h, rfl⟩ := h
  have hfinite : (ofPattern negative pattern).isFinite = true ↔ pattern < infinityPattern := by
    have hmin : (ofPattern negative pattern).magnitude < infinityPattern ↔
        pattern < infinityPattern ∨ infinityPattern < infinityPattern := min_lt_iff
    rw [isFinite, decide_eq_true_eq, hmin]
    omega
  have hbound := overflowBound_units
  have hpos : 0 < infinityPattern := by decide
  rw [hfinite, ← mul_lt_mul_iff_of_pos_right cast_unit_pos]
  constructor
  · intro hlt
    by_contra hge
    have hunits : (patternUnits pattern : ℚ) ≤ patternUnits (infinityPattern - 1) :=
      patternUnits_le_iff.2 (by omega)
    have hbelow : q * unit < patternUnits infinityPattern := by
      by_contra hbeyond
      have := h.le_of_le (le_of_not_gt hbeyond)
      omega
    have hstep : (patternUnits (infinityPattern - 1) : ℚ) < patternUnits infinityPattern :=
      patternUnits_lt_iff.2 (by omega)
    have hnear := h.nearest infinityPattern
    rw [abs_of_neg (by linarith), abs_of_pos (by linarith)] at hnear
    -- only the tie is left, and the pattern below infinity is odd
    have hlast : pattern = infinityPattern - 1 := by
      apply patternUnits_strictMono.injective
      have : (patternUnits pattern : ℚ) = patternUnits (infinityPattern - 1) := by linarith
      exact_mod_cast this
    have heven : pattern % 2 = 0 := by
      apply h.even_of_tie infinityPattern (by omega)
      rw [abs_of_pos (by linarith), abs_of_neg (by linarith)]
      linarith
    rw [hlast] at heven
    exact absurd heven (by decide)
  · intro hlt
    by_contra hge
    have hunits : (patternUnits infinityPattern : ℚ) ≤ patternUnits pattern :=
      patternUnits_le_iff.2 (by omega)
    have habove : patternUnits (infinityPattern - 1) < q * unit := by
      by_contra hwithin
      have := h.ge_of_ge (le_of_not_gt hwithin)
      omega
    have hnear := h.nearest (infinityPattern - 1)
    rw [abs_of_pos (by linarith), abs_of_neg (by linarith)] at hnear
    linarith

theorem eq_infinity (h : IsRounded negative q x) (hq : 2 ^ 1024 ≤ q) : x = infinity negative := by
  obtain ⟨pattern, h, rfl⟩ := h
  have hle : infinityPattern ≤ pattern := by
    apply h.le_of_le
    rw [patternUnits_infinityPattern, Nat.cast_mul, Nat.cast_pow, Nat.cast_ofNat]
    exact mul_le_mul_of_nonneg_right hq (Nat.cast_nonneg _)
  simp only [ofPattern, infinity, Nat.min_eq_right hle]

theorem eq_zero (h : IsRounded negative q x) (hq : 0 ≤ q) (hsmall : q * unit < 1 / 2) :
    x = zero negative := by
  obtain ⟨pattern, h, rfl⟩ := h
  have hpos : 0 ≤ q * unit := mul_nonneg hq (Nat.cast_nonneg _)
  have hnearest := h.nearest 0
  have hzero : patternUnits 0 = 0 := rfl
  rw [hzero, Nat.cast_zero, zero_sub, abs_neg, abs_of_nonneg hpos, abs_le] at hnearest
  have hunits : patternUnits pattern < 1 := by
    have hlt : (patternUnits pattern : ℚ) < 1 := by linarith
    exact_mod_cast hlt
  have hpattern : pattern = 0 := by
    by_contra hne
    have := patternUnits_pos (Nat.pos_of_ne_zero hne)
    omega
  rw [hpattern]
  rfl

end IsRounded

theorem isRounded_infinity (negative : Bool) {q : ℚ} (hq : 2 ^ 1024 ≤ q) :
    IsRounded negative q (infinity negative) := by
  obtain ⟨x, hx⟩ := exists_isRounded negative ((by positivity : (0 : ℚ) ≤ 2 ^ 1024).trans hq)
  rw [← hx.eq_infinity hq]
  exact hx

theorem isRounded_zero (negative : Bool) {q : ℚ} (hq : 0 ≤ q) (hsmall : q * unit < 1 / 2) :
    IsRounded negative q (zero negative) := by
  obtain ⟨x, hx⟩ := exists_isRounded negative hq
  rw [← hx.eq_zero hq hsmall]
  exact hx

end Tagged.Binary64
