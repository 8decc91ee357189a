import Tagged.Proofs.Binary64.Neighbours

/-!
# Rounding what is left of a number

A number of which all but the leading bits are left off is rounded to the same binary64 number as
the whole one, with one exception: what is left lies halfway between two neighbours and is rounded
down to the even one, though the whole number lies above the middle. Scaling a significand after
it was rounded makes no difference, as long as the result does not become subnormal.
-/

namespace Tagged

theorem roundHalfEven_mul_right (num den : Nat) {c : Nat} (hc : 0 < c) :
    roundHalfEven (num * c) (den * c) = roundHalfEven num den := by
  have hlt : 2 * (num % den * c) < den * c ↔ 2 * (num % den) < den := by
    rw [← Nat.mul_assoc, Nat.mul_lt_mul_right hc]
  have heq : 2 * (num % den * c) = den * c ↔ 2 * (num % den) = den := by
    rw [← Nat.mul_assoc, Nat.mul_left_inj hc.ne']
  unfold roundHalfEven
  rw [Nat.mul_div_mul_right _ _ hc, Nat.mul_mod_mul_right]
  simp only [hlt, Bool.beq_eq_decide_eq, heq]

namespace Binary64

/-! ## Scaling a rounded significand -/

theorem roundExponent_mul_two_pow {num den : Nat} (hden : 0 < den) (h : 2 ^ 52 ≤ num / den)
    (k : Nat) : roundExponent (num * 2 ^ k) den = roundExponent num den + k := by
  have hne : num / den ≠ 0 := by omega
  have hlog : 52 ≤ (num / den).log2 := (Nat.le_log2 hne).2 h
  have hlow : 2 ^ (num / den).log2 * den ≤ num :=
    (Nat.le_div_iff_mul_le hden).1 (Nat.log2_self_le hne)
  have hhigh : num < 2 ^ ((num / den).log2 + 1) * den :=
    (Nat.div_lt_iff_lt_mul hden).1 Nat.lt_log2_self
  have hpos : 0 < 2 ^ k := Nat.two_pow_pos k
  have hscaled : (num * 2 ^ k / den).log2 = (num / den).log2 + k := by
    have hle : 2 ^ ((num / den).log2 + k) ≤ num * 2 ^ k / den := by
      rw [Nat.le_div_iff_mul_le hden, pow_add, Nat.mul_right_comm]
      exact Nat.mul_le_mul_right _ hlow
    have hlt : num * 2 ^ k / den < 2 ^ ((num / den).log2 + k + 1) := by
      rw [Nat.div_lt_iff_lt_mul hden, Nat.add_right_comm, pow_add, Nat.mul_right_comm]
      exact Nat.mul_lt_mul_of_pos_right hhigh hpos
    have hne' : num * 2 ^ k / den ≠ 0 := by
      have := Nat.two_pow_pos ((num / den).log2 + k)
      omega
    exact (Nat.log2_eq_iff hne').2 ⟨hle, hlt⟩
  unfold roundExponent
  omega

theorem patternUnits_roundPattern_mul_two_pow {num den : Nat} (hden : 0 < den)
    (h : 2 ^ 52 ≤ num / den) (k : Nat) :
    patternUnits (roundPattern (num * 2 ^ k) den) =
      patternUnits (roundPattern num den) * 2 ^ k := by
  have hexponent := roundExponent_mul_two_pow hden h k
  have hsignificand : roundSignificand (num * 2 ^ k) den = roundSignificand num den := by
    rw [roundSignificand, hexponent, pow_add, ← Nat.mul_assoc,
      roundHalfEven_mul_right _ _ (Nat.two_pow_pos k)]
    rfl
  rw [patternUnits_roundPattern, patternUnits_roundPattern, hsignificand, hexponent, pow_add,
    Nat.mul_assoc]

/-- An integer that is rounded and then scaled up gives what the scaled integer is rounded to. -/
theorem IsRounded.of_scaled {negative : Bool} {n : Nat} (hpos : 0 < n) {x y : Binary64}
    (hx : IsRounded negative n x) (hfinite : x.isFinite = true) {k : Nat}
    (hy : IsRounded negative (x.absValue * 2 ^ k) y) : IsRounded negative (n * 2 ^ k) y := by
  have hlarge : 2 ^ 52 ≤ n * unit / 1 := by
    have hone : 2 ^ 52 ≤ unit := by decide +kernel
    rw [Nat.div_one]
    exact hone.trans (Nat.le_mul_of_pos_left _ hpos)
  have hmagnitude : x.magnitude = roundPattern (n * unit) 1 := by
    apply (hx.isNearestPattern hfinite).unique
    have hnearest := isNearestPattern_roundPattern (n * unit) Nat.one_pos
    rw [Nat.cast_one, div_one, Nat.cast_mul] at hnearest
    exact hnearest
  have hscaled := isNearestPattern_roundPattern (n * unit * 2 ^ k) Nat.one_pos
  have hunits := patternUnits_roundPattern_mul_two_pow Nat.one_pos hlarge k
  rw [← hmagnitude] at hunits
  obtain ⟨pattern, hpattern, rfl⟩ := hy
  have hexact : pattern = roundPattern (n * unit * 2 ^ k) 1 := by
    apply hpattern.eq_of_exact
    rw [hunits, absValue, units, mul_right_comm, div_mul_cancel₀ _ cast_unit_pos.ne']
    push_cast
    rfl
  refine ⟨pattern, ?_, rfl⟩
  rw [hexact]
  convert hscaled using 1
  push_cast
  ring

/-! ## Ties -/

def next (x : Binary64) : Binary64 := ofPattern x.negative (x.magnitude + 1)

structure IsEvenTie (x : Binary64) (q : ℚ) : Prop where
  isFinite : x.isFinite = true
  even : x.magnitude % 2 = 0
  halfway : 2 * q = x.absValue + x.next.absValue

theorem magnitude_next {x : Binary64} (h : x.isFinite = true) :
    x.next.magnitude = x.magnitude + 1 := by
  have hlt : x.magnitude < infinityPattern := of_decide_eq_true h
  exact Nat.min_eq_left hlt

theorem IsEvenTie.halfway_units {x : Binary64} {q : ℚ} (h : x.IsEvenTie q) :
    2 * (q * unit) = patternUnits x.magnitude + patternUnits (x.magnitude + 1) := by
  have hhalfway := h.halfway
  rw [absValue, absValue, units, units, magnitude_next h.isFinite, ← add_div,
    eq_div_iff cast_unit_pos.ne'] at hhalfway
  rw [← hhalfway, mul_assoc]

/-- Nothing of few bits lies between what is left of a number and the number itself. -/
def Keeps (q v : ℚ) : Prop := ∀ c : ℚ, HasBits 54 c → c ≤ v → c ≤ q

section Keeps

variable {q v : ℚ} (hkeeps : Keeps q v)

include hkeeps

theorem Keeps.patternUnits_le {pattern : Nat} (hle : (patternUnits pattern : ℚ) ≤ v * unit) :
    (patternUnits pattern : ℚ) ≤ q * unit := by
  rw [← div_le_iff₀ cast_unit_pos] at hle ⊢
  exact hkeeps _ ((hasBits_patternUnits pattern).mono (by omega)) hle

theorem Keeps.midpoint_le {pattern : Nat}
    (hle : (patternUnits pattern : ℚ) + patternUnits (pattern + 1) ≤ 2 * (v * unit)) :
    (patternUnits pattern : ℚ) + patternUnits (pattern + 1) ≤ 2 * (q * unit) := by
  have hmiddle := hkeeps _ (hasBits_midpoint pattern)
  rw [div_le_iff₀ cast_unit_pos, div_le_iff₀ cast_unit_pos, div_le_iff₀ two_pos, div_le_iff₀ two_pos] at hmiddle
  linarith [hmiddle (by linarith)]

/-- Where the two patterns differ, what is left is a tie, and the whole number is above it. -/
theorem Keeps.eq_or_tie {p p' : Nat} (hp : IsNearestPattern p (q * unit))
    (hp' : IsNearestPattern p' (v * unit)) (hlt : q < v) :
    p = p' ∨ (p' = p + 1 ∧ p % 2 = 0 ∧
      2 * (q * unit) = patternUnits p + patternUnits (p + 1)) := by
  have hless : q * unit < v * unit := mul_lt_mul_of_pos_right hlt cast_unit_pos
  rcases le_or_gt (patternUnits p' : ℚ) (v * unit) with hbelow | habove
  · -- the whole number is rounded down, so what is left of it is too
    left
    have hnext : v * unit < patternUnits (p' + 1) := by
      by_contra hge
      have := hp'.le_of_le (le_of_not_gt hge)
      omega
    have hkept := hkeeps.patternUnits_le hbelow
    have hle := hp.le_of_le hkept
    have hge := hp.ge_of_ge (hless.trans hnext).le
    by_contra hne
    have hp1 : p = p' + 1 := by omega
    have hnear := hp.nearest p'
    have hnear' := hp'.nearest (p' + 1)
    rw [hp1, abs_of_pos (by linarith), abs_of_nonpos (by linarith)] at hnear
    rw [abs_of_nonpos (by linarith), abs_of_pos (by linarith)] at hnear'
    linarith
  · by_cases heq : p = p'
    · exact .inl heq
    · right
      have hle := hp.ge_of_ge (hless.trans habove).le
      obtain ⟨a, rfl⟩ := Nat.exists_eq_add_one.2 (show 0 < p' by omega)
      have hlast : (patternUnits a : ℚ) ≤ v * unit := by
        by_contra hge
        have := hp'.ge_of_ge (le_of_not_ge hge)
        omega
      have hkept := hkeeps.patternUnits_le hlast
      have hpa : p = a := by
        have := hp.le_of_le hkept
        omega
      subst hpa
      have hnear := hp.nearest (p + 1)
      have hnear' := hp'.nearest p
      rw [abs_of_nonpos (by linarith), abs_of_pos (by linarith)] at hnear
      rw [abs_of_pos (by linarith), abs_of_nonpos (by linarith)] at hnear'
      have hmiddle : (patternUnits p : ℚ) + patternUnits (p + 1) ≤ 2 * (q * unit) :=
        hkeeps.midpoint_le (by linarith)
      refine ⟨rfl, ?_, by linarith⟩
      apply hp.even_of_tie (p + 1) (by omega)
      rw [abs_of_pos (by linarith), abs_of_nonpos (by linarith)]
      linarith

end Keeps

theorem IsEvenTie.isNearestPattern {x : Binary64} {q : ℚ} (h : x.IsEvenTie q) :
    IsNearestPattern x.magnitude (q * unit) where
  nearest other := by
    have hhalfway := h.halfway_units
    have hnext : (patternUnits x.magnitude : ℚ) < patternUnits (x.magnitude + 1) :=
      patternUnits_lt_iff.2 (Nat.lt_succ_self _)
    rw [abs_of_neg (by linarith)]
    rcases Nat.lt_or_ge x.magnitude other with hlt | hge
    · have hunits : (patternUnits (x.magnitude + 1) : ℚ) ≤ patternUnits other :=
        patternUnits_le_iff.2 hlt
      rw [abs_of_pos (by linarith)]
      linarith
    · have hunits : (patternUnits other : ℚ) ≤ patternUnits x.magnitude :=
        patternUnits_le_iff.2 hge
      rw [abs_of_neg (by linarith)]
      linarith
  even_of_tie _ _ _ := h.even

/-- What is above the middle is not rounded down. -/
theorem IsEvenTie.not_isNearestPattern {x : Binary64} {q v : ℚ} (h : x.IsEvenTie q) (hlt : q < v) :
    ¬ IsNearestPattern x.magnitude (v * unit) := by
  intro hnearest
  have hhalfway := h.halfway_units
  have hless : q * unit < v * unit := mul_lt_mul_of_pos_right hlt cast_unit_pos
  have hnext : (patternUnits x.magnitude : ℚ) < patternUnits (x.magnitude + 1) :=
    patternUnits_lt_iff.2 (Nat.lt_succ_self _)
  have hnear := hnearest.nearest (x.magnitude + 1)
  rw [abs_of_neg (by linarith), le_abs] at hnear
  rcases hnear with hnear | hnear <;> linarith

/-- What is left of a number is rounded to the same as the whole number, unless it is a tie that is
rounded down to the even neighbour; then the whole number is rounded to the other one. -/
theorem IsRounded.truncated {negative : Bool} {q v : ℚ} {x y : Binary64}
    (hx : IsRounded negative q x) (hy : IsRounded negative v y) (hle : q ≤ v)
    (hkeeps : Keeps q v) :
    ((∀ z : Binary64, z.negative = negative → z.IsEvenTie q → ¬ q < v) → x = y) ∧
      ∀ z : Binary64, z.negative = negative → z.IsEvenTie q → q < v → x = z ∧ y = z.next := by
  rcases hle.eq_or_lt with rfl | hlt
  · exact ⟨fun _ => hx.unique hy, fun z _ _ hlt => absurd hlt (lt_irrefl _)⟩
  obtain ⟨p, hp, rfl⟩ := hx
  obtain ⟨p', hp', rfl⟩ := hy
  constructor
  · intro hnone
    rcases hkeeps.eq_or_tie hp hp' hlt with rfl | ⟨rfl, heven, hhalfway⟩
    · rfl
    · rcases Nat.lt_or_ge p infinityPattern with hfinite | hinfinite
      · -- this tie was ruled out
        have hmagnitude : (ofPattern negative p).magnitude = p := Nat.min_eq_left hfinite.le
        have hisFinite : (ofPattern negative p).isFinite = true := by
          rw [isFinite, hmagnitude]
          exact decide_eq_true hfinite
        refine absurd hlt (hnone (ofPattern negative p) rfl ⟨hisFinite, ?_, ?_⟩)
        · rw [hmagnitude, heven]
        · rw [absValue, absValue, units, units, magnitude_next hisFinite, hmagnitude, ← add_div,
            eq_div_iff cast_unit_pos.ne', ← hhalfway, mul_assoc]
      · simp only [ofPattern, Nat.min_eq_right hinfinite,
          Nat.min_eq_right (Nat.le_succ_of_le hinfinite)]
  · intro z hz htie _
    have hpz : p = z.magnitude := hp.unique htie.isNearestPattern
    have hfinite : z.magnitude < infinityPattern := of_decide_eq_true htie.isFinite
    have hpz' : p' = z.magnitude + 1 := by
      rcases hkeeps.eq_or_tie hp hp' hlt with heq | ⟨hnext, -, -⟩
      · rw [← heq, hpz] at hp'
        exact absurd hp' (htie.not_isNearestPattern hlt)
      · rw [hnext, hpz]
    subst hz
    rw [hpz, hpz']
    refine ⟨?_, rfl⟩
    obtain ⟨negative, magnitude, _⟩ := z
    simp only [ofPattern, Nat.min_eq_left hfinite.le]

end Binary64

end Tagged
