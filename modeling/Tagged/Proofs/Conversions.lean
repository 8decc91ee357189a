import Tagged.Proofs.Binary64.ExactValue
import Tagged.Proofs.Literal.IntegerGrammar

/-!
# Conversions between integers and floats

An integer becomes the float that is nearest to it, and a float becomes the integer part of its
exact value, moved to the nearer end of the range if it is beyond 64 bits. There and back, an
integer is kept up to `2 ^ 53` and never changes by more than half the spacing of the floats around
`2 ^ 63`, where the upper end of the range makes up for the one float beyond it.
-/

namespace Tagged

def towardZero (q : ℚ) : Int := if 0 ≤ q then ⌊q⌋ else ⌈q⌉

theorem towardZero_of_nonneg {q : ℚ} (h : 0 ≤ q) : towardZero q = ⌊q⌋ := if_pos h

theorem towardZero_neg (q : ℚ) : towardZero (-q) = -towardZero q := by
  unfold towardZero
  rcases lt_trichotomy q 0 with hneg | rfl | hpos
  · rw [if_pos (by linarith), if_neg (by linarith), Int.floor_neg]
  · simp
  · rw [if_neg (by linarith), if_pos hpos.le, Int.ceil_neg]

theorem towardZero_intCast (i : Int) : towardZero i = i := by
  unfold towardZero
  split
  · exact Int.floor_intCast i
  · exact Int.ceil_intCast i

/-- Rounding toward zero passes over no integer. -/
theorem towardZero_mem_Icc {q : ℚ} (low high : Int) (hlow : (low : ℚ) ≤ q) (hhigh : q ≤ high) :
    low ≤ towardZero q ∧ towardZero q ≤ high := by
  unfold towardZero
  split
  · exact ⟨Int.le_floor.2 hlow, Int.cast_le.1 ((Int.floor_le q).trans hhigh)⟩
  · exact ⟨Int.cast_le.1 (hlow.trans (Int.le_ceil q)), Int.ceil_le.2 hhigh⟩

namespace Binary64

theorem toInt_toInt64 {x : Binary64} (h : x.isNaN = false) :
    x.toInt64.toInt = Max.max (-2 ^ 63) (Min.min (towardZero x.value) (2 ^ 63 - 1)) := by
  have hwhole : towardZero x.absValue = (x.units : Int) / unit := by
    rw [towardZero_of_nonneg x.absValue_nonneg, absValue, Rat.floor_natCast_div_natCast]
  have hsigned : towardZero x.value =
      if x.negative then -((x.units : Int) / unit) else (x.units : Int) / unit := by
    rw [value]
    split
    · rw [towardZero_neg, hwhole]
    · exact hwhole
  rw [hsigned, ← Literal.toInt_ofInt_clampInt64, toInt64, if_neg (by simp [h])]

/-- An infinite number is beyond every integer of 64 bits. -/
theorem toInt_toInt64_of_isInfinite {x : Binary64} (h : x.isInfinite = true) :
    x.toInt64.toInt = if x.negative then -2 ^ 63 else 2 ^ 63 - 1 := by
  have hmagnitude : x.magnitude = infinityPattern := by simpa [isInfinite] using h
  have hlarge : ((2 ^ 63 : Int) : ℚ) ≤ x.absValue := by
    rw [absValue, units, hmagnitude, patternUnits_infinityPattern, Nat.cast_mul,
      mul_div_cancel_right₀ _ cast_unit_pos.ne', Int.cast_pow, Nat.cast_pow, Int.cast_ofNat,
      Nat.cast_ofNat]
    exact pow_le_pow_right₀ (by norm_num) (by norm_num)
  have hbeyond : 2 ^ 63 ≤ towardZero x.absValue := by
    rw [towardZero_of_nonneg x.absValue_nonneg]
    exact Int.le_floor.2 hlarge
  rw [toInt_toInt64 (isNaN_eq_false_iff.2 hmagnitude.le), value]
  split
  · rw [towardZero_neg]
    omega
  · omega

end Binary64

theorem natAbs_toInt_le (n : Int64) : n.toInt.natAbs ≤ 2 ^ 63 := by
  have hlow := Int64.le_toInt n
  have hhigh := Int64.toInt_lt n
  omega

namespace Value

open Binary64

/-- The integer that the bits of a float are converted to: its exact value without the fraction, or
the nearer end of the range, and zero for a NaN. -/
structure TruncatesTo (bits : UInt64) (i : Int64) : Prop where
  finite : exponentField bits ≠ 2047 →
    i.toInt = Max.max (-2 ^ 63) (Min.min (towardZero (fieldsValue bits)) (2 ^ 63 - 1))
  infinite : exponentField bits = 2047 → fractionField bits = 0 →
    i.toInt = if 2 ^ 63 ≤ bits.toNat then -2 ^ 63 else 2 ^ 63 - 1
  nan : exponentField bits = 2047 → fractionField bits ≠ 0 → i.toInt = 0

theorem truncatesTo_toInt64 (bits : UInt64) : TruncatesTo bits (ofBits bits).toInt64 where
  finite hexponent := by
    have hfinite := (kind_ofBits bits).1.2 hexponent
    rw [toInt_toInt64 (kind_of_isFinite hfinite).1, value_ofBits]
  infinite hexponent hfraction := by
    have hinfinite : (ofBits bits).isInfinite = true := by
      rw [isInfinite, ofBits_magnitude, hexponent, hfraction]
      rfl
    have hsign : (ofBits bits).negative = decide (2 ^ 63 ≤ bits.toNat) := rfl
    rw [toInt_toInt64_of_isInfinite hinfinite, hsign]
    simp only [decide_eq_true_eq]
  nan hexponent hfraction := by
    have hnan := (kind_ofBits bits).2.2 ⟨hexponent, hfraction⟩
    rw [toInt64, if_pos hnan]
    rfl

theorem toInt_toFloat_of_le {n : Int64} (h : n.toInt.natAbs ≤ 2 ^ 53) :
    (Value.int n).toFloat.toInt = .int n := by
  have hvalue := value_ofInt_of_le (natAbs_toInt_le n) h
  have hback : (ofInt n.toInt).toInt64.toInt = n.toInt := by
    rw [toInt_toInt64 (isNaN_ofInt _), hvalue, towardZero_intCast]
    omega
  rw [toFloat, toInt, Int64.toInt_inj.1 hback]

theorem abs_toInt_toFloat_sub_le (n : Int64) :
    |(ofInt n.toInt).toInt64.toInt - n.toInt| ≤ 512 := by
  have hlow := Int64.le_toInt n
  have hhigh := Int64.toInt_lt n
  have herror := abs_value_ofInt_sub_le_512 (natAbs_toInt_le n)
  rw [abs_le] at herror
  have hnear := towardZero_mem_Icc (q := (ofInt n.toInt).value) (n.toInt - 512) (n.toInt + 512)
    (by push_cast; linarith) (by push_cast; linarith)
  rw [toInt_toInt64 (isNaN_ofInt _), abs_le]
  omega

/-- A float given by its bits is converted to the integer part of its exact value, clamped to 64
bits. An integer is converted to the nearest float, which keeps the order of integers; converted
back, it is the same up to `2 ^ 53`, and within 512 of itself everywhere. -/
theorem conversions_are_exact (bits : UInt64) (m n : Int64) :
    (∃ i : Int64, (Value.float (.ofBits bits)).toInt = .int i ∧ TruncatesTo bits i) ∧
    (∃ x y : Binary64, (Value.int m).toFloat = .float x ∧ (Value.int n).toFloat = .float y ∧
      x.negative = decide (m.toInt < 0) ∧ x.IsNearestTo m.toInt ∧
      (m ≤ n → x.value ≤ y.value)) ∧
    (m.toInt.natAbs ≤ 2 ^ 53 → (Value.int m).toFloat.toInt = .int m) ∧
    ∃ i : Int64, (Value.int m).toFloat.toInt = .int i ∧ |i.toInt - m.toInt| ≤ 512 := by
  refine ⟨⟨_, rfl, truncatesTo_toInt64 bits⟩, ⟨_, _, rfl, rfl, rfl, ?_, fun hle => ?_⟩,
    toInt_toFloat_of_le, _, rfl, abs_toInt_toFloat_sub_le m⟩
  · exact isNearestTo_ofInt (natAbs_toInt_le m)
  · exact value_ofInt_mono (natAbs_toInt_le m) (natAbs_toInt_le n) (Int64.le_iff_toInt_le.1 hle)

/-- A float just below the range, the last integer that is kept for sure, and the largest one, which
becomes `2 ^ 63` and is brought back by the end of the range. -/
theorem conversions_at_the_ends :
    let bits : UInt64 := 0xc3e0000000000001
    let m : Int64 := 9007199254740992
    let n : Int64 := 9223372036854775807
    exponentField bits ≠ 2047 ∧ m ≤ n ∧ m.toInt.natAbs ≤ 2 ^ 53 ∧
      (Value.float (.ofBits bits)).toInt = .int Int64.minValue ∧
      TruncatesTo bits Int64.minValue ∧
      (Value.int m).toFloat.toInt = .int m ∧
      (Value.int n).toFloat = .float (.ofBits 0x43e0000000000000) ∧
      (∃ x : Binary64, (Value.int m).toFloat = .float x ∧ x.IsNearestTo m.toInt ∧
        x.value ≤ (ofBits 0x43e0000000000000).value) ∧
      ∃ i : Int64, (Value.int n).toFloat.toInt = .int i ∧ |i.toInt - n.toInt| ≤ 512 := by
  intro bits m n
  have hle : m ≤ n := by decide
  have hsmall : m.toInt.natAbs ≤ 2 ^ 53 := by decide
  have htoInt : (Value.float (.ofBits bits)).toInt = .int Int64.minValue := by decide +kernel
  have htoFloat : (Value.int n).toFloat = .float (.ofBits 0x43e0000000000000) := by decide +kernel
  obtain ⟨⟨i, hi, htruncates⟩, ⟨x, y, hx, hy, -, hnearest, hmono⟩, hkept, -⟩ :=
    conversions_are_exact bits m n
  obtain rfl := Value.int.inj (hi.symm.trans htoInt)
  obtain rfl := Value.float.inj (hy.symm.trans htoFloat)
  exact ⟨by decide, hle, hsmall, htoInt, htruncates, hkept hsmall, htoFloat,
    ⟨x, hx, hnearest, hmono hle⟩, (conversions_are_exact bits n n).2.2.2⟩

end Value

end Tagged
