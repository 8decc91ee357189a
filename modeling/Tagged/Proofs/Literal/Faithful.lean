import Tagged.Proofs.Literal.HexDigits
import Tagged.Proofs.Literal.Scaling

/-!
# Hexadecimal literals are read faithfully

Digits are dropped, the significand is rounded to 53 bits, the exponent is bounded, and the scaled
number is rounded again where it is subnormal. None of these steps moves the value across a
binary64 number: the number that is read is the one that is written, or one of the two around it.
-/

namespace Tagged.Literal

open Binary64

/-! ## The significand -/

theorem isFinite_ofInt {n : Nat} (h : n < 2 ^ 63) : (ofInt n).isFinite = true := by
  rw [(isRounded_ofNat n).isFinite_iff]
  refine lt_trans ?_ two_pow_lt_overflowBound
  calc
    (n : ℚ) < (2 : ℚ) ^ 63 := by exact_mod_cast h
    _ ≤ 2 ^ 1023 := pow_le_pow_right₀ (by norm_num) (by norm_num)

theorem absValue_ofInt_bounds {n : Nat} (hpos : 0 < n) (h : n < 2 ^ 63) :
    1 ≤ (ofInt n).absValue ∧ (ofInt n).absValue ≤ 2 ^ 63 := by
  have hrounded := isRounded_ofNat n
  have hlarge : (1 : ℚ) ≤ 2 ^ (63 : Int) := one_le_zpow₀ (by norm_num) (by norm_num)
  constructor
  · apply hrounded.le_absValue (isFinite_ofInt h) (hasBits_two_zpow 0) two_zpow_le_one
    exact_mod_cast hpos
  · apply hrounded.absValue_le (isFinite_ofInt h) (hasBits_two_zpow 63)
      (two_zpow_le_one.trans hlarge)
    exact_mod_cast h.le

theorem isRounded_scale_ofInt {n : Nat} (hpos : 0 < n) (h : n < 2 ^ 63) {e : Int}
    (he : FitsInt32 e) :
    IsRounded false ((ofInt n).absValue * 2 ^ e) (scale (ofInt n) e) := by
  obtain ⟨hone, hhigh⟩ := absValue_ofInt_bounds hpos h
  have hrounded := isRounded_scale (isFinite_ofInt h) hone
    (hhigh.trans (pow_le_pow_right₀ (by norm_num) (by norm_num))) he
  rwa [(isRounded_ofNat n).negative_eq] at hrounded

/-! ## The exponent -/

/-- Neither the bounds of 64 bits nor the smaller ones move an exponent across the smaller ones. -/
theorem boundExponent_total {e : Int} (hlow : -2 ^ 60 ≤ e) (hhigh : e ≤ 2 ^ 60) (negative : Bool)
    (digits : Bytes) :
    boundExponent (clampInt64 (e +
        if negative then -binaryExponentSize digits else binaryExponentSize digits)) =
      boundExponent (e + signedValue negative digits) := by
  rw [binaryExponentSize_eq]
  unfold boundExponent exponentBound clampInt64 signedValue
  cases negative <;> simp <;> omega

namespace HexDigits

/-- The exponent of a literal: that of its digits and the written one together, within 64 bits. -/
def total (h : HexDigits) : Option (Bool × Bytes) → Int
  | none => h.exponent
  | some (negative, digits) =>
    clampInt64 (h.exponent +
      if negative then -binaryExponentSize digits else binaryExponentSize digits)

theorem boundExponent_total_eq {h : HexDigits} (hlow : -2 ^ 60 ≤ h.exponent)
    (hhigh : h.exponent ≤ 2 ^ 60) (exponent : Option (Bool × Bytes)) :
    boundExponent (h.total exponent) = boundExponent (h.exponent + writtenExponent exponent) := by
  cases exponent with
  | none => rw [total, writtenExponent, add_zero]
  | some found =>
      obtain ⟨negative, digits⟩ := found
      exact boundExponent_total hlow hhigh negative digits

theorem ofParts_eq {mantissa : Bytes} (h : mantissa.length < 2 ^ 58)
    (exponent : Option (Bool × Bytes)) :
    ofParts mantissa exponent =
      scale (.ofInt (mantissa.foldl read {}).significand)
        (boundExponent ((mantissa.foldl read {}).exponent + writtenExponent exponent)) := by
  have hbounds := foldl_exponent_bounds {} mantissa
  have hstart : ({} : HexDigits).exponent = 0 := rfl
  rw [hstart] at hbounds
  rw [← boundExponent_total_eq (by omega) (by omega)]
  cases exponent <;> rfl

end HexDigits

/-- Beyond the bounds of the exponent every product is infinite, or rounded to zero. -/
theorem isRounded_scale_boundExponent {n : Nat} (hpos : 0 < n) (h : n < 2 ^ 63) (e : Int) :
    IsRounded false ((ofInt n).absValue * 2 ^ e) (scale (ofInt n) (boundExponent e)) := by
  obtain ⟨hone, hhigh⟩ := absValue_ofInt_bounds hpos h
  have hscaled := isRounded_scale_ofInt hpos h (fitsInt32_boundExponent e)
  have hcases : boundExponent e = e ∨ boundExponent e = 5000 ∧ 5000 < e ∨
      boundExponent e = -5000 ∧ e < -5000 := by
    unfold boundExponent exponentBound
    omega
  rcases hcases with hwithin | ⟨hbound, habove⟩ | ⟨hbound, hbelow⟩
  · rw [hwithin] at hscaled ⊢
    exact hscaled
  · have hhuge : ∀ k : Int, 5000 ≤ k → 2 ^ 1024 ≤ (ofInt n).absValue * 2 ^ k := by
      intro k hk
      calc
        (2 : ℚ) ^ 1024 = 2 ^ (1024 : Int) := (zpow_natCast 2 1024).symm
        _ ≤ 2 ^ k := zpow_le_zpow_right₀ (by norm_num) (by omega)
        _ ≤ (ofInt n).absValue * 2 ^ k := le_mul_of_one_le_left (by positivity) hone
    rw [hbound] at hscaled ⊢
    rw [hscaled.eq_infinity (hhuge _ le_rfl)]
    exact isRounded_infinity false (hhuge e habove.le)
  · have hsmall : (ofInt n).absValue ≤ 2 ^ 64 :=
      hhigh.trans (pow_le_pow_right₀ (by norm_num) (by norm_num))
    rw [hbound] at hscaled ⊢
    rw [hscaled.eq_zero (by positivity) (mul_two_zpow_lt_half hsmall (by norm_num))]
    exact isRounded_zero false (by positivity) (mul_two_zpow_lt_half hsmall (by omega))

section Sides

variable {n : Nat} (hpos : 0 < n) (h : n < 2 ^ 63) {y : Binary64} {t : Int}

include hpos h

theorem le_scaled_of_le (hy : y.isFinite = true) (hle : y.absValue ≤ n * 2 ^ t) :
    y.absValue ≤ (ofInt n).absValue * 2 ^ boundExponent t := by
  have hone := (absValue_ofInt_bounds hpos h).1
  have hn : (1 : ℚ) ≤ n := by exact_mod_cast hpos
  have hrounded := (isRounded_ofNat n).le_absValue_mul (isFinite_ofInt h) hn (hasBits_absValue y) hle
  rcases le_or_gt t (boundExponent t) with hup | hdown
  · refine hrounded.trans (mul_le_mul_of_nonneg_left ?_ (by linarith))
    exact zpow_le_zpow_right₀ (by norm_num) hup
  · -- beyond the upper bound everything is larger than all finite numbers
    have hbound : boundExponent t = 5000 := by
      unfold boundExponent exponentBound at *
      omega
    rw [hbound]
    calc
      y.absValue ≤ 2 ^ 1024 := (absValue_lt hy).le
      _ ≤ 2 ^ (5000 : Int) := by
        rw [← zpow_natCast]
        exact zpow_le_zpow_right₀ (by norm_num) (by norm_num)
      _ ≤ (ofInt n).absValue * 2 ^ (5000 : Int) := le_mul_of_one_le_left (by positivity) hone

theorem scaled_le_of_le (hge : n * 2 ^ t ≤ y.absValue) :
    (ofInt n).absValue * 2 ^ boundExponent t ≤ y.absValue := by
  obtain ⟨hone, hhigh⟩ := absValue_ofInt_bounds hpos h
  have hn : (1 : ℚ) ≤ n := by exact_mod_cast hpos
  have hrounded := (isRounded_ofNat n).absValue_mul_le (isFinite_ofInt h) hn (hasBits_absValue y) hge
  rcases le_or_gt (boundExponent t) t with hdown | hup
  · refine (mul_le_mul_of_nonneg_left ?_ (by linarith)).trans hrounded
    exact zpow_le_zpow_right₀ (by norm_num) hdown
  · -- below the lower bound everything is smaller than all positive numbers
    have hbound : boundExponent t = -5000 := by
      unfold boundExponent exponentBound at *
      omega
    have hnonzero : y.isZero = false := by
      apply isZero_eq_false_of_absValue_pos
      exact lt_of_lt_of_le (by positivity) hge
    have hhigh' : (ofInt n).absValue ≤ 2 ^ (63 : Int) := by exact_mod_cast hhigh
    rw [hbound]
    calc
      (ofInt n).absValue * 2 ^ (-5000 : Int) ≤ 2 ^ (63 : Int) * 2 ^ (-5000 : Int) :=
        mul_le_mul_of_nonneg_right hhigh' (by positivity)
      _ = 2 ^ (63 + -5000 : Int) := (zpow_add₀ (two_ne_zero' ℚ) _ _).symm
      _ ≤ 2 ^ (-1074 : Int) := zpow_le_zpow_right₀ (by norm_num) (by norm_num)
      _ = 1 / unit := by rw [div_unit, one_mul]
      _ ≤ y.absValue := one_div_unit_le_absValue hnonzero

end Sides

/-! ## Literals -/

/-- Leaving off digits behind the first 60 bits keeps all numbers of 53 bits below. -/
theorem HexDigits.isFaithful_ofParts {mantissa : Bytes} (h : IsMantissa Byte.isHexDigit mantissa)
    (hpos : (mantissa.foldl read {}).significand ≠ 0) (hlength : mantissa.length < 2 ^ 58)
    (exponent : Option (Bool × Bytes)) :
    (ofParts mantissa exponent).negative = false ∧
      (ofParts mantissa exponent).IsFaithful
        (mantissaValue mantissa * 2 ^ writtenExponent exponent) := by
  obtain ⟨number, places, dropped, hreads, hvalue⟩ := exists_reads h
  obtain ⟨hlow, hhigh, hexact⟩ := hreads.brackets
  have hlt := hreads.significand_lt
  rw [ofParts_eq hlength, hvalue]
  generalize (mantissa.foldl read {}).significand = n at *
  generalize (mantissa.foldl read {}).exponent = e at *
  generalize (number : ℚ) / 16 ^ places = w at *
  generalize writtenExponent exponent = e' at *
  have hpow : (0 : ℚ) < 2 ^ e' := by positivity
  have hlow' : (n : ℚ) * 2 ^ (e + e') ≤ w * 2 ^ e' := by
    rw [zpow_add₀ (two_ne_zero' ℚ), ← mul_assoc]
    exact mul_le_mul_of_nonneg_right hlow hpow.le
  have hhigh' : w * 2 ^ e' < (n + 1) * 2 ^ (e + e') := by
    rw [zpow_add₀ (two_ne_zero' ℚ), ← mul_assoc]
    exact mul_lt_mul_of_pos_right hhigh hpow
  have hkept : ∀ c : ℚ, HasBits 53 c → c ≤ w * 2 ^ e' → c ≤ n * 2 ^ (e + e') := by
    intro c hc hle
    rcases hexact with hexact | hlimit
    · rw [zpow_add₀ (two_ne_zero' ℚ), ← mul_assoc, ← hexact]
      exact hle
    · exact hc.le_of_lt ((by decide : 2 ^ 53 ≤ limit).trans hlimit) (hle.trans_lt hhigh')
  have hrounded := isRounded_scale_ofInt (Nat.pos_of_ne_zero hpos) hlt
    (fitsInt32_boundExponent (e + e'))
  refine ⟨hrounded.negative_eq, hrounded.isFaithful (fun y hy hle => ?_) fun y _ hge => ?_⟩
  · exact le_scaled_of_le (Nat.pos_of_ne_zero hpos) hlt hy (hkept _ (hasBits_absValue y) hle)
  · exact scaled_le_of_le (Nat.pos_of_ne_zero hpos) hlt (hlow'.trans hge)

/-- A hexadecimal literal that has a digit other than zero, and what it denotes exactly. -/
inductive DenotesHexadecimal : Bytes → ℚ → Prop
  | plain {x : UInt8} {mantissa : Bytes} (hx : Byte.toLower x = 0x78)
      (hmantissa : IsMantissa Byte.isHexDigit mantissa)
      (hdigit : ∃ b ∈ mantissa, Byte.isHexDigit b = true ∧ isZeroDigit b = false) :
      DenotesHexadecimal (0x30 :: x :: mantissa) (mantissaValue mantissa)
  | scaled {x letter : UInt8} {mantissa sign digits : Bytes} (hx : Byte.toLower x = 0x78)
      (hmantissa : IsMantissa Byte.isHexDigit mantissa)
      (hdigit : ∃ b ∈ mantissa, Byte.isHexDigit b = true ∧ isZeroDigit b = false)
      (hletter : Byte.toLower letter = 0x70) (hsign : IsSign sign) (hne : digits ≠ [])
      (hdigits : digits.AllDigits) :
      DenotesHexadecimal (0x30 :: x :: (mantissa ++ letter :: (sign ++ digits)))
        (mantissaValue mantissa * 2 ^ signedValue (sign == [0x2d]) digits)

theorem HexDigits.significand_ne_zero {mantissa : Bytes}
    (h : ∃ b ∈ mantissa, Byte.isHexDigit b = true ∧ isZeroDigit b = false) :
    (mantissa.foldl read {}).significand ≠ 0 := by
  intro hzero
  obtain ⟨b, hb, hhex, hnonzero⟩ := h
  have hall := ((foldl_significand_eq_zero_iff {} mantissa).1 hzero).2 b hb hhex
  rw [hall] at hnonzero
  cases hnonzero

namespace DenotesHexadecimal

variable {body : Bytes} {q : ℚ}

theorem isHexadecimal (h : DenotesHexadecimal body q) : IsHexadecimal body := by
  cases h with
  | plain hx hmantissa _ => exact .mk hx (.plain hmantissa)
  | scaled hx hmantissa _ hletter hsign hne hdigits =>
      exact .mk hx (.scaled hmantissa (.mk hletter hsign hne hdigits))

theorem exists_faithful (h : DenotesHexadecimal body q) (hlength : body.length < 2 ^ 58) :
    ∃ x, markedHexadecimal? body = some (x, []) ∧ x.negative = false ∧ x.IsFaithful q := by
  cases h with
  | @plain x mantissa hx hmantissa hdigit =>
      have hshort : mantissa.length < 2 ^ 58 := by
        simp only [List.length_cons] at hlength
        omega
      obtain ⟨hnegative, hfaithful⟩ := HexDigits.isFaithful_ofParts hmantissa
        (HexDigits.significand_ne_zero hdigit) hshort none
      rw [HexDigits.writtenExponent, zpow_zero, mul_one] at hfaithful
      exact ⟨_, markedHexadecimal?_plain hx hmantissa, hnegative, hfaithful⟩
  | @scaled x letter mantissa sign digits hx hmantissa hdigit hletter hsign hne hdigits =>
      have hshort : mantissa.length < 2 ^ 58 := by
        simp only [List.length_cons, List.length_append] at hlength
        omega
      obtain ⟨hnegative, hfaithful⟩ := HexDigits.isFaithful_ofParts hmantissa
        (HexDigits.significand_ne_zero hdigit) hshort (some (sign == [0x2d], digits))
      exact ⟨_, markedHexadecimal?_scaled hx hmantissa hletter hsign hne hdigits, hnegative,
        hfaithful⟩

end DenotesHexadecimal

/-- Where the longest literal is a hexadecimal one that is not zero, the number that is read has
its sign. It is the number that is written if this is a binary64 number, and one of the two
neighbours of that number otherwise. -/
theorem hexadecimal_is_read_faithfully {text sign body : Bytes} {q : ℚ} (hsign : IsSign sign)
    (hbody : DenotesHexadecimal body q) (hlength : (sign ++ body).length < 2 ^ 58)
    (hlongest : IsLongestPrefix IsFloat (Bytes.skipSpace text) (sign ++ body)) :
    (floatValue text).negative = (sign == [0x2d]) ∧
      (∀ x : Binary64, x.isFinite = true → x.absValue = q →
        floatValue text = { x with negative := sign == [0x2d] }) ∧
      ((∀ x : Binary64, x.isFinite = true → x.absValue ≠ q) →
        (floatValue text).IsNextBelow q ∨ (floatValue text).IsNextAbove q) := by
  have hshort : body.length < 2 ^ 58 := by
    rw [List.length_append] at hlength
    omega
  obtain ⟨x, hread, hpositive, hfaithful⟩ := hbody.exists_faithful hshort
  have hvalue := floatValue_of_hexadecimal hsign hbody.isHexadecimal hread hlongest
  have hnegative : (floatValue text).negative = (sign == [0x2d]) := by
    rw [hvalue]
    cases sign == [0x2d] <;> simp [neg, hpositive]
  have hsigned : (floatValue text).IsFaithful q := by
    rw [hvalue]
    cases sign == [0x2d]
    · exact hfaithful
    · exact ⟨hfaithful.isNaN, hfaithful.ge_of_le, hfaithful.le_of_ge⟩
  refine ⟨hnegative, fun y hy hq => ?_, hsigned.neighbour⟩
  have hmagnitude := hsigned.magnitude_eq hy hq
  generalize floatValue text = z at *
  obtain ⟨negative, magnitude, hlt⟩ := z
  obtain ⟨negative', magnitude', hlt'⟩ := y
  cases hmagnitude
  cases hnegative
  rfl

/-- A literal just above the half of the least positive number. The last one of its digits is
dropped, and the product with the power of two is subnormal. -/
theorem subnormal_hexadecimal_is_read_faithfully :
    let text := ascii "\t-0x.80000000000000001p-1074"
    let q : ℚ := (2 ^ 67 + 1) / 2 ^ 68 * 2 ^ (-1074 : Int)
    DenotesHexadecimal (ascii "0x.80000000000000001p-1074") q ∧
      (∀ x : Binary64, x.isFinite = true → x.absValue ≠ q) ∧
      (floatValue text).negative = true ∧
      ((floatValue text).IsNextBelow q ∨ (floatValue text).IsNextAbove q) := by
  intro text q
  have hfraction : ∀ b ∈ ascii "80000000000000001", Byte.isHexDigit b = true := by decide +kernel
  have hdigits : (ascii "1074").AllDigits := by
    unfold Bytes.AllDigits
    decide +kernel
  have hvalue : mantissaValue (ascii ".80000000000000001") *
      2 ^ signedValue ([0x2d] == [(0x2d : UInt8)]) (ascii "1074") = q := by
    have hbefore : Bytes.hexValue (beforePoint (ascii ".80000000000000001")) = 0 := by
      decide +kernel
    have hbehind : Bytes.hexValue (behindPoint (ascii ".80000000000000001")) = 2 ^ 67 + 1 := by
      decide +kernel
    have hlength : (behindPoint (ascii ".80000000000000001")).length = 17 := by decide +kernel
    have hexponent : signedValue ([0x2d] == [(0x2d : UInt8)]) (ascii "1074") = -1074 := by
      decide +kernel
    rw [mantissaValue, hbefore, hbehind, hlength, hexponent]
    congr 1
    norm_num
  have hbody : DenotesHexadecimal (ascii "0x.80000000000000001p-1074") q := by
    rw [← hvalue]
    exact @DenotesHexadecimal.scaled 0x78 0x70 (ascii ".80000000000000001") [0x2d] (ascii "1074")
      rfl (.fraction (by decide) hfraction) ⟨0x38, by decide +kernel, rfl, rfl⟩ rfl (.inr (.inr rfl))
      (by decide) hdigits
  have hnone : ∀ x : Binary64, x.isFinite = true → x.absValue ≠ q := by
    intro x _ hx
    have hpow : (2 : ℚ) ^ (-1074 : Int) ≠ 0 := by positivity
    rw [absValue, div_unit] at hx
    have hunits := mul_right_cancel₀ hpow hx
    rw [eq_div_iff (by norm_num)] at hunits
    have hnat : x.units * 2 ^ 68 = 2 ^ 67 + 1 := by exact_mod_cast hunits
    omega
  have hfloat : IsFloat ([0x2d] ++ ascii "0x.80000000000000001p-1074") :=
    .mk (.inr (.inr rfl)) (.inl hbody.isHexadecimal)
  have hlongest : IsLongestPrefix IsFloat (Bytes.skipSpace text)
      ([0x2d] ++ ascii "0x.80000000000000001p-1074") := by
    rw [show Bytes.skipSpace text = [0x2d] ++ ascii "0x.80000000000000001p-1074" by decide +kernel]
    exact ⟨List.prefix_rfl, .inl hfloat, fun other hother _ => hother.length_le⟩
  have hread := hexadecimal_is_read_faithfully (.inr (.inr rfl)) hbody (by decide) hlongest
  exact ⟨hbody, hnone, hread.1, hread.2.2 hnone⟩

end Tagged.Literal
