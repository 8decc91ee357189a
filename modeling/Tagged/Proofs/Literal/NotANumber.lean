import Tagged.Proofs.Binary64.Kinds
import Tagged.Proofs.IntegerText
import Tagged.Proofs.Literal.PrefixLength

/-!
# Where a NaN is read

A hexadecimal literal is scaled in steps, so that no factor is infinite before the number is, or
zero before it is, and what comes out is a number. A zero takes no steps and is multiplied by the
whole power at once, which from `2 ^ 1024` on is infinite. So a NaN is read in two cases: the
word `nan`, and a hexadecimal zero with an exponent beyond the range.
-/

namespace Tagged.Literal

open Binary64

/-! ## Scaling -/

/-- Within 32 bits an exponent is not wrapped. -/
structure FitsInt32 (e : Int) : Prop where
  le : -0x80000000 ≤ e
  lt : e < 0x80000000

theorem FitsInt32.wrap_eq {e : Int} (h : FitsInt32 e) : wrapInt32 e = e :=
  Int32.toInt_ofInt_of_le h.le h.lt

theorem fitsInt32_boundExponent (e : Int) : FitsInt32 (boundExponent e) := by
  constructor <;> unfold boundExponent exponentBound <;> omega

theorem scaleUp_snd_bounds (x : Binary64) (e : Int) :
    min 0 e ≤ (scaleUp x e).2 ∧ (scaleUp x e).2 ≤ e := by
  fun_induction scaleUp x e with
  | case1 x e hstep ih =>
      simp only [Bool.and_eq_true, decide_eq_true_eq] at hstep
      omega
  | case2 x e hstop => omega

theorem scaleDown_snd_bounds (x : Binary64) (e : Int) :
    e ≤ (scaleDown x e).2 ∧ (scaleDown x e).2 ≤ max 0 e := by
  fun_induction scaleDown x e with
  | case1 x e hstep ih =>
      simp only [Bool.and_eq_true, decide_eq_true_eq] at hstep
      omega
  | case2 x e hstop => omega

theorem scale_eq (x : Binary64) {e : Int} (he : FitsInt32 e) :
    scale x e = (scaleDown (scaleUp x e).1 (scaleUp x e).2).1.mul
      (powerOfTwo (scaleDown (scaleUp x e).1 (scaleUp x e).2).2) := by
  have hup := scaleUp_snd_bounds x e
  have hdown := scaleDown_snd_bounds (scaleUp x e).1 (scaleUp x e).2
  have hfits : FitsInt32 (scaleDown (scaleUp x e).1 (scaleUp x e).2).2 := by
    obtain ⟨hlow, hhigh⟩ := he
    constructor <;> omega
  unfold scale
  dsimp only
  rw [hfits.wrap_eq]

theorem unit_le_powerOfTwo_units : unit ≤ (powerOfTwo 1000).units := by
  decide +kernel

theorem scaleUp_ends {x : Binary64} (e : Int) (hnan : x.isNaN = false)
    (hzero : x.isZero = false) :
    (scaleUp x e).1.isNaN = false ∧ (scaleUp x e).1.isZero = false := by
  fun_induction scaleUp x e with
  | case1 x e hstep ih =>
      simp only [Bool.and_eq_true, decide_eq_true_eq] at hstep
      have hfinite : (powerOfTwo 1000).isFinite = true := isFinite_powerOfTwo (by omega)
      have hinfinite := (kind_of_isFinite hstep.1.2).2
      apply ih
      · apply isNaN_mul_eq_false hnan (isNaN_powerOfTwo _)
        · simp [hzero]
        · simp [hinfinite]
      · exact isZero_mul_eq_false hstep.1.2 hzero hfinite unit_le_powerOfTwo_units
  | case2 x e hstop => exact ⟨hnan, hzero⟩

/-- On the way down the number may become zero, but only while the exponent is negative, and an
infinite one takes all the steps. -/
theorem scaleDown_ends {x : Binary64} (e : Int) (hnan : x.isNaN = false)
    (hzero : x.isZero = true → e < 0) :
    (scaleDown x e).1.isNaN = false ∧
      ((scaleDown x e).1.isZero = true → (scaleDown x e).2 < 0) ∧
      ((scaleDown x e).1.isInfinite = true → -1000 ≤ (scaleDown x e).2) := by
  fun_induction scaleDown x e with
  | case1 x e hstep ih =>
      simp only [Bool.and_eq_true, decide_eq_true_eq] at hstep
      have hfinite : (powerOfTwo (-1000)).isFinite = true := isFinite_powerOfTwo (by omega)
      apply ih
      · apply isNaN_mul_eq_false hnan (isNaN_powerOfTwo _)
        · exact fun _ => (kind_of_isFinite hfinite).2
        · exact fun _ => isZero_powerOfTwo_eq_false (by omega)
      · intro _
        omega
  | case2 x e hstop =>
      refine ⟨hnan, hzero, ?_⟩
      intro hinfinite
      simp only [isZero_eq_false_of_isInfinite hinfinite, Bool.not_false, Bool.and_true,
        decide_eq_true_eq] at hstop
      omega

theorem isNaN_scale {x : Binary64} (hnan : x.isNaN = false) (hzero : x.isZero = false)
    {e : Int} (he : FitsInt32 e) : (scale x e).isNaN = false := by
  obtain ⟨hup, hup'⟩ := scaleUp_ends e hnan hzero
  obtain ⟨hdown, hnegative, hlow⟩ := scaleDown_ends (scaleUp x e).2 hup (by simp [hup'])
  rw [scale_eq x he]
  apply isNaN_mul_eq_false hdown (isNaN_powerOfTwo _)
  · intro h
    have := hnegative h
    exact (kind_of_isFinite (isFinite_powerOfTwo (by omega))).2
  · intro h
    have := hlow h
    exact isZero_powerOfTwo_eq_false (by omega)

theorem scale_zero (negative : Bool) {e : Int} (he : FitsInt32 e) :
    scale (.zero negative) e = if 1024 ≤ e then .nan true else .zero negative := by
  have hzero : (zero negative).isZero = true := rfl
  have hup : scaleUp (zero negative) e = (zero negative, e) := by
    rw [scaleUp]
    simp [hzero]
  have hdown : scaleDown (zero negative) e = (zero negative, e) := by
    rw [scaleDown]
    simp [hzero]
  rw [scale_eq _ he, hup, hdown]
  split
  next he => exact zero_mul_of_isInfinite _ (isInfinite_powerOfTwo he)
  next he =>
    rw [zero_mul_of_isFinite _ (isFinite_powerOfTwo (by omega)), powerOfTwo_negative,
      Bool.bne_false]

/-! ## Zero mantissas -/

def isZeroDigit (b : UInt8) : Bool := b == 0x30

def behindPoint (mantissa : Bytes) : Bytes := (mantissa.dropWhile (· != 0x2e)).tail

theorem isHexDigit_of_isZeroDigit {b : UInt8} (h : isZeroDigit b = true) :
    Byte.isHexDigit b = true := by
  rw [beq_iff_eq.1 h]
  rfl

theorem point_not_mem_of_isHexDigit {digits : Bytes}
    (hdigits : ∀ b ∈ digits, Byte.isHexDigit b = true) : 0x2e ∉ digits := by
  intro hmem
  cases hdigits _ hmem

theorem ne_point_of_not_mem {front : Bytes} (h : 0x2e ∉ front) :
    ∀ b ∈ front, (b != 0x2e) = true := by
  intro b hb
  rw [bne_iff_ne]
  rintro rfl
  exact h hb

theorem behindPoint_append {front : Bytes} (h : 0x2e ∉ front) (rest : Bytes) :
    behindPoint (front ++ rest) = behindPoint rest := by
  rw [behindPoint, List.dropWhile_append_of_pos (ne_point_of_not_mem h), behindPoint]

theorem behindPoint_point (fraction : Bytes) : behindPoint (0x2e :: fraction) = fraction := rfl

theorem IsMantissa.of_imp {isDigit isOther : UInt8 → Bool} {mantissa : Bytes}
    (h : IsMantissa isDigit mantissa)
    (himp : ∀ b ∈ mantissa, isDigit b = true → isOther b = true) : IsMantissa isOther mantissa := by
  cases h with
  | whole hne hdigits => exact .whole hne fun b hb => himp b hb (hdigits b hb)
  | pointed hne hdigits hfraction =>
      refine .pointed hne (fun b hb => himp b ?_ (hdigits b hb))
        (fun b hb => himp b ?_ (hfraction b hb)) <;> simp [hb]
  | fraction hne hfraction =>
      exact .fraction hne fun b hb => himp b (by simp [hb]) (hfraction b hb)

theorem hexDigit?_eq_zero_iff : ∀ b : UInt8, Byte.hexDigit? b = some 0 ↔ b = 0x30 := by
  decide +kernel

namespace HexDigits

theorem read_significand_eq_zero_iff (h : HexDigits) (b : UInt8) :
    (h.read b).significand = 0 ↔
      h.significand = 0 ∧ (Byte.isHexDigit b = true → isZeroDigit b = true) := by
  cases hb : Byte.hexDigit? b with
  | none =>
      have hread : (h.read b).significand = h.significand := by
        rw [read, hb]
        split <;> rfl
      simp [hread, Byte.isHexDigit, hb]
  | some digit =>
      have hzero : isZeroDigit b = true ↔ digit = 0 := by
        rw [isZeroDigit, beq_iff_eq, ← hexDigit?_eq_zero_iff, hb, Option.some_inj]
      rw [read_of_hexDigit hb, hzero, append]
      simp only [Byte.isHexDigit, hb, Option.isSome_some, forall_const]
      split
      next => simp
      next hlimit =>
        unfold limit at hlimit
        simp only
        omega

theorem foldl_significand_eq_zero_iff (h : HexDigits) (text : Bytes) :
    (text.foldl read h).significand = 0 ↔
      h.significand = 0 ∧ ∀ b ∈ text, Byte.isHexDigit b = true → isZeroDigit b = true := by
  induction text generalizing h with
  | nil => simp
  | cons b text ih =>
      rw [List.foldl_cons, ih, read_significand_eq_zero_iff, List.forall_mem_cons, and_assoc]

/-- Zeros add nothing to the significand, so each of them behind the point counts a place. -/
theorem foldl_zeros {h : HexDigits} (hzero : h.significand = 0) {digits : Bytes}
    (hdigits : ∀ b ∈ digits, isZeroDigit b = true) :
    (digits.foldl read h).exponent =
        (if h.afterPoint then h.exponent - 4 * digits.length else h.exponent) ∧
      (digits.foldl read h).significand = 0 ∧
      (digits.foldl read h).afterPoint = h.afterPoint := by
  induction digits generalizing h with
  | nil => simp [hzero]
  | cons b digits ih =>
      have hb := beq_iff_eq.1 (hdigits b (by simp))
      have hread : h.read b =
          { h with
            exponent := if h.afterPoint then h.exponent - 4 else h.exponent
            anyDigit := true } := by
        rw [hb, read_of_hexDigit (show Byte.hexDigit? 0x30 = some 0 from rfl), append, hzero]
        rfl
      have hzero' : (h.read b).significand = 0 := by rw [hread, hzero]
      obtain ⟨hexponent, hsignificand, hafter⟩ := ih hzero' fun c hc => hdigits c (by simp [hc])
      rw [List.foldl_cons]
      refine ⟨?_, hsignificand, by rw [hafter, hread]⟩
      rw [hexponent, hread, List.length_cons]
      dsimp only
      split <;> omega

theorem foldl_pointed_zeros {digits fraction : Bytes}
    (hdigits : ∀ b ∈ digits, isZeroDigit b = true)
    (hfraction : ∀ b ∈ fraction, isZeroDigit b = true) :
    ((digits ++ 0x2e :: fraction).foldl read {}).significand = 0 ∧
      ((digits ++ 0x2e :: fraction).foldl read {}).exponent = -4 * fraction.length := by
  obtain ⟨hexponent, hsignificand, hafter⟩ := foldl_zeros (h := {}) rfl hdigits
  have hread : (digits.foldl read {}).read 0x2e =
      { digits.foldl read {} with afterPoint := true } := by
    simp [read, hafter]
  obtain ⟨hexponent', hsignificand', -⟩ := foldl_zeros
    (h := { digits.foldl read {} with afterPoint := true }) hsignificand hfraction
  rw [List.foldl_append, List.foldl_cons, hread]
  refine ⟨hsignificand', ?_⟩
  rw [hexponent', hexponent]
  simp

theorem foldl_zero_mantissa {mantissa : Bytes} (h : IsMantissa isZeroDigit mantissa) :
    (mantissa.foldl read {}).significand = 0 ∧
      (mantissa.foldl read {}).exponent = -4 * (behindPoint mantissa).length := by
  cases h with
  | whole _ hdigits =>
      obtain ⟨hexponent, hsignificand, -⟩ := foldl_zeros (h := {}) rfl hdigits
      have hnone := point_not_mem_of_isHexDigit fun b hb => isHexDigit_of_isZeroDigit (hdigits b hb)
      have hbehind := behindPoint_append hnone []
      rw [List.append_nil] at hbehind
      rw [hbehind]
      exact ⟨hsignificand, hexponent⟩
  | pointed _ hdigits hfraction =>
      have hnone := point_not_mem_of_isHexDigit fun b hb => isHexDigit_of_isZeroDigit (hdigits b hb)
      rw [behindPoint_append hnone, behindPoint_point]
      exact foldl_pointed_zeros hdigits hfraction
  | @fraction fraction _ hfraction =>
      have hnone : ∀ b ∈ ([] : Bytes), isZeroDigit b = true := by simp
      exact foldl_pointed_zeros hnone hfraction

end HexDigits

/-! ## Zero literals -/

/-- A hexadecimal literal without a digit other than zero, with the number of digits behind its
point and its binary exponent, which is zero where none is written. -/
inductive IsZeroHexadecimal : Bytes → Nat → Int → Prop
  | plain {x : UInt8} {mantissa : Bytes} (hx : Byte.toLower x = 0x78)
      (hmantissa : IsMantissa isZeroDigit mantissa) :
      IsZeroHexadecimal (0x30 :: x :: mantissa) (behindPoint mantissa).length 0
  | scaled {x letter : UInt8} {mantissa sign digits : Bytes} (hx : Byte.toLower x = 0x78)
      (hmantissa : IsMantissa isZeroDigit mantissa) (hletter : Byte.toLower letter = 0x70)
      (hsign : IsSign sign) (hne : digits ≠ []) (hdigits : digits.AllDigits) :
      IsZeroHexadecimal (0x30 :: x :: (mantissa ++ letter :: (sign ++ digits)))
        (behindPoint mantissa).length (signedValue (sign == [0x2d]) digits)

/-- A zero is scaled by an infinite power. The exponent is kept within 64 bits, and each place
behind the point takes four off it. -/
def Overflows (places : Nat) (exponent : Int) : Prop :=
  1024 + 4 * places ≤ min exponent 0x7fffffffffffffff

instance (places : Nat) (exponent : Int) : Decidable (Overflows places exponent) :=
  inferInstanceAs (Decidable (_ ≤ _))

def zeroValue (negative : Bool) (places : Nat) (exponent : Int) : Binary64 :=
  if Overflows places exponent then .nan (!negative) else .zero negative

theorem IsMantissa.isHexDigit {mantissa : Bytes} (h : IsMantissa isZeroDigit mantissa) :
    IsMantissa Byte.isHexDigit mantissa :=
  h.of_imp fun _ _ hb => isHexDigit_of_isZeroDigit hb

theorem binaryExponentSize_eq (digits : Bytes) :
    binaryExponentSize digits = clampInt64 digits.digitsValue :=
  foldl_appendDigit false digits

namespace HexDigits

def writtenExponent : Option (Bool × Bytes) → Int
  | none => 0
  | some (negative, digits) => signedValue negative digits

/-- Clamping and bounding the exponent on the way does not move it across `1024`. -/
theorem ofParts_of_zeros {mantissa : Bytes} (h : IsMantissa isZeroDigit mantissa)
    (exponent : Option (Bool × Bytes)) :
    ofParts mantissa exponent =
      zeroValue false (behindPoint mantissa).length (writtenExponent exponent) := by
  obtain ⟨hsignificand, hexponent⟩ := foldl_zero_mantissa h
  have hzero : Binary64.ofInt (0 : Nat) = .zero false := ofRatio_zero _ Nat.one_pos
  unfold ofParts zeroValue
  dsimp only
  rw [hsignificand, hexponent, hzero, scale_zero false (fitsInt32_boundExponent _),
    Bool.not_false]
  congr 1
  apply propext
  cases exponent with
  | none =>
      unfold boundExponent exponentBound Overflows writtenExponent
      dsimp only
      omega
  | some found =>
      obtain ⟨negative, digits⟩ := found
      unfold boundExponent exponentBound Overflows writtenExponent signedValue
      dsimp only
      rw [binaryExponentSize_eq]
      unfold clampInt64
      cases negative <;> simp <;> omega

/-- A mantissa with a digit other than zero gives a number, whatever the exponent. -/
theorem isNaN_ofParts {mantissa : Bytes} (h : (mantissa.foldl read {}).significand ≠ 0)
    (exponent : Option (Bool × Bytes)) : (ofParts mantissa exponent).isNaN = false := by
  refine isNaN_scale (isNaN_ofInt _) ?_ (fitsInt32_boundExponent _)
  apply isZero_ofRatio_eq_false _ Nat.one_pos
  exact Nat.mul_pos (by omega) unit_pos

theorem isMantissa_isZeroDigit {mantissa : Bytes} (h : IsMantissa Byte.isHexDigit mantissa)
    (hzero : (mantissa.foldl read {}).significand = 0) : IsMantissa isZeroDigit mantissa :=
  h.of_imp ((foldl_significand_eq_zero_iff {} mantissa).1 hzero).2

end HexDigits

theorem IsZeroHexadecimal.markedHexadecimal? {literal : Bytes} {places : Nat} {exponent : Int}
    (h : IsZeroHexadecimal literal places exponent) :
    markedHexadecimal? literal = some (zeroValue false places exponent, []) := by
  cases h with
  | plain hx hmantissa =>
      rw [markedHexadecimal?_plain hx hmantissa.isHexDigit, HexDigits.ofParts_of_zeros hmantissa]
      rfl
  | scaled hx hmantissa hletter hsign hne hdigits =>
      rw [markedHexadecimal?_scaled hx hmantissa.isHexDigit hletter hsign hne hdigits,
        HexDigits.ofParts_of_zeros hmantissa]
      rfl

theorem IsZeroHexadecimal.isHexadecimal {literal : Bytes} {places : Nat} {exponent : Int}
    (h : IsZeroHexadecimal literal places exponent) : IsHexadecimal literal := by
  cases h with
  | plain hx hmantissa => exact .mk hx (.plain hmantissa.isHexDigit)
  | scaled hx hmantissa hletter hsign hne hdigits =>
      exact .mk hx (.scaled hmantissa.isHexDigit (.mk hletter hsign hne hdigits))

theorem IsHexadecimal.zero_or_number {literal : Bytes} (h : IsHexadecimal literal) :
    (∃ places exponent, IsZeroHexadecimal literal places exponent) ∨
      ∃ x, markedHexadecimal? literal = some (x, []) ∧ x.isNaN = false := by
  obtain @⟨x, body, hx, hbody⟩ := h
  cases hbody with
  | plain hmantissa =>
      by_cases hzero : (body.foldl HexDigits.read {}).significand = 0
      · exact .inl ⟨_, _, .plain hx (HexDigits.isMantissa_isZeroDigit hmantissa hzero)⟩
      · exact .inr ⟨_, markedHexadecimal?_plain hx hmantissa, HexDigits.isNaN_ofParts hzero none⟩
  | @scaled mantissa exponent hmantissa hexponent =>
      obtain @⟨letter, sign, digits, hletter, hsign, hne, hdigits⟩ := hexponent
      by_cases hzero : (mantissa.foldl HexDigits.read {}).significand = 0
      · exact .inl ⟨_, _, .scaled hx (HexDigits.isMantissa_isZeroDigit hmantissa hzero) hletter
          hsign hne hdigits⟩
      · exact .inr ⟨_, markedHexadecimal?_scaled hx hmantissa hletter hsign hne hdigits,
          HexDigits.isNaN_ofParts hzero _⟩

/-! ## Words and decimals -/

theorem Numeral.isNaN_value_iff (negative : Bool) (numeral : Numeral) :
    (numeral.value negative).isNaN = true ↔ numeral = .nan := by
  cases numeral with
  | infinity => simp [Numeral.value, Binary64.isNaN, Binary64.infinity]
  | nan => exact ⟨fun _ => rfl, fun _ => rfl⟩
  | decimal whole fraction exponent => simp [Numeral.value, isNaN_ofDecimal]

theorem Numeral.scan?_nan {text : Bytes}
    (h : Bytes.startsWithWord (ascii "nan") text = true) :
    ∃ rest, Numeral.scan? text = some (.nan, rest) := by
  obtain ⟨literal, htext, hliteral⟩ := exists_literal_of_startsWithWord h
  have hword := Numeral.word?_nan hliteral (text.drop (ascii "nan").length)
  rw [← htext] at hword
  exact ⟨_, by rw [Numeral.scan?, hword]⟩

theorem Numeral.decimal?_ne_nan {text rest : Bytes} :
    Numeral.decimal? text ≠ some (.nan, rest) := by
  intro h
  rw [Numeral.decimal?] at h
  dsimp only at h
  split at h
  next => cases h
  next => split at h <;> cases h

theorem Numeral.startsWithWord_of_scan? {text rest : Bytes}
    (h : Numeral.scan? text = some (.nan, rest)) :
    Bytes.startsWithWord (ascii "nan") text = true := by
  rw [Numeral.scan?_eq_or] at h
  rcases Option.or_eq_some_iff.1 h with hword | ⟨-, hdecimal⟩
  · unfold Numeral.word? at hword
    split at hword
    next => cases hword
    next =>
      split at hword
      next => cases hword
      next =>
        split at hword
        next hnan => exact hnan
        next => cases hword
  · exact absurd hdecimal Numeral.decimal?_ne_nan

/-! ## NaNs -/

def NanAhead (text : Bytes) : Prop :=
  Bytes.startsWithWord (ascii "nan") (Bytes.splitSign (Bytes.skipSpace text)).2 = true

inductive ZeroAhead (text : Bytes) : Bool → Nat → Int → Prop
  | mk {sign body : Bytes} {places : Nat} {exponent : Int} (hsign : IsSign sign)
      (hbody : IsZeroHexadecimal body places exponent)
      (hlongest : IsLongestPrefix IsFloat (Bytes.skipSpace text) (sign ++ body)) :
      ZeroAhead text (sign == [0x2d]) places exponent

theorem IsZeroHexadecimal.zeroAhead {sign body : Bytes} {places : Nat} {exponent : Int}
    (h : IsZeroHexadecimal body places exponent) (hsign : IsSign sign) :
    ZeroAhead (sign ++ body) (sign == [0x2d]) places exponent := by
  have hfloat : IsFloat (sign ++ body) := .mk hsign (.inl h.isHexadecimal)
  refine .mk hsign h ?_
  rw [skipSpace_of_isFloat hfloat]
  exact ⟨List.prefix_rfl, .inl hfloat, fun other hother _ => hother.length_le⟩

theorem signed_zeroValue (negative : Bool) (places : Nat) (exponent : Int) :
    (if negative then (zeroValue false places exponent).neg else zeroValue false places exponent) =
      zeroValue negative places exponent := by
  unfold zeroValue
  by_cases hover : Overflows places exponent
  · simp only [if_pos hover]
    cases negative <;> rfl
  · simp only [if_neg hover]
    cases negative <;> rfl

/-- What is behind a hexadecimal literal that is the longest one does not count. -/
theorem floatValue_of_hexadecimal {text sign body : Bytes} {x : Binary64} (hsign : IsSign sign)
    (hbody : IsHexadecimal body) (hread : markedHexadecimal? body = some (x, []))
    (hlongest : IsLongestPrefix IsFloat (Bytes.skipSpace text) (sign ++ body)) :
    floatValue text = if sign == [0x2d] then x.neg else x := by
  have hunsigned : IsUnsigned body := .inl hbody
  have hahead := hunsigned.noSignAhead []
  rw [List.append_nil] at hahead
  obtain ⟨literal, hliteral, hvalue, -⟩ := exists_longest_literal text
  rw [hvalue, hliteral.unique hlongest, Literal.floatValue,
    skipSpace_of_isFloat (.mk hsign hunsigned), float?, splitSign_append hsign hahead]
  dsimp only
  rw [hread]

theorem ZeroAhead.floatValue {text : Bytes} {negative : Bool} {places : Nat} {exponent : Int}
    (h : ZeroAhead text negative places exponent) :
    floatValue text = zeroValue negative places exponent := by
  obtain ⟨hsign, hbody, hlongest⟩ := h
  rw [floatValue_of_hexadecimal hsign hbody.isHexadecimal hbody.markedHexadecimal? hlongest]
  exact signed_zeroValue _ _ _

theorem float?_of_markedHexadecimal? {text rest : Bytes} {x : Binary64}
    (h : markedHexadecimal? (Bytes.splitSign text).2 = some (x, rest)) :
    float? text = some (if (Bytes.splitSign text).1 then x.neg else x, rest) := by
  rw [float?]
  dsimp only
  rw [h]

theorem isNaN_signed (negative : Bool) (x : Binary64) :
    (if negative then x.neg else x).isNaN = x.isNaN := by
  cases negative <;> rfl

/-- A hexadecimal literal that is read as a NaN is a zero beyond the range. -/
theorem zeroAhead_of_isNaN {text rest : Bytes} {x : Binary64}
    (h : markedHexadecimal? (Bytes.splitSign (Bytes.skipSpace text)).2 = some (x, rest))
    (hnan : x.isNaN = true) :
    ∃ negative places exponent, ZeroAhead text negative places exponent := by
  obtain ⟨sign, hsign, htext, -⟩ := exists_sign (Bytes.skipSpace text)
  obtain ⟨body, hjoin, hbody, hagain⟩ := readsLongest_markedHexadecimal?.sound h
  have hfloat := float?_of_markedHexadecimal? h
  rcases hbody.zero_or_number with ⟨places, exponent, hzero⟩ | ⟨y, hy, hnumber⟩
  · refine ⟨_, places, exponent, .mk hsign hzero ?_⟩
    rw [hjoin, ← List.append_assoc] at htext
    rw [htext] at hfloat ⊢
    exact readsLongest_float?.isLongestPrefix_append (.mk hsign (.inl hbody)) hfloat
  · rw [hagain] at hy
    cases hy
    rw [hnumber] at hnan
    cases hnan

theorem nanAhead_of_isNaN {text : Bytes}
    (h : markedHexadecimal? (Bytes.splitSign (Bytes.skipSpace text)).2 = none)
    (hnan : (floatValue text).isNaN = true) : NanAhead text := by
  rw [floatValue, float?_eq_plain? h, plain?] at hnan
  cases hscan : Numeral.scan? (Bytes.splitSign (Bytes.skipSpace text)).2 with
  | none =>
      rw [hscan] at hnan
      cases hnan
  | some found =>
      obtain ⟨numeral, rest⟩ := found
      rw [hscan] at hnan
      have hword := (Numeral.isNaN_value_iff _ numeral).1 hnan
      exact Numeral.startsWithWord_of_scan? (hword ▸ hscan)

theorem NanAhead.isNaN {text : Bytes} (h : NanAhead text) : (floatValue text).isNaN = true := by
  obtain ⟨rest, hscan⟩ := Numeral.scan?_nan h
  have hhex : markedHexadecimal? (Bytes.splitSign (Bytes.skipSpace text)).2 = none := by
    cases hfound : markedHexadecimal? (Bytes.splitSign (Bytes.skipSpace text)).2 with
    | none => rfl
    | some found =>
        obtain ⟨literal, htext, hliteral, -⟩ := readsLongest_markedHexadecimal?.sound hfound
        obtain ⟨-, -⟩ := hliteral
        have hother : ∀ more, Bytes.startsWithWord (ascii "nan") (0x30 :: more) = false :=
          Bytes.startsWithWord_of_isDigit rfl (by decide) _
        rw [NanAhead, htext, List.cons_append, hother] at h
        cases h
  rw [floatValue, float?_eq_plain? hhex, plain?, hscan]
  rfl

/-- A NaN is read for the word `nan`, and for a hexadecimal zero beyond the range. -/
theorem isNaN_floatValue_iff (text : Bytes) :
    (floatValue text).isNaN = true ↔
      NanAhead text ∨
        ∃ negative places exponent,
          ZeroAhead text negative places exponent ∧ Overflows places exponent := by
  constructor
  · intro hnan
    cases hhex : markedHexadecimal? (Bytes.splitSign (Bytes.skipSpace text)).2 with
    | none => exact .inl (nanAhead_of_isNaN hhex hnan)
    | some found =>
        obtain ⟨x, rest⟩ := found
        have hx : x.isNaN = true := by
          rwa [floatValue, float?_of_markedHexadecimal? hhex, isNaN_signed] at hnan
        obtain ⟨negative, places, exponent, hzero⟩ := zeroAhead_of_isNaN hhex hx
        refine .inr ⟨negative, places, exponent, hzero, ?_⟩
        by_contra hrange
        rw [hzero.floatValue, zeroValue, if_neg hrange] at hnan
        cases hnan
  · rintro (hword | ⟨negative, places, exponent, hzero, hover⟩)
    · exact hword.isNaN
    · rw [hzero.floatValue, zeroValue, if_pos hover]
      rfl

/-- A text is read as a NaN only for the word `nan`, and every hexadecimal zero as a zero of its
sign, exactly if no zero stands there with an exponent beyond the range. Such a zero is read as
a NaN. -/
theorem nan_only_as_word_iff (text : Bytes) :
    ((((floatValue text).isNaN = true ↔ NanAhead text) ∧
        ∀ negative places exponent, ZeroAhead text negative places exponent →
          floatValue text = .zero negative) ↔
      ∀ negative places exponent, ZeroAhead text negative places exponent →
        ¬ Overflows places exponent) ∧
    ∀ negative places exponent, ZeroAhead text negative places exponent →
      Overflows places exponent → (floatValue text).isNaN = true := by
  refine ⟨⟨?_, ?_⟩, ?_⟩
  · rintro ⟨-, hzeros⟩ negative places exponent hzero hover
    have hvalue := hzeros negative places exponent hzero
    rw [hzero.floatValue, zeroValue, if_pos hover] at hvalue
    have hkind : true = false := congrArg Binary64.isNaN hvalue
    cases hkind
  · intro hrange
    constructor
    · rw [isNaN_floatValue_iff, or_iff_left]
      rintro ⟨negative, places, exponent, hzero, hover⟩
      exact hrange negative places exponent hzero hover
    · intro negative places exponent hzero
      rw [hzero.floatValue, zeroValue, if_neg (hrange negative places exponent hzero)]
  · intro negative places exponent hzero hover
    exact (isNaN_floatValue_iff text).2 (.inr ⟨negative, places, exponent, hzero, hover⟩)

/-- Zero times `2 ^ 1024` is read as a NaN, though a zero is written and no `nan`. -/
theorem zero_beyond_range_is_nan :
    ZeroAhead (ascii "0x0p1024") false 0 1024 ∧
      (floatValue (ascii "0x0p1024")).isNaN = true ∧ ¬ NanAhead (ascii "0x0p1024") := by
  have hdigits : (ascii "1024").AllDigits := by
    unfold Bytes.AllDigits
    decide +kernel
  have hzero : IsZeroHexadecimal (ascii "0x0p1024") 0 1024 :=
    @IsZeroHexadecimal.scaled 0x78 0x70 [0x30] [] (ascii "1024") rfl
      (.whole (by decide) (by decide +kernel)) rfl (.inl rfl) (by decide) hdigits
  refine ⟨hzero.zeroAhead (.inl rfl), ?_⟩
  unfold NanAhead
  decide +kernel

end Tagged.Literal
