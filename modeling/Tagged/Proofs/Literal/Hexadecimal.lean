import Tagged.Literal.Float
import Tagged.Proofs.Literal.Number

/-!
# Hexadecimal literals

The scanner of hexadecimal literals takes its digits in one by one, and stops where the mantissa
ends, so it is a case of `scanNumber` and reads the longest literal.
-/

namespace Tagged.Literal

theorem separates_isHexDigit : Separates Byte.isHexDigit 0x70 where
  point := rfl
  mark b hb := by
    have hdigit := Byte.isDigit_eq_false_of_toLower hb rfl
    refine ⟨by simp [Byte.isHexDigit, Byte.hexDigit?, hdigit, hb], ?_⟩
    rintro rfl
    cases hb

namespace HexDigits

def read (h : HexDigits) (b : UInt8) : HexDigits :=
  if b == 0x2e && !h.afterPoint then { h with afterPoint := true }
  else
    match Byte.hexDigit? b with
    | some digit => h.append digit
    | none => h

theorem append_afterPoint (h : HexDigits) (digit : Nat) :
    (h.append digit).afterPoint = h.afterPoint := by
  unfold append
  split <;> rfl

theorem append_anyDigit (h : HexDigits) (digit : Nat) : (h.append digit).anyDigit = true := by
  unfold append
  split <;> rfl

theorem read_of_hexDigit {b : UInt8} {digit : Nat} (hb : Byte.hexDigit? b = some digit)
    (h : HexDigits) : h.read b = h.append digit := by
  have hne : b ≠ 0x2e := by
    rintro rfl
    cases hb
  simp [read, hb, hne]

theorem scan_afterPoint {h : HexDigits} (hafter : h.afterPoint = true) (text : Bytes) :
    h.scan text =
      ((text.takeWhile Byte.isHexDigit).foldl read h, text.dropWhile Byte.isHexDigit) := by
  induction text generalizing h with
  | nil => rfl
  | cons b text ih =>
      rw [scan, hafter]
      cases hb : Byte.hexDigit? b with
      | none => simp [Byte.isHexDigit, hb]
      | some digit =>
          simp only [Bool.not_true, Bool.and_false, Bool.false_eq_true, if_false]
          rw [ih (by rw [append_afterPoint, hafter])]
          simp [Byte.isHexDigit, hb, read_of_hexDigit hb]

theorem scan_eq_foldl {h : HexDigits} (hafter : h.afterPoint = false) (text : Bytes) :
    h.scan text =
      ((splitMantissa Byte.isHexDigit text).1.foldl read h,
        (splitMantissa Byte.isHexDigit text).2) := by
  induction text generalizing h with
  | nil => rfl
  | cons b text ih =>
      rw [scan, splitMantissa, hafter]
      cases hb : Byte.hexDigit? b with
      | none =>
          by_cases hpoint : b = 0x2e
          · subst hpoint
            rw [scan_afterPoint rfl]
            simp [Byte.isHexDigit, hb, read, hafter]
          · simp [Byte.isHexDigit, hb, hpoint]
      | some digit =>
          have hpoint : b ≠ 0x2e := by
            rintro rfl
            cases hb
          have hrest : (h.append digit).afterPoint = false := by
            rw [append_afterPoint, hafter]
          simp [Byte.isHexDigit, hb, hpoint, ih hrest, read_of_hexDigit hb]

theorem anyDigit_foldl (h : HexDigits) (text : Bytes) :
    (text.foldl read h).anyDigit = (h.anyDigit || text.any Byte.isHexDigit) := by
  induction text generalizing h with
  | nil => simp
  | cons b text ih =>
      rw [List.foldl_cons, ih, List.any_cons]
      cases hb : Byte.hexDigit? b with
      | none =>
          have hread : (h.read b).anyDigit = h.anyDigit := by
            rw [read, hb]
            split <;> rfl
          simp [Byte.isHexDigit, hb, hread]
      | some digit => simp [Byte.isHexDigit, hb, read_of_hexDigit hb, append_anyDigit]

def ofParts (mantissa : Bytes) (exponent : Option (Bool × Bytes)) : Binary64 :=
  let h : HexDigits := mantissa.foldl read {}
  scale (.ofInt h.significand) (boundExponent
    (match exponent with
      | none => h.exponent
      | some (negative, digits) =>
        clampInt64 (h.exponent +
          if negative then -binaryExponentSize digits else binaryExponentSize digits)))

end HexDigits

theorem hexadecimal?_eq_scanNumber (text : Bytes) :
    hexadecimal? text = scanNumber Byte.isHexDigit 0x70 HexDigits.ofParts text := by
  unfold hexadecimal? scanNumber
  rw [HexDigits.scan_eq_foldl rfl]
  dsimp only
  rw [HexDigits.anyDigit_foldl, Bool.false_or]
  cases hany : (splitMantissa Byte.isHexDigit text).1.any Byte.isHexDigit with
  | false => rfl
  | true =>
      simp only [Bool.not_true, Bool.false_eq_true, if_false, if_true]
      cases exponent? 0x70 (splitMantissa Byte.isHexDigit text).2 <;> rfl

theorem readsLongest_hexadecimal? :
    ReadsLongest hexadecimal? (IsNumber Byte.isHexDigit 0x70) := by
  rw [show hexadecimal? = scanNumber Byte.isHexDigit 0x70 HexDigits.ofParts from
    funext hexadecimal?_eq_scanNumber]
  exact readsLongest_scanNumber separates_isHexDigit HexDigits.ofParts

theorem markedHexadecimal?_plain {x : UInt8} {mantissa : Bytes} (hx : Byte.toLower x = 0x78)
    (hmantissa : IsMantissa Byte.isHexDigit mantissa) :
    markedHexadecimal? (0x30 :: x :: mantissa) = some (HexDigits.ofParts mantissa none, []) := by
  rw [markedHexadecimal?, if_pos (beq_iff_eq.2 hx), hexadecimal?_eq_scanNumber,
    scanNumber_plain separates_isHexDigit _ hmantissa]

theorem markedHexadecimal?_scaled {x letter : UInt8} {mantissa sign digits : Bytes}
    (hx : Byte.toLower x = 0x78) (hmantissa : IsMantissa Byte.isHexDigit mantissa)
    (hletter : Byte.toLower letter = 0x70) (hsign : IsSign sign) (hne : digits ≠ [])
    (hdigits : digits.AllDigits) :
    markedHexadecimal? (0x30 :: x :: (mantissa ++ letter :: (sign ++ digits))) =
      some (HexDigits.ofParts mantissa (some (sign == [0x2d], digits)), []) := by
  rw [markedHexadecimal?, if_pos (beq_iff_eq.2 hx), hexadecimal?_eq_scanNumber,
    scanNumber_scaled separates_isHexDigit _ hmantissa hletter hsign hne hdigits]

theorem readsLongest_markedHexadecimal? : ReadsLongest markedHexadecimal? IsHexadecimal where
  sound {text x rest} hscan := by
    unfold markedHexadecimal? at hscan
    split at hscan
    next letter body =>
      split at hscan
      next hletter =>
        obtain ⟨literal, rfl, hliteral, hagain⟩ := readsLongest_hexadecimal?.sound hscan
        refine ⟨0x30 :: letter :: literal, rfl, .mk (beq_iff_eq.1 hletter) hliteral, ?_⟩
        rw [markedHexadecimal?, if_pos hletter, hagain]
      next => cases hscan
    next => cases hscan
  complete {literal} hliteral more := by
    obtain ⟨hletter, hbody⟩ := hliteral
    obtain ⟨x, rest, hsome, hle⟩ := readsLongest_hexadecimal?.complete hbody more
    refine ⟨x, rest, ?_, hle⟩
    rw [List.cons_append, List.cons_append, markedHexadecimal?, if_pos (beq_iff_eq.2 hletter),
      hsome]

end Tagged.Literal
