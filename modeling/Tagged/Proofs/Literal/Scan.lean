import Mathlib.Data.List.TakeWhile
import Tagged.Literal.Float
import Tagged.Proofs.Digits

/-!
# Scanning a literal that is there

What the scanners read when a text is put together from the parts of a decimal literal: a
sign, digits, a point with digits, and an exponent. Each part is read whole, and nothing
behind it.
-/

namespace Tagged

namespace Byte

theorem toLower_of_isDigit {b : UInt8} (hb : isDigit b = true) : toLower b = b := by
  have hbounds := (isDigit_iff b).1 hb
  have hupper : isUpper b = false := by
    simp only [isUpper, Bool.and_eq_false_iff, decide_eq_false_iff_not, UInt8.le_iff_toNat_le,
      UInt8.reduceToNat]
    omega
  simp [toLower, hupper]

end Byte

namespace Bytes

def NoDigitAhead (text : Bytes) : Prop := ∀ b ∈ text.head?, Byte.isDigit b = false

theorem takeWhile_isDigit {digits rest : Bytes} (hdigits : digits.AllDigits)
    (hrest : rest.NoDigitAhead) : (digits ++ rest).takeWhile Byte.isDigit = digits := by
  rw [List.takeWhile_append_of_pos hdigits]
  cases rest with
  | nil => simp
  | cons b rest => simp [hrest b (by simp)]

theorem dropWhile_isDigit {digits rest : Bytes} (hdigits : digits.AllDigits)
    (hrest : rest.NoDigitAhead) : (digits ++ rest).dropWhile Byte.isDigit = rest := by
  rw [List.dropWhile_append_of_pos hdigits]
  cases rest with
  | nil => rfl
  | cons b rest => simp [hrest b (by simp)]

theorem startsWithWord_of_isDigit {b c : UInt8} (hb : Byte.isDigit b = true)
    (hc : Byte.isDigit c = false) (word text : Bytes) :
    startsWithWord (c :: word) (b :: text) = false := by
  have hne : b ≠ c := by
    intro h
    rw [h, hc] at hb
    cases hb
  simp [startsWithWord, Byte.toLower_of_isDigit hb, hne]

end Bytes

namespace Literal

/-! ## Signs -/

def signed (negative : Bool) (text : Bytes) : Bytes :=
  if negative then 0x2d :: text else text

theorem skipSpace_of_isDigit {b : UInt8} (hb : Byte.isDigit b = true) (rest : Bytes) :
    Bytes.skipSpace (b :: rest) = b :: rest := by
  have hspace : Byte.isSpace b = false := by
    have hbounds := (Byte.isDigit_iff b).1 hb
    simp only [Byte.isSpace, Bool.or_eq_false_iff, beq_eq_false_iff_ne, ne_eq,
      Bool.and_eq_false_iff, decide_eq_false_iff_not, UInt8.le_iff_toNat_le,
      ← UInt8.toNat_inj]
    simp only [UInt8.reduceToNat]
    omega
  simp [Bytes.skipSpace, hspace]

theorem splitSign_of_isDigit {b : UInt8} (hb : Byte.isDigit b = true) (rest : Bytes) :
    Bytes.splitSign (b :: rest) = (false, b :: rest) := by
  have hbounds := (Byte.isDigit_iff b).1 hb
  unfold Bytes.splitSign
  split
  next heq =>
    rw [(List.cons.inj heq).1] at hbounds
    simp at hbounds
  next heq =>
    rw [(List.cons.inj heq).1] at hbounds
    simp at hbounds
  next => rfl

theorem skipSpace_signed {b : UInt8} (hb : Byte.isDigit b = true) (negative : Bool)
    (rest : Bytes) :
    Bytes.skipSpace (signed negative (b :: rest)) = signed negative (b :: rest) := by
  cases negative with
  | true => rfl
  | false => exact skipSpace_of_isDigit hb rest

theorem splitSign_signed {b : UInt8} (hb : Byte.isDigit b = true) (negative : Bool)
    (rest : Bytes) :
    Bytes.splitSign (signed negative (b :: rest)) = (negative, b :: rest) := by
  cases negative with
  | true => rfl
  | false => exact splitSign_of_isDigit hb rest

/-! ## Exponents -/

theorem exponentSize_eq {digits : Bytes} (h : digits.digitsValue < 0x10000) :
    exponentSize digits = digits.digitsValue := by
  induction digits using List.reverseRecOn with
  | nil => rfl
  | append_singleton digits b ih =>
      rw [Bytes.digitsValue_concat] at h ⊢
      have hprefix := ih (by omega)
      rw [exponentSize] at hprefix ⊢
      rw [List.foldl_append, List.foldl_cons, List.foldl_nil, hprefix, if_pos (by omega)]

theorem exponent?_of_digits {mark b : UInt8} (hb : Byte.toLower b = mark) {text digits : Bytes}
    {negative : Bool} (hsign : Bytes.splitSign text = (negative, digits)) (hne : digits ≠ [])
    (hdigits : digits.AllDigits) :
    exponent? mark (b :: text) = some ⟨negative, digits, []⟩ := by
  have htake : digits.takeWhile Byte.isDigit = digits := List.takeWhile_eq_self_iff.2 hdigits
  have hdrop : digits.dropWhile Byte.isDigit = [] := List.dropWhile_eq_nil_iff.2 hdigits
  simp [exponent?, hsign, htake, hdrop, hb, hne]

/-! ## Unsigned literals -/

theorem markedHexadecimal?_eq_none {text : Bytes} (h : ∀ b ∈ text, Byte.toLower b ≠ 0x78) :
    markedHexadecimal? text = none := by
  unfold markedHexadecimal?
  split
  next x rest =>
    have hx := h x (by simp)
    simp [hx]
  next => rfl

namespace Numeral

theorem word?_of_isDigit {b : UInt8} (hb : Byte.isDigit b = true) (text : Bytes) :
    word? (b :: text) = none := by
  have hi : Byte.isDigit 0x69 = false := rfl
  have hn : Byte.isDigit 0x6e = false := rfl
  have hinfinity : ascii "infinity" = 0x69 :: ascii "nfinity" := rfl
  have hinf : ascii "inf" = 0x69 :: ascii "nf" := rfl
  have hnan : ascii "nan" = 0x6e :: ascii "an" := rfl
  rw [word?, hinfinity, hinf, hnan, Bytes.startsWithWord_of_isDigit hb hi,
    Bytes.startsWithWord_of_isDigit hb hi, Bytes.startsWithWord_of_isDigit hb hn]
  rfl

def pointPart : Bytes → Bytes
  | [] => []
  | digit :: digits => 0x2e :: digit :: digits

def Ends (rest : Bytes) : Prop := rest.NoDigitAhead ∧ rest.head? ≠ some 0x2e

theorem noDigitAhead_pointPart (digits : Bytes) {rest : Bytes} (hrest : Ends rest) :
    Bytes.NoDigitAhead (pointPart digits ++ rest) := by
  cases digits with
  | nil => exact hrest.1
  | cons digit digits =>
      intro b hb
      cases hb
      rfl

theorem fraction_pointPart {digits rest : Bytes} (hdigits : digits.AllDigits)
    (hrest : Ends rest) : fraction (pointPart digits ++ rest) = (digits, rest) := by
  cases digits with
  | nil =>
      rw [pointPart, List.nil_append]
      unfold fraction
      split
      next text => exact absurd rfl hrest.2
      next => rfl
  | cons digit digits =>
      change ((digit :: digits ++ rest).takeWhile Byte.isDigit,
        (digit :: digits ++ rest).dropWhile Byte.isDigit) = _
      rw [Bytes.takeWhile_isDigit hdigits hrest.1, Bytes.dropWhile_isDigit hdigits hrest.1]

theorem decimal?_of_parts {whole digits rest : Bytes} (hne : whole ≠ [])
    (hwhole : whole.AllDigits) (hdigits : digits.AllDigits) (hrest : Ends rest) :
    decimal? (whole ++ pointPart digits ++ rest) =
      match exponent? 0x65 rest with
      | none => some (.decimal whole digits 0, rest)
      | some e => some (.decimal whole digits
          (if e.negative then -(exponentSize e.digits : Int) else exponentSize e.digits),
          e.rest) := by
  have hahead := noDigitAhead_pointPart digits hrest
  rw [decimal?, List.append_assoc, Bytes.takeWhile_isDigit hwhole hahead,
    Bytes.dropWhile_isDigit hwhole hahead, fraction_pointPart hdigits hrest]
  have hempty : whole.isEmpty = false := List.isEmpty_eq_false_iff.2 hne
  cases hexponent : exponent? 0x65 rest with
  | none => simp only [hempty, Bool.false_and, Bool.false_eq_true, if_false, hexponent]
  | some e => simp only [hempty, Bool.false_and, Bool.false_eq_true, if_false, hexponent]

end Numeral

end Literal

end Tagged
