import Mathlib.Data.List.TakeWhile
import Tagged.Proofs.Literal.Grammar
import Tagged.Proofs.Literal.Scan

/-!
# Scanning a number

A number is a mantissa and perhaps an exponent. `scanNumber` is a scanner for this form, with the
digits of the mantissa and the letter of the exponent left open, and reads the longest number
at the front of a text: a point or a letter with nothing behind it that makes it part of the
number is left alone.
-/

namespace Tagged

namespace Byte

theorem isDigit_eq_false_of_toLower {b c : UInt8} (hb : toLower b = c)
    (hc : isDigit c = false) : isDigit b = false := by
  by_contra hdigit
  rw [toLower_of_isDigit (eq_true_of_ne_false hdigit)] at hb
  exact hdigit (hb ▸ hc)

end Byte

namespace Literal

/-! ## Signs -/

def NoSignAhead (text : Bytes) : Prop := ∀ b ∈ text.head?, b ≠ 0x2d ∧ b ≠ 0x2b

theorem splitSign_of_noSignAhead {text : Bytes} (h : NoSignAhead text) :
    Bytes.splitSign text = (false, text) := by
  unfold Bytes.splitSign
  split
  next rest => exact absurd rfl (h 0x2d rfl).1
  next rest => exact absurd rfl (h 0x2b rfl).2
  next => rfl

theorem splitSign_append {sign text : Bytes} (hsign : IsSign sign) (h : NoSignAhead text) :
    Bytes.splitSign (sign ++ text) = (sign == [0x2d], text) := by
  rcases hsign with rfl | rfl | rfl
  · exact splitSign_of_noSignAhead h
  · rfl
  · rfl

theorem exists_sign (text : Bytes) :
    ∃ sign, IsSign sign ∧ text = sign ++ (Bytes.splitSign text).2 ∧
      (Bytes.splitSign text).1 = (sign == [0x2d]) := by
  unfold Bytes.splitSign
  split
  · exact ⟨[0x2d], .inr (.inr rfl), rfl, rfl⟩
  · exact ⟨[0x2b], .inr (.inl rfl), rfl, rfl⟩
  · exact ⟨[], .inl rfl, rfl, rfl⟩

theorem noSignAhead_of_allDigits {digits : Bytes} (hdigits : digits.AllDigits) :
    NoSignAhead digits := by
  intro b hb
  have hdigit := (Byte.isDigit_iff b).1 (hdigits b (List.mem_of_mem_head? hb))
  constructor
  · rintro rfl
    simp at hdigit
  · rintro rfl
    simp at hdigit

/-! ## Exponents -/

theorem exponent?_sound {mark : UInt8} {text : Bytes} {e : Exponent}
    (h : exponent? mark text = some e) :
    ∃ literal, text = literal ++ e.rest ∧ IsExponent mark literal ∧
      exponent? mark literal = some ⟨e.negative, e.digits, []⟩ := by
  cases text with
  | nil => cases h
  | cons letter text =>
      obtain ⟨sign, hsign, htext, hnegative⟩ := exists_sign text
      simp only [exponent?] at h
      split at h
      next => cases h
      next hsome =>
        simp only [Bool.or_eq_true, bne_iff_ne, ne_eq, List.isEmpty_iff, not_or, not_not] at hsome
        cases h
        have hdigits : Bytes.AllDigits ((Bytes.splitSign text).2.takeWhile Byte.isDigit) :=
          fun b hb => List.mem_takeWhile_imp hb
        refine ⟨letter :: (sign ++ (Bytes.splitSign text).2.takeWhile Byte.isDigit), ?_,
          .mk hsome.1 hsign hsome.2 hdigits, ?_⟩
        · rw [List.cons_append, List.append_assoc, List.takeWhile_append_dropWhile, ← htext]
        · rw [exponent?_of_digits hsome.1
            (splitSign_append hsign (noSignAhead_of_allDigits hdigits)) hsome.2 hdigits, hnegative]

theorem exponent?_complete {mark : UInt8} {literal : Bytes} (h : IsExponent mark literal)
    (more : Bytes) :
    ∃ e, exponent? mark (literal ++ more) = some e ∧ e.rest.length ≤ more.length := by
  obtain @⟨letter, sign, digits, hletter, hsign, hne, hdigits⟩ := h
  have hahead : NoSignAhead (digits ++ more) := by
    intro b hb
    rw [List.head?_append_of_ne_nil _ hne] at hb
    exact noSignAhead_of_allDigits hdigits b hb
  have htake : (digits ++ more).takeWhile Byte.isDigit ≠ [] := by
    rw [List.takeWhile_append_of_pos hdigits]
    exact List.append_ne_nil_of_left_ne_nil hne _
  refine ⟨⟨sign == [0x2d], (digits ++ more).takeWhile Byte.isDigit,
    (digits ++ more).dropWhile Byte.isDigit⟩, ?_, ?_⟩
  · simp [exponent?, splitSign_append hsign hahead, hletter, htake]
  · rw [List.dropWhile_append_of_pos hdigits]
    exact (List.dropWhile_suffix _).length_le

theorem exponent?_rest_length {mark : UInt8} {text : Bytes} {e : Exponent}
    (h : exponent? mark text = some e) : e.rest.length ≤ text.length := by
  obtain ⟨literal, htext, -, -⟩ := exponent?_sound h
  rw [htext, List.length_append]
  exact Nat.le_add_left _ _

/-! ## Mantissas -/

/-- Digits and the first point among them, even where there is no digit, and the text behind
them. -/
def splitMantissa (isDigit : UInt8 → Bool) : Bytes → Bytes × Bytes
  | [] => ([], [])
  | b :: text =>
    if isDigit b then (b :: (splitMantissa isDigit text).1, (splitMantissa isDigit text).2)
    else if b = 0x2e then (0x2e :: text.takeWhile isDigit, text.dropWhile isDigit)
    else ([], b :: text)

section Mantissa

variable {isDigit : UInt8 → Bool}

variable (isDigit) in
theorem splitMantissa_join (text : Bytes) :
    (splitMantissa isDigit text).1 ++ (splitMantissa isDigit text).2 = text := by
  induction text with
  | nil => rfl
  | cons b text ih =>
      rw [splitMantissa]
      split
      · rw [List.cons_append, ih]
      · split
        next hb => rw [List.cons_append, List.takeWhile_append_dropWhile, hb]
        next => rfl

variable (isDigit) in
theorem splitMantissa_suffix (text : Bytes) : (splitMantissa isDigit text).2 <:+ text :=
  ⟨_, splitMantissa_join isDigit text⟩

variable (isDigit) in
theorem splitMantissa_shape (text : Bytes) :
    ∃ digits, (∀ b ∈ digits, isDigit b = true) ∧
      ((splitMantissa isDigit text).1 = digits ∨
        ∃ fraction, (∀ b ∈ fraction, isDigit b = true) ∧
          (splitMantissa isDigit text).1 = digits ++ 0x2e :: fraction) := by
  induction text with
  | nil => exact ⟨[], by simp, .inl rfl⟩
  | cons b text ih =>
      rw [splitMantissa]
      split
      next hb =>
        obtain ⟨digits, hdigits, hshape⟩ := ih
        refine ⟨b :: digits, by simpa [hb] using hdigits, ?_⟩
        rcases hshape with hshape | ⟨fraction, hfraction, hshape⟩
        · exact .inl (by rw [hshape])
        · exact .inr ⟨fraction, hfraction, by rw [hshape, List.cons_append]⟩
      next =>
        refine ⟨[], by simp, ?_⟩
        split
        · exact .inr ⟨text.takeWhile isDigit, fun c hc => List.mem_takeWhile_imp hc, rfl⟩
        · exact .inl rfl

theorem isMantissa_splitMantissa (hpoint : isDigit 0x2e = false) {text : Bytes}
    (h : (splitMantissa isDigit text).1.any isDigit = true) :
    IsMantissa isDigit (splitMantissa isDigit text).1 := by
  obtain ⟨digits, hdigits, hshape | ⟨fraction, hfraction, hshape⟩⟩ :=
    splitMantissa_shape isDigit text
  · rw [hshape] at h ⊢
    exact .whole (by rintro rfl; simp at h) hdigits
  · rw [hshape] at h ⊢
    by_cases hnil : digits = []
    · subst hnil
      exact .fraction (by rintro rfl; simp [hpoint] at h) hfraction
    · exact .pointed hnil hdigits hfraction

theorem splitMantissa_digits {digits : Bytes} (hdigits : ∀ b ∈ digits, isDigit b = true)
    (rest : Bytes) :
    splitMantissa isDigit (digits ++ rest) =
      (digits ++ (splitMantissa isDigit rest).1, (splitMantissa isDigit rest).2) := by
  induction digits with
  | nil => rfl
  | cons b digits ih =>
      rw [List.cons_append, splitMantissa, if_pos (hdigits b (by simp)),
        ih (fun c hc => hdigits c (by simp [hc]))]
      rfl

theorem splitMantissa_point (hpoint : isDigit 0x2e = false) {fraction : Bytes}
    (hfraction : ∀ b ∈ fraction, isDigit b = true) (rest : Bytes) :
    splitMantissa isDigit (0x2e :: (fraction ++ rest)) =
      (0x2e :: (fraction ++ rest.takeWhile isDigit), rest.dropWhile isDigit) := by
  rw [splitMantissa, if_neg (by simp [hpoint]), if_pos rfl,
    List.takeWhile_append_of_pos hfraction, List.dropWhile_append_of_pos hfraction]

/-- A mantissa at the front of a text is read, and perhaps more than it. -/
theorem splitMantissa_append (hpoint : isDigit 0x2e = false) {mantissa : Bytes}
    (h : IsMantissa isDigit mantissa) (more : Bytes) :
    (splitMantissa isDigit (mantissa ++ more)).1.any isDigit = true ∧
      (splitMantissa isDigit (mantissa ++ more)).2.length ≤ more.length := by
  have hany : ∀ {digits : Bytes}, digits ≠ [] → (∀ b ∈ digits, isDigit b = true) →
      digits.any isDigit = true := by
    intro digits hne hdigits
    obtain ⟨b, rest, rfl⟩ := List.exists_cons_of_ne_nil hne
    simp [hdigits b (by simp)]
  cases h with
  | whole hne hdigits =>
      rw [splitMantissa_digits hdigits]
      exact ⟨by simp [hany hne hdigits], (splitMantissa_suffix isDigit more).length_le⟩
  | pointed hne hdigits hfraction =>
      rw [List.append_assoc, List.cons_append, splitMantissa_digits hdigits,
        splitMantissa_point hpoint hfraction]
      exact ⟨by simp [hany hne hdigits], (List.dropWhile_suffix _).length_le⟩
  | fraction hne hfraction =>
      rw [List.cons_append, splitMantissa_point hpoint hfraction]
      exact ⟨by simp [hany hne hfraction], (List.dropWhile_suffix _).length_le⟩

/-- Where neither a digit nor a point follows, a mantissa is read as it stands. -/
theorem splitMantissa_of_stop (hpoint : isDigit 0x2e = false) {mantissa rest : Bytes}
    (h : IsMantissa isDigit mantissa)
    (hrest : ∀ b ∈ rest.head?, isDigit b = false ∧ b ≠ 0x2e) :
    splitMantissa isDigit (mantissa ++ rest) = (mantissa, rest) := by
  have hstop : splitMantissa isDigit rest = ([], rest) ∧ rest.takeWhile isDigit = [] ∧
      rest.dropWhile isDigit = rest := by
    cases rest with
    | nil => exact ⟨rfl, rfl, rfl⟩
    | cons b rest =>
        obtain ⟨hdigit, hne⟩ := hrest b rfl
        simp [splitMantissa, hdigit, hne]
  cases h with
  | whole hne hdigits => rw [splitMantissa_digits hdigits, hstop.1, List.append_nil]
  | pointed hne hdigits hfraction =>
      rw [List.append_assoc, List.cons_append, splitMantissa_digits hdigits,
        splitMantissa_point hpoint hfraction, hstop.2.1, hstop.2.2, List.append_nil]
  | fraction hne hfraction =>
      rw [List.cons_append, splitMantissa_point hpoint hfraction, hstop.2.1, hstop.2.2,
        List.append_nil]

end Mantissa

/-! ## Numbers -/

/-- A number of which the mantissa has the given digits and the exponent the given letter, where
`value` says what it denotes. -/
def scanNumber {α : Type} (isDigit : UInt8 → Bool) (mark : UInt8)
    (value : Bytes → Option (Bool × Bytes) → α) (text : Bytes) : Option (α × Bytes) :=
  if (splitMantissa isDigit text).1.any isDigit then
    match exponent? mark (splitMantissa isDigit text).2 with
    | none => some (value (splitMantissa isDigit text).1 none, (splitMantissa isDigit text).2)
    | some e =>
      some (value (splitMantissa isDigit text).1 (some (e.negative, e.digits)), e.rest)
  else none

structure Separates (isDigit : UInt8 → Bool) (mark : UInt8) : Prop where
  point : isDigit 0x2e = false
  mark : ∀ b, Byte.toLower b = mark → isDigit b = false ∧ b ≠ 0x2e

theorem Separates.head?_exponent {isDigit : UInt8 → Bool} {mark : UInt8}
    (h : Separates isDigit mark) {exponent : Bytes} (hexponent : IsExponent mark exponent)
    (more : Bytes) : ∀ b ∈ (exponent ++ more).head?, isDigit b = false ∧ b ≠ 0x2e := by
  obtain ⟨hletter, -, -, -⟩ := hexponent
  rintro b ⟨⟩
  exact h.mark _ hletter

theorem scanNumber_plain {α : Type} {isDigit : UInt8 → Bool} {mark : UInt8}
    (hsep : Separates isDigit mark) (value : Bytes → Option (Bool × Bytes) → α) {mantissa : Bytes}
    (hmantissa : IsMantissa isDigit mantissa) :
    scanNumber isDigit mark value mantissa = some (value mantissa none, []) := by
  have hend : ∀ b ∈ ([] : Bytes).head?, isDigit b = false ∧ b ≠ 0x2e := by simp
  have hsplit := splitMantissa_of_stop hsep.point hmantissa hend
  have hany := (splitMantissa_append hsep.point hmantissa []).1
  rw [hsplit] at hany
  rw [List.append_nil] at hsplit
  simp [scanNumber, hsplit, hany, exponent?]

theorem scanNumber_scaled {α : Type} {isDigit : UInt8 → Bool} {mark : UInt8}
    (hsep : Separates isDigit mark) (value : Bytes → Option (Bool × Bytes) → α)
    {mantissa sign digits : Bytes} {letter : UInt8} (hmantissa : IsMantissa isDigit mantissa)
    (hletter : Byte.toLower letter = mark) (hsign : IsSign sign) (hne : digits ≠ [])
    (hdigits : digits.AllDigits) :
    scanNumber isDigit mark value (mantissa ++ letter :: (sign ++ digits)) =
      some (value mantissa (some (sign == [0x2d], digits)), []) := by
  have hexponent : IsExponent mark (letter :: (sign ++ digits)) := .mk hletter hsign hne hdigits
  have hstop := hsep.head?_exponent hexponent []
  rw [List.append_nil] at hstop
  have hsplit := splitMantissa_of_stop hsep.point hmantissa hstop
  have hany := (splitMantissa_append hsep.point hmantissa (letter :: (sign ++ digits))).1
  rw [hsplit] at hany
  have hread := exponent?_of_digits hletter
    (splitSign_append hsign (noSignAhead_of_allDigits hdigits)) hne hdigits
  simp [scanNumber, hsplit, hany, hread]

theorem readsLongest_scanNumber {α : Type} {isDigit : UInt8 → Bool} {mark : UInt8}
    (hsep : Separates isDigit mark) (value : Bytes → Option (Bool × Bytes) → α) :
    ReadsLongest (scanNumber isDigit mark value) (IsNumber isDigit mark) where
  sound {text x rest} hscan := by
    have hjoin := splitMantissa_join isDigit text
    unfold scanNumber at hscan
    split at hscan
    next hany =>
      have hmantissa := isMantissa_splitMantissa hsep.point hany
      split at hscan
      next hnone =>
        cases hscan
        exact ⟨_, hjoin.symm, .plain hmantissa, scanNumber_plain hsep value hmantissa⟩
      next e hsome =>
        cases hscan
        obtain ⟨literal, hliteral, hexponent, hread⟩ := exponent?_sound hsome
        have hagain := splitMantissa_of_stop hsep.point hmantissa (hsep.head?_exponent hexponent [])
        rw [List.append_nil] at hagain
        refine ⟨(splitMantissa isDigit text).1 ++ literal, ?_, .scaled hmantissa hexponent, ?_⟩
        · rw [List.append_assoc, ← hliteral, hjoin]
        · simp [scanNumber, hagain, hany, hread]
    next => cases hscan
  complete {literal} hliteral more := by
    cases hliteral with
    | plain hmantissa =>
        obtain ⟨hany, hle⟩ := splitMantissa_append hsep.point hmantissa more
        unfold scanNumber
        rw [if_pos hany]
        split
        next => exact ⟨_, _, rfl, hle⟩
        next e hsome => exact ⟨_, _, rfl, (exponent?_rest_length hsome).trans hle⟩
    | @scaled mantissa exponent hmantissa hexponent =>
        -- the letter ends the mantissa, so that the exponent is read from where it begins
        have hsplit := splitMantissa_of_stop hsep.point hmantissa
          (hsep.head?_exponent hexponent more)
        have hany := (splitMantissa_append hsep.point hmantissa (exponent ++ more)).1
        obtain ⟨e, hread, hle⟩ := exponent?_complete hexponent more
        rw [hsplit] at hany
        refine ⟨value mantissa (some (e.negative, e.digits)), e.rest, ?_, hle⟩
        simp [scanNumber, List.append_assoc, hsplit, hany, hread]

end Literal

end Tagged
