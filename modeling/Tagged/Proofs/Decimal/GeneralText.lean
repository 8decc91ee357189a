import Tagged.Proofs.Decimal.Significant
import Tagged.Proofs.Literal.Scan

/-!
# General notation and its reading

A number in general notation is put together from digits before and behind the point and an
exponent. Read as a literal, the text gives these parts back, and with them the exact number
of six digits that it was written for.
-/

namespace Tagged.Decimal

open Literal (Numeral)

/-! ## Fractions without trailing zeros -/

theorem exists_eq_trimZeros_append (digits : Bytes) :
    ∃ count, digits = trimZeros digits ++ List.replicate count 0x30 := by
  have hzeros : ∀ b ∈ digits.reverse.takeWhile (· == 0x30), b = 0x30 := by
    intro b hb
    simpa using List.mem_takeWhile_imp hb
  refine ⟨(digits.reverse.takeWhile (· == 0x30)).length, ?_⟩
  have hsplit := List.takeWhile_append_dropWhile (p := (· == (0x30 : UInt8))) (l := digits.reverse)
  rw [List.eq_replicate_of_mem hzeros] at hsplit
  have hreverse := congrArg List.reverse hsplit
  rw [List.reverse_reverse, List.reverse_append, List.reverse_replicate] at hreverse
  exact hreverse.symm

theorem allDigits_trimZeros {digits : Bytes} (h : digits.AllDigits) :
    (trimZeros digits).AllDigits := by
  obtain ⟨count, hcount⟩ := exists_eq_trimZeros_append digits
  intro b hb
  apply h
  rw [hcount]
  exact List.mem_append_left _ hb

theorem joinPoint_eq (whole fraction : Bytes) :
    joinPoint whole fraction = whole ++ Numeral.pointPart (trimZeros fraction) := by
  unfold joinPoint
  cases trimZeros fraction with
  | nil => simp [Numeral.pointPart]
  | cons digit digits => simp [Numeral.pointPart]

theorem digitsValue_trimZeros (whole fraction : Bytes) (e : Int) :
    (Bytes.digitsValue (whole ++ trimZeros fraction) : ℚ) * 10 ^ (e - (trimZeros fraction).length) =
      Bytes.digitsValue (whole ++ fraction) * 10 ^ (e - fraction.length) := by
  obtain ⟨count, hcount⟩ := exists_eq_trimZeros_append fraction
  generalize trimZeros fraction = digits at *
  subst hcount
  have hpow := ten_zpow_add_nat (e - (digits.length + count)) count
  rw [show e - (digits.length + count) + (count : Int) = e - digits.length by ring] at hpow
  rw [← List.append_assoc, Bytes.digitsValue_append (whole ++ digits),
    Bytes.digitsValue_replicate_zero, List.length_append, List.length_replicate, hpow]
  push_cast
  ring

/-! ## Exponents -/

def exponentDigits (e : Int) : Bytes :=
  if (decimal e.natAbs).length < 2 then 0x30 :: decimal e.natAbs else decimal e.natAbs

theorem exponentText_eq (e : Int) :
    exponentText e = (if e < 0 then 0x2d else 0x2b) :: exponentDigits e := rfl

theorem allDigits_exponentDigits (e : Int) : (exponentDigits e).AllDigits := by
  have hdecimal := allDigits_decimal e.natAbs
  unfold exponentDigits
  split
  · intro b hb
    rcases List.mem_cons.1 hb with rfl | hb
    · rfl
    · exact hdecimal b hb
  · exact hdecimal

theorem exponentDigits_ne_nil (e : Int) : exponentDigits e ≠ [] := by
  unfold exponentDigits
  split
  · simp
  · exact decimal_ne_nil _

theorem digitsValue_exponentDigits (e : Int) : (exponentDigits e).digitsValue = e.natAbs := by
  unfold exponentDigits
  split
  · rw [show 0x30 :: decimal e.natAbs = [0x30] ++ decimal e.natAbs from rfl,
      Bytes.digitsValue_append, digitsValue_decimal, Bytes.digitsValue_singleton]
    simp [Byte.digit]
  · exact digitsValue_decimal _

theorem length_exponentDigits {e : Int} (he : e.natAbs < 1000) :
    (exponentDigits e).length ≤ 3 := by
  have hlength : (decimal e.natAbs).length ≤ 3 :=
    (length_decimal_le_iff (by omega)).2 (by omega)
  unfold exponentDigits
  split
  · rw [List.length_cons]
    omega
  · exact hlength

theorem exponent?_exponentText (e : Int) :
    Literal.exponent? 0x65 (0x65 :: exponentText e) =
      some ⟨decide (e < 0), exponentDigits e, []⟩ := by
  apply Literal.exponent?_of_digits rfl _ (exponentDigits_ne_nil e) (allDigits_exponentDigits e)
  rw [exponentText_eq]
  by_cases he : e < 0 <;> simp [he, Bytes.splitSign]

def exponentPart : Option Int → Bytes
  | none => []
  | some e => 0x65 :: exponentText e

theorem ends_exponentPart (e : Option Int) : Numeral.Ends (exponentPart e) := by
  cases e with
  | none => exact ⟨by simp [exponentPart, Bytes.NoDigitAhead], by simp [exponentPart]⟩
  | some e =>
      refine ⟨?_, by simp [exponentPart]⟩
      intro b hb
      cases hb
      rfl

/-! ## The parts of a number -/

def isLiteralByte (b : UInt8) : Bool :=
  Byte.isDigit b || b == 0x2e || b == 0x2b || b == 0x2d || b == 0x65

theorem ne_of_isLiteralByte {b : UInt8} (h : isLiteralByte b = true) :
    b ≠ 0 ∧ Byte.toLower b ≠ 0x78 := by
  simp only [isLiteralByte, Bool.or_eq_true, beq_iff_eq] at h
  obtain (((hdigit | rfl) | rfl) | rfl) | rfl := h
  · have hbounds := (Byte.isDigit_iff b).1 hdigit
    rw [Byte.toLower_of_isDigit hdigit]
    constructor <;> (rintro rfl; simp at hbounds)
  all_goals decide

structure Parts where
  whole : Bytes
  fraction : Bytes
  exponent : Option Int

namespace Parts

def text (p : Parts) : Bytes := joinPoint p.whole p.fraction ++ exponentPart p.exponent

def value (p : Parts) : ℚ :=
  Bytes.digitsValue (p.whole ++ p.fraction) * 10 ^ (p.exponent.getD 0 - p.fraction.length)

structure WellFormed (p : Parts) : Prop where
  whole_ne_nil : p.whole ≠ []
  whole_digits : p.whole.AllDigits
  fraction_digits : p.fraction.AllDigits

def numeral (p : Parts) : Numeral :=
  .decimal p.whole (trimZeros p.fraction) (p.exponent.getD 0)

/-- The text of the parts is read whole, and as the parts. -/
theorem decimal?_text {p : Parts} (h : p.WellFormed)
    (hexponent : ∀ e ∈ p.exponent, e.natAbs < 1000) :
    Numeral.decimal? p.text = some (p.numeral, []) := by
  rw [text, joinPoint_eq, Numeral.decimal?_of_parts h.whole_ne_nil h.whole_digits
    (allDigits_trimZeros h.fraction_digits) (ends_exponentPart _), numeral]
  cases he : p.exponent with
  | none => rfl
  | some e =>
      have hsmall := hexponent e he
      have hsize : Literal.exponentSize (exponentDigits e) = e.natAbs := by
        rw [Literal.exponentSize_eq] <;> rw [digitsValue_exponentDigits]
        omega
      rw [exponentPart, exponent?_exponentText]
      simp only [hsize, decide_eq_true_eq, Option.getD_some]
      congr 3
      split <;> omega

theorem length_text_le {p : Parts} (hexponent : ∀ e ∈ p.exponent, e.natAbs < 1000) :
    p.text.length ≤
      p.whole.length + 1 + p.fraction.length + if p.exponent.isSome then 5 else 0 := by
  have hpoint : (Numeral.pointPart (trimZeros p.fraction)).length ≤ 1 + p.fraction.length := by
    obtain ⟨count, hcount⟩ := exists_eq_trimZeros_append p.fraction
    have hlength := congrArg List.length hcount
    rw [List.length_append] at hlength
    cases hdigits : trimZeros p.fraction with
    | nil => simp [Numeral.pointPart]
    | cons digit digits =>
        rw [hdigits] at hlength
        simp only [Numeral.pointPart, List.length_cons] at hlength ⊢
        omega
  have hpart : (exponentPart p.exponent).length ≤ if p.exponent.isSome then 5 else 0 := by
    cases he : p.exponent with
    | none => simp [exponentPart]
    | some e =>
        have hdigits := length_exponentDigits (hexponent e he)
        simp only [exponentPart, exponentText_eq, List.length_cons, Option.isSome_some, if_true]
        omega
  rw [text, joinPoint_eq, List.length_append, List.length_append]
  omega

theorem isLiteralByte_of_mem_text {p : Parts} (h : p.WellFormed) :
    ∀ b ∈ p.text, isLiteralByte b = true := by
  have hdigit : ∀ b, Byte.isDigit b = true → isLiteralByte b = true := by
    intro b hb
    simp [isLiteralByte, hb]
  have hpoint : ∀ b ∈ Numeral.pointPart (trimZeros p.fraction), isLiteralByte b = true := by
    have htrimmed := allDigits_trimZeros h.fraction_digits
    intro b hb
    cases hdigits : trimZeros p.fraction with
    | nil => simp [hdigits, Numeral.pointPart] at hb
    | cons digit digits =>
        rw [hdigits] at hb htrimmed
        rcases List.mem_cons.1 hb with rfl | hb
        · rfl
        · exact hdigit b (htrimmed b hb)
  have hpart : ∀ b ∈ exponentPart p.exponent, isLiteralByte b = true := by
    intro b hb
    cases he : p.exponent with
    | none => simp [he, exponentPart] at hb
    | some e =>
        rw [he, exponentPart, exponentText_eq] at hb
        rcases List.mem_cons.1 hb with rfl | hb
        · rfl
        · rcases List.mem_cons.1 hb with rfl | hb
          · split <;> rfl
          · exact hdigit b (allDigits_exponentDigits e b hb)
  intro b hb
  rw [text, joinPoint_eq, List.mem_append, List.mem_append] at hb
  rcases hb with (hb | hb) | hb
  · exact hdigit b (h.whole_digits b hb)
  · exact hpoint b hb
  · exact hpart b hb

theorem exists_text_eq_cons {p : Parts} (h : p.WellFormed) :
    ∃ b rest, p.text = b :: rest ∧ Byte.isDigit b = true := by
  obtain ⟨b, rest, hwhole⟩ := List.exists_cons_of_ne_nil h.whole_ne_nil
  refine ⟨b, rest ++ Numeral.pointPart (trimZeros p.fraction) ++ exponentPart p.exponent, ?_, ?_⟩
  · rw [text, joinPoint_eq, hwhole, List.cons_append, List.cons_append]
  · exact h.whole_digits b (by rw [hwhole]; simp)

theorem scan?_text {p : Parts} (h : p.WellFormed)
    (hexponent : ∀ e ∈ p.exponent, e.natAbs < 1000) :
    Numeral.scan? p.text = some (p.numeral, []) := by
  obtain ⟨b, rest, htext, hb⟩ := exists_text_eq_cons h
  rw [Numeral.scan?, ← decimal?_text h hexponent, htext, Numeral.word?_of_isDigit hb]

theorem float?_signed_text {p : Parts} (h : p.WellFormed)
    (hexponent : ∀ e ∈ p.exponent, e.natAbs < 1000) (negative : Bool) :
    Literal.float? (Literal.signed negative p.text) = some (p.numeral.value negative, []) := by
  obtain ⟨b, rest, htext, hb⟩ := exists_text_eq_cons h
  have hhex : Literal.markedHexadecimal? p.text = none :=
    Literal.markedHexadecimal?_eq_none
      (fun c hc => (ne_of_isLiteralByte (isLiteralByte_of_mem_text h c hc)).2)
  have hscan := scan?_text h hexponent
  have hsign : Bytes.splitSign (Literal.signed negative p.text) = (negative, p.text) := by
    rw [htext, Literal.splitSign_signed hb]
  simp only [Literal.float?, hsign, hhex, hscan, Option.map_some]

theorem value_numeral (p : Parts) (negative : Bool) :
    ∃ significand exponent, p.numeral.value negative = .ofDecimal negative significand exponent ∧
      (significand : ℚ) * 10 ^ exponent = p.value := by
  exact ⟨_, _, rfl, digitsValue_trimZeros _ _ _⟩

end Parts

namespace Significant

def parts (s : Significant) : Parts :=
  if s.exponent < -4 || precision ≤ s.exponent then
    ⟨s.text.take 1, s.text.drop 1, some s.exponent⟩
  else if s.exponent < 0 then
    ⟨[0x30], List.replicate (s.exponent.natAbs - 1) 0x30 ++ s.text, none⟩
  else
    ⟨s.text.take (s.exponent.toNat + 1), s.text.drop (s.exponent.toNat + 1), none⟩

theorem general_eq_text (s : Significant) : general s = s.parts.text := by
  unfold general parts
  split
  · rfl
  · rw [positional]
    split
    · rw [Parts.text, exponentPart, List.append_nil]
    · rw [Parts.text, exponentPart, List.append_nil]

theorem length_text {s : Significant} (hhigh : s.digits < 10 ^ 6) : s.text.length = 6 := by
  have hlength : (decimal s.digits).length ≤ 6 := (length_decimal_le_iff (by omega)).2 hhigh
  simp only [text, precision, List.length_append, List.length_replicate]
  omega

theorem allDigits_text (s : Significant) : s.text.AllDigits := by
  intro b hb
  rcases List.mem_append.1 hb with hb | hb
  · exact allDigits_decimal _ b hb
  · rw [List.eq_of_mem_replicate hb]
    rfl

theorem digitsValue_text {s : Significant} (hlow : 10 ^ 5 ≤ s.digits)
    (hhigh : s.digits < 10 ^ 6) : s.text.digitsValue = s.digits := by
  have hlength : (decimal s.digits).length = 6 := length_decimal_eq hlow hhigh
  rw [text, hlength]
  simp [precision, digitsValue_decimal]

theorem parts_wellFormed {s : Significant} (hhigh : s.digits < 10 ^ 6) :
    s.parts.WellFormed := by
  have hdigits := s.allDigits_text
  have hlength := length_text hhigh
  have htake : ∀ count, Bytes.AllDigits (s.text.take count) :=
    fun count b hb => hdigits b (List.mem_of_mem_take hb)
  have hdrop : ∀ count, Bytes.AllDigits (s.text.drop count) :=
    fun count b hb => hdigits b (List.mem_of_mem_drop hb)
  have hne : ∀ count, s.text.take (count + 1) ≠ [] := by
    intro count h
    have := congrArg List.length h
    rw [List.length_take, List.length_nil] at this
    omega
  unfold parts
  split
  · exact ⟨hne 0, htake 1, hdrop 1⟩
  · split
    · refine ⟨by simp, ?_, ?_⟩
      · intro b hb
        rw [List.mem_singleton.1 hb]
        rfl
      · intro b hb
        rcases List.mem_append.1 hb with hb | hb
        · rw [List.eq_of_mem_replicate hb]
          rfl
        · exact hdigits b hb
    · exact ⟨hne _, htake _, hdrop _⟩

theorem parts_exponent {s : Significant} {e : Int} (he : e ∈ s.parts.exponent) :
    e = s.exponent := by
  unfold parts at he
  split at he
  · exact (Option.some.inj he).symm
  · split at he <;> cases he

theorem exponent_range {s : Significant}
    (h : ¬(s.exponent < -4 || (precision : Int) ≤ s.exponent) = true) :
    -4 ≤ s.exponent ∧ s.exponent < 6 := by
  simp only [Bool.or_eq_true, decide_eq_true_eq] at h
  unfold precision at h
  omega

theorem value_parts {s : Significant} (hlow : 10 ^ 5 ≤ s.digits) (hhigh : s.digits < 10 ^ 6) :
    s.parts.value = s.value := by
  have hlength := length_text hhigh
  have hvalue := digitsValue_text hlow hhigh
  unfold parts
  split
  next hscientific =>
    simp only [Parts.value, value, List.take_append_drop, hvalue, List.length_drop, hlength,
      Option.getD_some]
    norm_num
  next hpositional =>
    have hrange := exponent_range hpositional
    split
    next hneg =>
      have hzeros : Bytes.digitsValue
          ([0x30] ++ (List.replicate (s.exponent.natAbs - 1) 0x30 ++ s.text)) = s.digits := by
        rw [Bytes.digitsValue_append, Bytes.digitsValue_append,
          Bytes.digitsValue_replicate_zero, hvalue, Bytes.digitsValue_singleton]
        simp [Byte.digit]
      simp only [Parts.value, value, hzeros, List.length_append, List.length_replicate, hlength,
        Option.getD_none]
      congr 2
      omega
    next hpos =>
      simp only [Parts.value, value, List.take_append_drop, hvalue, List.length_drop, hlength,
        Option.getD_none]
      congr 2
      omega

theorem length_general_le {s : Significant} (hhigh : s.digits < 10 ^ 6)
    (hexponent : s.exponent.natAbs < 1000) : (general s).length ≤ 12 := by
  have hlength := length_text hhigh
  have htext := Parts.length_text_le (p := s.parts)
    (fun e he => parts_exponent he ▸ hexponent)
  rw [general_eq_text]
  refine htext.trans ?_
  unfold parts
  split
  · simp only [List.length_take, List.length_drop, hlength, Option.isSome_some, if_true]
    omega
  next hpositional =>
    have hrange := exponent_range hpositional
    split
    · simp only [List.length_singleton, List.length_append, List.length_replicate, hlength,
        Option.isSome_none, Bool.false_eq_true, if_false]
      omega
    · simp only [List.length_take, List.length_drop, hlength, Option.isSome_none,
        Bool.false_eq_true, if_false]
      omega

end Significant

end Tagged.Decimal
