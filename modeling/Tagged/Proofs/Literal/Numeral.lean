import Mathlib.Data.FinEnum
import Tagged.Proofs.Literal.Number

/-!
# Decimal literals and words

The scanner of decimal literals and words reads the longest of them. Its decimal part is a case
of `scanNumber`.
-/

namespace Tagged.Literal

/-! ## Decimal numbers -/

theorem separates_isDigit : Separates Byte.isDigit 0x65 where
  point := rfl
  mark b hb := by
    refine ⟨Byte.isDigit_eq_false_of_toLower hb rfl, ?_⟩
    rintro rfl
    cases hb

namespace Numeral

def ofParts (mantissa : Bytes) (exponent : Option (Bool × Bytes)) : Numeral :=
  .decimal (mantissa.takeWhile Byte.isDigit) (fraction (mantissa.dropWhile Byte.isDigit)).1
    (match exponent with
      | none => 0
      | some (negative, digits) =>
        if negative then -(exponentSize digits : Int) else exponentSize digits)

theorem fraction_cons_of_ne {b : UInt8} (hb : b ≠ 0x2e) (text : Bytes) :
    fraction (b :: text) = ([], b :: text) := by
  unfold fraction
  split
  next heq => exact absurd (List.cons.inj heq).1 hb
  next => rfl

theorem split_eq_splitMantissa (text : Bytes) :
    text.takeWhile Byte.isDigit = (splitMantissa Byte.isDigit text).1.takeWhile Byte.isDigit ∧
      fraction (text.dropWhile Byte.isDigit) =
        ((fraction ((splitMantissa Byte.isDigit text).1.dropWhile Byte.isDigit)).1,
          (splitMantissa Byte.isDigit text).2) := by
  induction text with
  | nil => exact ⟨rfl, rfl⟩
  | cons b text ih =>
      rw [splitMantissa]
      by_cases hb : Byte.isDigit b = true
      · simpa [hb] using ih
      · by_cases hpoint : b = 0x2e
        · subst hpoint
          simp [hb, fraction, List.takeWhile_idem]
        · simp [hb, hpoint, fraction]

theorem isEmpty_eq_not_any (text : Bytes) :
    ((text.takeWhile Byte.isDigit).isEmpty &&
      (fraction (text.dropWhile Byte.isDigit)).1.isEmpty) =
        !(splitMantissa Byte.isDigit text).1.any Byte.isDigit := by
  induction text with
  | nil => rfl
  | cons b text ih =>
      rw [splitMantissa]
      by_cases hb : Byte.isDigit b = true
      · simp [hb]
      · by_cases hpoint : b = 0x2e
        · subst hpoint
          cases text with
          | nil => rfl
          | cons c text => by_cases hc : Byte.isDigit c = true <;> simp [hb, hc, fraction]
        · simp [hb, hpoint, fraction_cons_of_ne hpoint]

theorem decimal?_eq_scanNumber (text : Bytes) :
    decimal? text = scanNumber Byte.isDigit 0x65 ofParts text := by
  obtain ⟨hwhole, hfraction⟩ := split_eq_splitMantissa text
  have hempty := isEmpty_eq_not_any text
  unfold decimal? scanNumber
  dsimp only
  rw [hempty, hfraction, hwhole]
  cases hany : (splitMantissa Byte.isDigit text).1.any Byte.isDigit with
  | false => rfl
  | true =>
      simp only [Bool.not_true, Bool.false_eq_true, if_false, if_true]
      cases exponent? 0x65 (splitMantissa Byte.isDigit text).2 <;> rfl

theorem readsLongest_decimal? : ReadsLongest decimal? IsDecimal := by
  rw [show decimal? = scanNumber Byte.isDigit 0x65 ofParts from funext decimal?_eq_scanNumber]
  exact readsLongest_scanNumber separates_isDigit ofParts

end Numeral

/-! ## Words -/

theorem startsWithWord_append (word literal more : Bytes) :
    Bytes.startsWithWord word (literal ++ more) =
      ((literal.map Byte.toLower ++ more.map Byte.toLower).take word.length == word) := by
  rw [Bytes.startsWithWord, List.map_take, List.map_append]

theorem exists_literal_of_startsWithWord {word text : Bytes}
    (h : Bytes.startsWithWord word text = true) :
    ∃ literal, text = literal ++ text.drop word.length ∧ literal.map Byte.toLower = word :=
  ⟨text.take word.length, (List.take_append_drop _ _).symm, beq_iff_eq.1 h⟩

theorem drop_append_of_map_eq {literal word : Bytes} (h : literal.map Byte.toLower = word)
    (more : Bytes) : (literal ++ more).drop word.length = more := by
  rw [← h, List.length_map, List.drop_left]

namespace Numeral

theorem word?_infinity {literal : Bytes} (h : literal.map Byte.toLower = ascii "infinity")
    (more : Bytes) : word? (literal ++ more) = some (.infinity, more) := by
  have hstarts : Bytes.startsWithWord (ascii "infinity") (literal ++ more) = true := by
    rw [startsWithWord_append, h]
    rfl
  rw [word?, if_pos hstarts]
  exact congrArg (fun rest => some (infinity, rest)) (drop_append_of_map_eq h more)

theorem word?_inf {literal : Bytes} (h : literal.map Byte.toLower = ascii "inf") {more : Bytes}
    (hmore : Bytes.startsWithWord (ascii "infinity") (literal ++ more) = false) :
    word? (literal ++ more) = some (.infinity, more) := by
  have hstarts : Bytes.startsWithWord (ascii "inf") (literal ++ more) = true := by
    rw [startsWithWord_append, h]
    rfl
  rw [word?, if_neg (by simp [hmore]), if_pos hstarts]
  exact congrArg (fun rest => some (infinity, rest)) (drop_append_of_map_eq h more)

theorem word?_nan {literal : Bytes} (h : literal.map Byte.toLower = ascii "nan")
    (more : Bytes) : word? (literal ++ more) = some (.nan, more) := by
  have hstarts : Bytes.startsWithWord (ascii "infinity") (literal ++ more) = false ∧
      Bytes.startsWithWord (ascii "inf") (literal ++ more) = false ∧
      Bytes.startsWithWord (ascii "nan") (literal ++ more) = true := by
    simp only [startsWithWord_append, h]
    exact ⟨rfl, rfl, rfl⟩
  rw [word?, if_neg (by simp [hstarts.1]), if_neg (by simp [hstarts.2.1]), if_pos hstarts.2.2]
  exact congrArg (fun rest => some (nan, rest)) (drop_append_of_map_eq h more)

theorem readsLongest_word? : ReadsLongest word? IsWord where
  sound {text x rest} hscan := by
    unfold word? at hscan
    split at hscan
    next hstarts =>
      cases hscan
      obtain ⟨literal, htext, hword⟩ := exists_literal_of_startsWithWord hstarts
      have hagain := word?_infinity hword []
      rw [List.append_nil] at hagain
      exact ⟨literal, htext, .inr (.inl hword), hagain⟩
    next =>
      split at hscan
      next hstarts =>
        cases hscan
        obtain ⟨literal, htext, hword⟩ := exists_literal_of_startsWithWord hstarts
        have hshort : Bytes.startsWithWord (ascii "infinity") (literal ++ []) = false := by
          rw [startsWithWord_append, hword]
          rfl
        have hagain := word?_inf hword hshort
        rw [List.append_nil] at hagain
        exact ⟨literal, htext, .inl hword, hagain⟩
      next =>
        split at hscan
        next hstarts =>
          cases hscan
          obtain ⟨literal, htext, hword⟩ := exists_literal_of_startsWithWord hstarts
          have hagain := word?_nan hword []
          rw [List.append_nil] at hagain
          exact ⟨literal, htext, .inr (.inr hword), hagain⟩
        next => cases hscan
  complete {literal} hliteral more := by
    rcases hliteral with h | h | h
    · cases hstarts : Bytes.startsWithWord (ascii "infinity") (literal ++ more) with
      | false => exact ⟨_, _, word?_inf h hstarts, le_rfl⟩
      | true =>
          -- the word goes on to be the longer one
          have hlength := congrArg List.length h
          rw [List.length_map, show (ascii "inf").length = 3 from rfl] at hlength
          refine ⟨.infinity, (literal ++ more).drop 8, ?_, ?_⟩
          · rw [word?, if_pos hstarts]
          · rw [List.length_drop, List.length_append]
            omega
    · exact ⟨_, _, word?_infinity h more, le_rfl⟩
    · exact ⟨_, _, word?_nan h more, le_rfl⟩

end Numeral

theorem toLower_ne_of_decimal : ∀ b : UInt8, Byte.isDigit b = true ∨ b = 0x2e →
    Byte.toLower b ≠ 0x69 ∧ Byte.toLower b ≠ 0x6e := by
  decide +kernel

theorem Numeral.scan?_eq_or (text : Bytes) :
    Numeral.scan? text = (Numeral.word? text).or (Numeral.decimal? text) := by
  rw [Numeral.scan?]
  cases Numeral.word? text <;> rfl

theorem Numeral.readsLongest_scan? :
    ReadsLongest Numeral.scan? (fun text => IsWord text ∨ IsDecimal text) := by
  rw [funext Numeral.scan?_eq_or]
  apply Numeral.readsLongest_word?.or Numeral.readsLongest_decimal?
  intro text x y rest behind hword hdecimal
  obtain ⟨word, htext, hisWord, -⟩ := Numeral.readsLongest_word?.sound hword
  obtain ⟨decimal, htext', hisDecimal, -⟩ := Numeral.readsLongest_decimal?.sound hdecimal
  obtain ⟨b, _, rfl, hb⟩ := hisWord.exists_cons
  obtain ⟨c, _, rfl, hc⟩ := hisDecimal.exists_cons
  have hbc : b = c := (List.cons.inj (htext.symm.trans htext')).1
  have hne := toLower_ne_of_decimal c hc
  rw [hbc] at hb
  rcases hb with hb | hb
  · exact absurd hb hne.1
  · exact absurd hb hne.2

end Tagged.Literal
