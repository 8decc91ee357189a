import Tagged.Proofs.Decimal.Places
import Tagged.Proofs.FloatText

/-!
# The layout of a float's text

The text of a finite number is a decimal number of its own: digits before the point, digits behind
it, and an exponent. What it says is exactly the number of six digits that is nearest to the float,
and that number alone decides which layout is chosen and which zeros are written.
-/

namespace Tagged

namespace Decimal

open Literal (Numeral)

/-- A decimal number as it is written, but for the sign in front of it. The exponent is given by
its sign and its digits. -/
structure Layout where
  whole : Bytes
  fraction : Bytes
  exponent : Option (Bool × Bytes)

namespace Layout

def text (l : Layout) : Bytes :=
  l.whole ++ Numeral.pointPart l.fraction ++
    match l.exponent with
    | none => []
    | some (negative, digits) => 0x65 :: (if negative then 0x2d else 0x2b) :: digits

def scale (l : Layout) : Int :=
  match l.exponent with
  | none => 0
  | some (negative, digits) =>
    if negative then -(Bytes.digitsValue digits : Int) else Bytes.digitsValue digits

def value (l : Layout) : ℚ :=
  Bytes.digitsValue (l.whole ++ l.fraction) * 10 ^ (l.scale - l.fraction.length)

/-- The layout of six digits in general notation. An exponent has a sign and two digits at least,
and stands behind a single digit and its fraction. Without one all digits of the whole part are
written, zeros at its end too. A fraction never ends in a zero. -/
structure Writes (l : Layout) (s : Significant) : Prop where
  whole_ne_nil : l.whole ≠ []
  whole_digits : l.whole.AllDigits
  fraction_digits : l.fraction.AllDigits
  fraction_last : l.fraction.getLast? ≠ some 0x30
  value_eq : l.value = s.value
  exponent_iff : l.exponent.isSome = true ↔ s.exponent < -4 ∨ 6 ≤ s.exponent
  exponent_digits : ∀ {negative digits}, l.exponent = some (negative, digits) →
    2 ≤ digits.length ∧ digits.AllDigits
  scientific : l.exponent.isSome = true → l.scale = s.exponent ∧ l.whole.length = 1
  positional : l.exponent = none → l.whole = decimal ⌊s.value⌋₊

end Layout

theorem getLast?_trimZeros (digits : Bytes) : (trimZeros digits).getLast? ≠ some 0x30 := by
  rw [trimZeros, List.getLast?_reverse]
  intro h
  have hstop := List.head?_dropWhile_not (· == (0x30 : UInt8)) digits.reverse
  rw [h] at hstop
  cases hstop

theorem two_le_length_exponentDigits (e : Int) : 2 ≤ (exponentDigits e).length := by
  have hpos := List.length_pos_iff.2 (decimal_ne_nil e.natAbs)
  unfold exponentDigits
  split
  · rw [List.length_cons]
    omega
  · omega

namespace Parts

def layout (p : Parts) : Layout :=
  ⟨p.whole, trimZeros p.fraction, p.exponent.map fun e => (decide (e < 0), exponentDigits e)⟩

theorem text_layout (p : Parts) : p.layout.text = p.text := by
  rw [text, joinPoint_eq, Layout.text, layout]
  cases p.exponent with
  | none => rfl
  | some e => simp [exponentPart, exponentText_eq]

theorem scale_layout (p : Parts) : p.layout.scale = p.exponent.getD 0 := by
  rw [Layout.scale, layout]
  cases p.exponent with
  | none => rfl
  | some e =>
      simp only [Option.map_some, decide_eq_true_eq, digitsValue_exponentDigits, Option.getD_some]
      split <;> omega

theorem value_layout (p : Parts) : p.layout.value = p.value := by
  rw [Layout.value, scale_layout]
  exact digitsValue_trimZeros _ _ _

theorem numeral_eq_layout (p : Parts) :
    p.numeral = .decimal p.layout.whole p.layout.fraction p.layout.scale := by
  rw [scale_layout]
  rfl

end Parts

namespace Significant

variable {s : Significant}

theorem isSome_exponent_parts (s : Significant) :
    s.parts.exponent.isSome = true ↔ s.exponent < -4 ∨ 6 ≤ s.exponent := by
  unfold parts
  split
  next hscientific =>
    simp only [Bool.or_eq_true, decide_eq_true_eq] at hscientific
    simpa [precision] using hscientific
  next hpositional =>
    have hrange := exponent_range hpositional
    split <;> simp <;> omega

theorem IsSix.whole_of_scientific (h : s.IsSix) (hexponent : s.exponent < -4 ∨ 6 ≤ s.exponent) :
    s.parts.whole.length = 1 := by
  have hrange : (s.exponent < -4 || (precision : Int) ≤ s.exponent) = true := by
    simp only [Bool.or_eq_true, decide_eq_true_eq]
    exact hexponent
  rw [parts, if_pos hrange, List.length_take, length_text h.2]
  rfl

theorem IsSix.writes_layout (h : s.IsSix) : s.parts.layout.Writes s where
  whole_ne_nil := (parts_wellFormed h.2).whole_ne_nil
  whole_digits := (parts_wellFormed h.2).whole_digits
  fraction_digits := allDigits_trimZeros (parts_wellFormed h.2).fraction_digits
  fraction_last := getLast?_trimZeros _
  value_eq := by rw [Parts.value_layout, value_parts h.1 h.2]
  exponent_iff := by rw [Parts.layout, Option.isSome_map, isSome_exponent_parts]
  exponent_digits {negative digits} hexponent := by
    obtain ⟨e, -, heq⟩ := Option.map_eq_some_iff.1 hexponent
    cases heq
    exact ⟨two_le_length_exponentDigits e, allDigits_exponentDigits e⟩
  scientific hexponent := by
    rw [Parts.layout, Option.isSome_map] at hexponent
    refine ⟨?_, h.whole_of_scientific ((isSome_exponent_parts s).1 hexponent)⟩
    obtain ⟨e, he⟩ := Option.isSome_iff_exists.1 hexponent
    rw [Parts.scale_layout, he, Option.getD_some]
    exact parts_exponent he
  positional hexponent := by
    have hnone : ¬ s.parts.exponent.isSome = true := by
      rw [Parts.layout, Option.map_eq_none_iff] at hexponent
      simp [hexponent]
    rw [isSome_exponent_parts] at hnone
    rw [floor_value (by omega), Parts.layout, h.parts_of_positional (by omega) (by omega)]

end Significant

end Decimal

namespace Binary64

open Decimal

theorem head?_signed_text {p : Parts} (h : p.WellFormed) (negative : Bool) :
    (Literal.signed negative p.text).head? = some 0x2d ↔ negative = true := by
  obtain ⟨b, rest, htext, hb⟩ := Parts.exists_text_eq_cons h
  cases negative with
  | true => simp [Literal.signed]
  | false =>
      have hne : b ≠ 0x2d := by
        rintro rfl
        cases hb
      simp [Literal.signed, htext, hne]

theorem length_general_le {x : Binary64} (h : x.isFinite = true) : x.general.length ≤ 13 := by
  obtain ⟨hdigits, hexponent⟩ := significant_range h
  have hlength := Significant.length_general_le hdigits hexponent
  rw [general_of_isFinite h, ← Significant.general_eq_text]
  cases x.negative with
  | true => exact Nat.succ_le_succ hlength
  | false => exact Nat.le_succ_of_le hlength

theorem render_float (x : Binary64) : (Value.float x).render = x.general :=
  List.take_of_length_le x.general_spec.1

/-- Without its sign, the text of a finite number other than zero is a layout of the one number of
six digits that is nearest to it. The scanner of decimal literals reads the same layout, and where
it has no exponent, rounding the number once more, to the places that are left behind the point,
gives the same text. The sign is written exactly for a set sign bit, also before a zero. No text is
longer than 13 bytes, so none is cut when the value is rendered. -/
theorem general_writes_nearest (x : Binary64) (hfinite : x.isFinite = true) :
    ∃ unsigned, x.general = Literal.signed x.negative unsigned ∧
      (x.general.head? = some 0x2d ↔ x.negative = true) ∧
      (x.isZero = true → unsigned = ascii "0") ∧
      (x.isZero = false → ∃ (d : Significant) (l : Layout),
        (∀ s : Significant, s.IsNearest x.absValue ↔ s = d) ∧ l.Writes d ∧ unsigned = l.text ∧
        Literal.Numeral.scan? unsigned = some (.decimal l.whole l.fraction l.scale, []) ∧
        (l.exponent = none → unsigned =
          joinPoint (fixed x.units unit d.places).1 (fixed x.units unit d.places).2)) ∧
      x.general.length ≤ 13 ∧ (Value.float x).render = x.general := by
  obtain ⟨hdigits, hexponent⟩ := significant_range hfinite
  have hwellFormed := Significant.parts_wellFormed hdigits
  refine ⟨x.significant.parts.text, general_of_isFinite hfinite, ?_, ?_, ?_,
    length_general_le hfinite, render_float x⟩
  · rw [general_of_isFinite hfinite]
    exact head?_signed_text hwellFormed x.negative
  · intro hzero
    rw [significant_of_isZero hzero]
    decide +kernel
  · intro hzero
    have hpos := units_pos hzero
    have hsix : x.significant.IsSix := Significant.isSix_ofRatio hpos unit_pos
    have hwrites := hsix.writes_layout
    refine ⟨x.significant, x.significant.parts.layout, Significant.isNearest_iff hpos unit_pos,
      hwrites, x.significant.parts.text_layout.symm, ?_, ?_⟩
    · rw [← Parts.numeral_eq_layout]
      exact Parts.scan?_text hwellFormed (fun e he => Significant.parts_exponent he ▸ hexponent)
    · intro hnone
      have hrange : ¬(x.significant.exponent < -4 ∨ 6 ≤ x.significant.exponent) := by
        rw [← hwrites.exponent_iff, hnone]
        simp
      rw [not_or, not_lt, not_le] at hrange
      rw [← Significant.general_eq_text]
      exact positional_eq_fixed hpos unit_pos hrange.1 hrange.2

/-- The number `999999.5`: six digits run over, and the exponent of the result decides. -/
theorem general_writes_nearest_above :
    let x : Binary64 := ⟨false, 0x412e847f00000000, by decide⟩
    x.isFinite = true ∧ x.isZero = false ∧ x.general = ascii "1e+06" ∧
      ∃ (d : Significant) (l : Layout),
        (∀ s : Significant, s.IsNearest x.absValue ↔ s = d) ∧ l.Writes d ∧ x.general = l.text := by
  intro x
  have hfinite : x.isFinite = true := by decide
  have hzero : x.isZero = false := by decide
  obtain ⟨unsigned, hsigned, -, -, hnearest, -⟩ := general_writes_nearest x hfinite
  obtain ⟨d, l, hd, hl, htext, -⟩ := hnearest hzero
  exact ⟨hfinite, hzero, by decide +kernel, d, l, hd, hl, hsigned.trans htext⟩

end Binary64

end Tagged
