import Tagged.Proofs.Literal.Faithful

/-!
# The loop over hexadecimal digits stays within words

All that the loop over the digits computes, turn by turn, fits into words of 64 bits, as does the
exponent that is combined from the digits and the written one. When the loop stops, the significand
and the exponent give what was read, rounded down to the digits that were taken in.
-/

namespace Tagged.Literal

open Binary64

namespace HexDigits

/-! ## The digits -/

/-- The significand and the exponent fit into words of 64 bits, without a sign and with one, and
so does what a turn of the loop computes from them. -/
structure FitsWords (h : HexDigits) : Prop where
  significand_lt : h.significand < 2 ^ 63
  appended_lt : h.significand < limit → ∀ digit < 16, h.significand * 16 + digit < 2 ^ 64
  le_exponent : -2 ^ 63 ≤ h.exponent - 4
  exponent_lt : h.exponent + 4 < 2 ^ 63

/-- The significand, scaled, is what is denoted, rounded down. Nothing is lost unless digits were
dropped, and then the significand has 60 bits at least. -/
structure Brackets (h : HexDigits) (dropped : Nat) (q : ℚ) : Prop where
  le : h.significand * 2 ^ h.exponent ≤ q
  lt : q < (h.significand + 1) * 2 ^ h.exponent
  eq_of_none : dropped = 0 → q = h.significand * 2 ^ h.exponent
  two_pow_le : dropped ≠ 0 → 2 ^ 59 ≤ h.significand

namespace Reached

variable {text front rest : Bytes} {dropped : Nat} {h : HexDigits}

theorem fitsWords (hr : Reached text front dropped h rest) (hlength : text.length < 2 ^ 58) :
    h.FitsWords := by
  obtain ⟨hlow, hhigh⟩ := hr.exponent_bounds
  refine ⟨hr.reads.1.significand_lt, fun hroom digit hdigit => ?_, by omega, by omega⟩
  unfold limit at hroom
  omega

theorem brackets (hr : Reached text front dropped h rest) :
    h.Brackets dropped (mantissaValue front) := by
  have hreads := hr.reads.1
  obtain ⟨hle, hlt, -⟩ := hreads.brackets
  rw [mantissaValue_eq]
  refine ⟨hle, hlt, ?_, hreads.limit_le⟩
  rintro rfl
  exact hreads.value_eq

end Reached

end HexDigits

/-! ## The exponent -/

def binaryExponent? (text : Bytes) : Option (Bool × Bytes) :=
  (exponent? 0x70 text).map fun e => (e.negative, e.digits)

theorem hexadecimal?_fst (text : Bytes) :
    (hexadecimal? text).map Prod.fst =
      if (HexDigits.scan {} text).1.anyDigit then
        some (scale (ofInt (HexDigits.scan {} text).1.significand) (boundExponent
          ((HexDigits.scan {} text).1.total (binaryExponent? (HexDigits.scan {} text).2))))
      else none := by
  unfold hexadecimal? binaryExponent?
  rcases HexDigits.scan {} text with ⟨h, rest⟩
  cases hany : h.anyDigit with
  | false => simp [hany]
  | true => cases hexponent : exponent? 0x70 rest <;> simp [hany, hexponent, HexDigits.total]

theorem binaryExponentSize_bounds (digits : Bytes) :
    0 ≤ binaryExponentSize digits ∧ binaryExponentSize digits < 2 ^ 63 := by
  rw [binaryExponentSize_eq]
  unfold clampInt64
  omega

namespace HexDigits

theorem total_bounds {h : HexDigits} (hfits : h.FitsWords) (written : Option (Bool × Bytes)) :
    -2 ^ 63 ≤ h.total written ∧ h.total written < 2 ^ 63 := by
  cases written with
  | none =>
      have hlow := hfits.le_exponent
      have hhigh := hfits.exponent_lt
      dsimp only [total]
      omega
  | some found =>
      obtain ⟨negative, digits⟩ := found
      dsimp only [total]
      unfold clampInt64
      omega

/-- On a text that is not too long, every state of the loop fits into words of 64 bits, also in the
course of the next turn, and brackets what was read so far; the loop ends in one of these states.
The written exponent and its sum with that of the digits fit as well. The bound that is put on the
sum does not change the number, unless the significand is zero: it is the significand times the
power of two that was really written, rounded. Where the sum would not be wrapped, scaling by the sum
itself gives the same. -/
theorem digit_loop_brackets_value (text : Bytes) (hlength : text.length < 2 ^ 58) :
    (∀ front dropped h rest, Reached text front dropped h rest →
      h.FitsWords ∧ h.Brackets dropped (mantissaValue front) ∧ h.scan rest = scan {} text) ∧
    (∃ front dropped, Reached text front dropped (scan {} text).1 (scan {} text).2) ∧
    (∀ digits, 0 ≤ binaryExponentSize digits ∧ binaryExponentSize digits < 2 ^ 63) ∧
    ∀ h rest written, scan {} text = (h, rest) → binaryExponent? rest = written →
      (-2 ^ 63 ≤ h.total written ∧ h.total written < 2 ^ 63) ∧
      (hexadecimal? text).map Prod.fst =
        (if h.anyDigit then some (scale (ofInt h.significand) (boundExponent (h.total written)))
        else none) ∧
      (h.significand ≠ 0 →
        IsRounded false
          ((ofInt h.significand).absValue * 2 ^ (h.exponent + writtenExponent written))
          (scale (ofInt h.significand) (boundExponent (h.total written))) ∧
        (FitsInt32 (h.total written) →
          scale (ofInt h.significand) (boundExponent (h.total written)) =
            scale (ofInt h.significand) (h.total written))) := by
  have hend := (@Reached.start text).exists_end
  refine ⟨fun front dropped h rest hr => ⟨hr.fitsWords hlength, hr.brackets, hr.scan_eq⟩, hend,
    binaryExponentSize_bounds, ?_⟩
  rintro h rest written hscan rfl
  rw [hscan] at hend
  obtain ⟨front, dropped, hr⟩ := hend
  dsimp only at hr
  refine ⟨total_bounds (hr.fitsWords hlength) _, ?_, fun hne => ?_⟩
  · rw [hexadecimal?_fst, hscan]
  · have hpos := Nat.pos_of_ne_zero hne
    have hlt := hr.reads.1.significand_lt
    obtain ⟨hlow, hhigh⟩ := hr.exponent_bounds
    constructor
    · rw [boundExponent_total_eq (by omega) (by omega)]
      exact isRounded_scale_boundExponent hpos hlt _
    · intro hfits
      exact (isRounded_scale_boundExponent hpos hlt _).unique
        (isRounded_scale_ofInt hpos hlt hfits)

/-- A zero in front adds nothing. Two digits find no room, one before the point and one behind it,
and only the first of them moves the exponent. -/
theorem digit_loop_brackets_dropped_digits :
    let text := ascii "0123456789abcdef01.8p5"
    let front := ascii "0123456789abcdef01.8"
    let h : HexDigits := ⟨0x123456789abcdef0, 4, true, true⟩
    text.length < 2 ^ 58 ∧ scan {} text = (h, ascii "p5") ∧
      Reached text front 2 h (ascii "p5") ∧ h.FitsWords ∧ h.Brackets 2 (mantissaValue front) ∧
      (hexadecimal? text).map Prod.fst = some (scale (ofInt h.significand) 9) ∧
      IsRounded false ((ofInt h.significand).absValue * 2 ^ (9 : Int))
        (scale (ofInt h.significand) 9) := by
  intro text front h
  have hlength : text.length < 2 ^ 58 := by decide
  have hscan : scan {} text = (h, ascii "p5") := by decide +kernel
  have hwritten : binaryExponent? (ascii "p5") = some (false, ascii "5") := by decide +kernel
  have htotal : boundExponent (h.total (some (false, ascii "5"))) = 9 := by decide +kernel
  have hexponent : h.exponent + writtenExponent (some (false, ascii "5")) = 9 := by
    decide +kernel
  obtain ⟨hstates, hend, -, hvalue⟩ := digit_loop_brackets_value text hlength
  rw [hscan] at hend
  obtain ⟨front', dropped, hr⟩ := hend
  have hfront : front' = front := List.append_cancel_right (hr.join.trans (by decide +kernel))
  subst hfront
  have hdropped : dropped = 2 := by
    have hcount : (4 : Int) = 4 * dropped - 4 * (behindPoint front).length := hr.reads.1.exponent
    have hplaces : (behindPoint front).length = 1 := by decide +kernel
    omega
  subst hdropped
  obtain ⟨hfits, hbrackets, -⟩ := hstates _ _ _ _ hr
  obtain ⟨-, hread, hbound⟩ := hvalue h _ _ hscan hwritten
  have hrounded := (hbound (by decide)).1
  rw [htotal, hexponent] at hrounded
  rw [htotal] at hread
  exact ⟨hlength, hscan, hr, hfits, hbrackets, hread, hrounded⟩

end HexDigits

end Tagged.Literal
