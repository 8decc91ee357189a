import Tagged.Proofs.Binary64.Neighbours
import Tagged.Proofs.Literal.NotANumber

/-!
# The digits of a hexadecimal literal

What a hexadecimal mantissa denotes exactly, and what is kept of it. The digits are taken in until
the significand has 60 bits, and those behind are dropped and only counted, so the significand is
the number that all digits make up, without as many of the last ones as were dropped. This holds in
every state that the loop over the digits goes through, which `HexDigits.Reached` names.
-/

namespace Tagged

namespace Bytes

def hexValue (digits : Bytes) : Nat :=
  digits.foldl (fun acc b => acc * 16 + (Byte.hexDigit? b).getD 0) 0

theorem hexValue_concat (digits : Bytes) (b : UInt8) :
    hexValue (digits ++ [b]) = hexValue digits * 16 + (Byte.hexDigit? b).getD 0 := by
  simp [hexValue]

theorem hexValue_append (digits more : Bytes) :
    hexValue (digits ++ more) = hexValue digits * 16 ^ more.length + hexValue more := by
  induction more using List.reverseRecOn with
  | nil => simp [hexValue]
  | append_singleton more b ih =>
      rw [← List.append_assoc, hexValue_concat, ih, hexValue_concat, List.length_append,
        List.length_singleton, pow_succ]
      ring

end Bytes

theorem Byte.hexDigit?_lt : ∀ b : UInt8, (hexDigit? b).getD 0 < 16 := by
  decide +kernel

theorem Byte.lt_of_hexDigit? {b : UInt8} {digit : Nat} (hb : hexDigit? b = some digit) :
    digit < 16 := by
  have hlt := hexDigit?_lt b
  rwa [hb, Option.getD_some] at hlt

namespace Literal

open Bytes

/-! ## Mantissas -/

def beforePoint (mantissa : Bytes) : Bytes := mantissa.takeWhile (· != 0x2e)

def mantissaValue (mantissa : Bytes) : ℚ :=
  hexValue (beforePoint mantissa) +
    hexValue (behindPoint mantissa) / 16 ^ (behindPoint mantissa).length

def digitsOf (mantissa : Bytes) : Bytes := beforePoint mantissa ++ behindPoint mantissa

/-- What a mantissa denotes is the number of all its digits with the point moved. -/
theorem mantissaValue_eq (mantissa : Bytes) :
    mantissaValue mantissa =
      hexValue (digitsOf mantissa) / 16 ^ (behindPoint mantissa).length := by
  rw [mantissaValue, digitsOf, hexValue_append]
  push_cast
  field_simp

theorem beforePoint_point (fraction : Bytes) : beforePoint (0x2e :: fraction) = [] := rfl

section Split

variable {front : Bytes} (h : 0x2e ∉ front)

include h

theorem beforePoint_append (rest : Bytes) :
    beforePoint (front ++ rest) = front ++ beforePoint rest :=
  List.takeWhile_append_of_pos (ne_point_of_not_mem h)

theorem digitsOf_of_not_mem : digitsOf front = front ∧ behindPoint front = [] := by
  have hbefore := beforePoint_append h []
  have hbehind := behindPoint_append h []
  rw [List.append_nil] at hbefore hbehind
  rw [digitsOf, hbefore, hbehind]
  exact ⟨by simp [beforePoint, behindPoint], rfl⟩

/-- A point adds no digit, and none is behind it yet. -/
theorem digitsOf_concat_point :
    digitsOf (front ++ [0x2e]) = digitsOf front ∧ behindPoint (front ++ [0x2e]) = [] := by
  rw [(digitsOf_of_not_mem h).1, digitsOf, beforePoint_append h, behindPoint_append h]
  exact ⟨by simp [beforePoint_point, behindPoint_point], rfl⟩

end Split

theorem digitsOf_concat_digit (front : Bytes) {b : UInt8} (hb : b ≠ 0x2e) :
    digitsOf (front ++ [b]) = digitsOf front ++ [b] ∧
      (behindPoint (front ++ [b])).length =
        if 0x2e ∈ front then (behindPoint front).length + 1 else (behindPoint front).length := by
  by_cases hpoint : 0x2e ∈ front
  · obtain ⟨whole, fraction, rfl, hwhole⟩ := List.eq_append_cons_of_mem hpoint
    rw [if_pos hpoint, List.append_assoc, List.cons_append, digitsOf, digitsOf,
      beforePoint_append hwhole, beforePoint_append hwhole, behindPoint_append hwhole,
      behindPoint_append hwhole, beforePoint_point, beforePoint_point,
      behindPoint_point, behindPoint_point]
    simp
  · have hmore : 0x2e ∉ front ++ [b] := by simp [hpoint, hb.symm]
    rw [if_neg hpoint, (digitsOf_of_not_mem hmore).1, (digitsOf_of_not_mem hmore).2,
      (digitsOf_of_not_mem hpoint).1, (digitsOf_of_not_mem hpoint).2]
    exact ⟨rfl, rfl⟩

/-! ## What is kept -/

namespace HexDigits

/-- All digits read so far make up `number`, and `places` of them stand behind the point. The last
`dropped` ones of them were not taken into the significand. -/
structure Reads (h : HexDigits) (number places dropped : Nat) : Prop where
  significand : h.significand = number / 16 ^ dropped
  exponent : h.exponent = 4 * dropped - 4 * places
  significand_lt : h.significand < 2 ^ 63
  limit_le : dropped ≠ 0 → limit ≤ h.significand

theorem reads_empty : Reads {} 0 0 0 where
  significand := rfl
  exponent := rfl
  significand_lt := by decide
  limit_le h := absurd rfl h

namespace Reads

variable {h : HexDigits} {number places dropped : Nat}

/-- Where there is room for a digit, none was dropped before. -/
theorem append_of_lt (hr : h.Reads number places dropped) (hroom : h.significand < limit)
    {digit : Nat} (hdigit : digit < 16) :
    (h.append digit).Reads (number * 16 + digit)
      (if h.afterPoint then places + 1 else places) dropped := by
  obtain ⟨hsignificand, hexponent, -, hlimit⟩ := hr
  have hnone : dropped = 0 := by
    by_contra hne
    have := hlimit hne
    omega
  subst hnone
  rw [pow_zero, Nat.div_one] at hsignificand
  refine ⟨?_, ?_, ?_, fun hne => absurd rfl hne⟩
  · simp only [HexDigits.append, hroom, if_true, pow_zero, Nat.div_one]
    rw [hsignificand]
  · simp only [HexDigits.append, hroom, if_true, hexponent]
    split <;> push_cast <;> omega
  · simp only [HexDigits.append, hroom, if_true]
    unfold limit at hroom
    omega

theorem append_of_le (hr : h.Reads number places dropped) (hfull : limit ≤ h.significand)
    {digit : Nat} (hdigit : digit < 16) :
    (h.append digit).Reads (number * 16 + digit)
      (if h.afterPoint then places + 1 else places) (dropped + 1) := by
  obtain ⟨hsignificand, hexponent, hlt, -⟩ := hr
  have hroom : ¬ h.significand < limit := by omega
  refine ⟨?_, ?_, ?_, fun _ => ?_⟩
  · simp only [HexDigits.append, hroom, if_false]
    rw [hsignificand, pow_succ', ← Nat.div_div_eq_div_mul,
      show (number * 16 + digit) / 16 = number by omega]
  · simp only [HexDigits.append, hroom, if_false, hexponent]
    split <;> push_cast <;> omega
  · simp only [HexDigits.append, hroom, if_false]
    exact hlt
  · simp only [HexDigits.append, hroom, if_false]
    exact hfull

theorem two_zpow_exponent (hr : h.Reads number places dropped) :
    (2 : ℚ) ^ h.exponent = 16 ^ dropped / 16 ^ places := by
  rw [hr.exponent, zpow_sub₀ (by norm_num), zpow_mul, zpow_mul]
  norm_num

theorem value_eq (hr : h.Reads number places 0) :
    (number : ℚ) / 16 ^ places = h.significand * 2 ^ h.exponent := by
  rw [hr.two_zpow_exponent, hr.significand, pow_zero, Nat.div_one, pow_zero, mul_one_div]

/-- The significand, scaled, is at most what is denoted, and one more of it is too much. It is all
of it unless digits were dropped. -/
theorem brackets (hr : h.Reads number places dropped) :
    (h.significand : ℚ) * 2 ^ h.exponent ≤ number / 16 ^ places ∧
      (number : ℚ) / 16 ^ places < (h.significand + 1) * 2 ^ h.exponent ∧
      ((number : ℚ) / 16 ^ places = h.significand * 2 ^ h.exponent ∨
        limit ≤ h.significand) := by
  have hpos : (0 : ℚ) < 16 ^ places := by positivity
  have hlow : h.significand * 16 ^ dropped ≤ number := by
    rw [hr.significand]
    exact Nat.div_mul_le_self _ _
  have hhigh : number < (h.significand + 1) * 16 ^ dropped := by
    rw [hr.significand, mul_comm]
    exact Nat.lt_mul_div_succ _ (by positivity)
  refine ⟨?_, ?_, ?_⟩
  · rw [hr.two_zpow_exponent, mul_div_assoc', div_le_div_iff_of_pos_right hpos]
    exact_mod_cast hlow
  · rw [hr.two_zpow_exponent, mul_div_assoc', div_lt_div_iff_of_pos_right hpos]
    exact_mod_cast hhigh
  · by_cases hnone : dropped = 0
    · subst hnone
      exact .inl hr.value_eq
    · exact .inr (hr.limit_le hnone)

end Reads

/-- Each byte moves the exponent by four places at most. -/
theorem foldl_exponent_bounds (h : HexDigits) (text : Bytes) :
    h.exponent - 4 * text.length ≤ (text.foldl read h).exponent ∧
      (text.foldl read h).exponent ≤ h.exponent + 4 * text.length := by
  induction text generalizing h with
  | nil => simp
  | cons b text ih =>
      have hstep : h.exponent - 4 ≤ (h.read b).exponent ∧
          (h.read b).exponent ≤ h.exponent + 4 := by
        unfold read HexDigits.append
        split
        · dsimp only
          omega
        · split
          · split <;> dsimp only <;> split <;> omega
          · omega
      have := ih (h.read b)
      rw [List.foldl_cons, List.length_cons]
      push_cast
      omega

/-! ## Turns -/

/-- The states of the loop over the digits of a text: what was read, how many digits of that were
dropped, what they are kept as, and the text that is left. -/
inductive Reached (text : Bytes) : Bytes → Nat → HexDigits → Bytes → Prop
  | start : Reached text [] 0 {} text
  | point {front rest : Bytes} {dropped : Nat} {h : HexDigits}
      (hbefore : Reached text front dropped h (0x2e :: rest)) (hfirst : h.afterPoint = false) :
      Reached text (front ++ [0x2e]) dropped { h with afterPoint := true } rest
  | taken {front rest : Bytes} {dropped digit : Nat} {h : HexDigits} {b : UInt8}
      (hbefore : Reached text front dropped h (b :: rest)) (hb : Byte.hexDigit? b = some digit)
      (hroom : h.significand < limit) :
      Reached text (front ++ [b]) dropped (h.append digit) rest
  | passed {front rest : Bytes} {dropped digit : Nat} {h : HexDigits} {b : UInt8}
      (hbefore : Reached text front dropped h (b :: rest)) (hb : Byte.hexDigit? b = some digit)
      (hfull : limit ≤ h.significand) :
      Reached text (front ++ [b]) (dropped + 1) (h.append digit) rest

theorem scan_point {h : HexDigits} (hfirst : h.afterPoint = false) (rest : Bytes) :
    h.scan (0x2e :: rest) = ({ h with afterPoint := true } : HexDigits).scan rest := by
  rw [scan, hfirst]
  rfl

theorem ne_point_of_hexDigit? {b : UInt8} {digit : Nat} (hb : Byte.hexDigit? b = some digit) :
    b ≠ 0x2e := by
  rintro rfl
  cases hb

theorem scan_digit (h : HexDigits) {b : UInt8} {digit : Nat} (hb : Byte.hexDigit? b = some digit)
    (rest : Bytes) : h.scan (b :: rest) = (h.append digit).scan rest := by
  rw [scan, hb]
  simp [ne_point_of_hexDigit? hb]

namespace Reached

variable {text front rest : Bytes} {dropped : Nat} {h : HexDigits} {b : UInt8}

theorem join (hr : Reached text front dropped h rest) : front ++ rest = text := by
  induction hr with
  | start => rfl
  | point _ _ ih => rw [List.append_assoc, List.singleton_append, ih]
  | taken _ _ _ ih => rw [List.append_assoc, List.singleton_append, ih]
  | passed _ _ _ ih => rw [List.append_assoc, List.singleton_append, ih]

/-- From every state the loop comes to the same end. -/
theorem scan_eq (hr : Reached text front dropped h rest) : h.scan rest = scan {} text := by
  induction hr with
  | start => rfl
  | point _ hfirst ih => rw [← ih, scan_point hfirst]
  | taken _ hb _ ih => rw [← ih, scan_digit _ hb]
  | passed _ hb _ ih => rw [← ih, scan_digit _ hb]

theorem digit (hr : Reached text front dropped h (b :: rest)) {digit : Nat}
    (hb : Byte.hexDigit? b = some digit) :
    ∃ dropped', Reached text (front ++ [b]) dropped' (h.append digit) rest := by
  rcases Nat.lt_or_ge h.significand limit with hroom | hfull
  · exact ⟨dropped, .taken hr hb hroom⟩
  · exact ⟨dropped + 1, .passed hr hb hfull⟩

/-- The end of the loop is one of its states. -/
theorem exists_end (hr : Reached text front dropped h rest) :
    ∃ front' dropped', Reached text front' dropped' (h.scan rest).1 (h.scan rest).2 := by
  induction rest generalizing front dropped h with
  | nil => exact ⟨front, dropped, hr⟩
  | cons b rest ih =>
      by_cases hpoint : b = 0x2e ∧ h.afterPoint = false
      · obtain ⟨rfl, hfirst⟩ := hpoint
        rw [scan_point hfirst]
        exact ih (.point hr hfirst)
      · cases hb : Byte.hexDigit? b with
        | some digit =>
            obtain ⟨dropped', hnext⟩ := hr.digit hb
            rw [scan_digit h hb]
            exact ih hnext
        | none =>
            have hstop : h.scan (b :: rest) = (h, b :: rest) := by
              rw [scan, hb, if_neg (by simpa using hpoint)]
            rw [hstop]
            exact ⟨front, dropped, hr⟩

/-- What a digit adds to what was read before it. -/
theorem concat_digit {digit : Nat} (hb : Byte.hexDigit? b = some digit)
    (hpoint : h.afterPoint = true ↔ 0x2e ∈ front) :
    hexValue (digitsOf (front ++ [b])) = hexValue (digitsOf front) * 16 + digit ∧
      (behindPoint (front ++ [b])).length =
        (if h.afterPoint then (behindPoint front).length + 1 else (behindPoint front).length) ∧
      ((h.append digit).afterPoint = true ↔ 0x2e ∈ front ++ [b]) := by
  have hne := ne_point_of_hexDigit? hb
  obtain ⟨hdigits, hplaces⟩ := digitsOf_concat_digit front hne
  refine ⟨?_, ?_, ?_⟩
  · rw [hdigits, hexValue_concat, hb, Option.getD_some]
  · rw [hplaces]
    exact if_congr hpoint.symm rfl rfl
  · rw [append_afterPoint, hpoint]
    simp [hne.symm]

/-- The invariant of the loop: the digits read so far make up a number, and the state keeps it but
for the digits that were dropped. -/
theorem reads (hr : Reached text front dropped h rest) :
    h.Reads (hexValue (digitsOf front)) (behindPoint front).length dropped ∧
      (h.afterPoint = true ↔ 0x2e ∈ front) := by
  induction hr with
  | start => exact ⟨reads_empty, by simp⟩
  | @point front rest dropped h _ hfirst ih =>
      obtain ⟨hreads, hpoint⟩ := ih
      have hnone : 0x2e ∉ front := by simp [← hpoint, hfirst]
      obtain ⟨hdigits, hbehind⟩ := digitsOf_concat_point hnone
      rw [hdigits, hbehind, ← (digitsOf_of_not_mem hnone).2]
      exact ⟨⟨hreads.significand, hreads.exponent, hreads.significand_lt, hreads.limit_le⟩,
        by simp⟩
  | taken _ hb hroom ih =>
      obtain ⟨hreads, hpoint⟩ := ih
      obtain ⟨hnumber, hplaces, hpoint'⟩ := concat_digit hb hpoint
      rw [hnumber, hplaces]
      exact ⟨hreads.append_of_lt hroom (Byte.lt_of_hexDigit? hb), hpoint'⟩
  | passed _ hb hfull ih =>
      obtain ⟨hreads, hpoint⟩ := ih
      obtain ⟨hnumber, hplaces, hpoint'⟩ := concat_digit hb hpoint
      rw [hnumber, hplaces]
      exact ⟨hreads.append_of_le hfull (Byte.lt_of_hexDigit? hb), hpoint'⟩

theorem eq_foldl (hr : Reached text front dropped h rest) : h = front.foldl read {} := by
  induction hr with
  | start => rfl
  | point _ hfirst ih =>
      rw [List.foldl_append, ← ih, List.foldl_cons, List.foldl_nil, read, hfirst]
      rfl
  | taken _ hb _ ih =>
      rw [List.foldl_append, ← ih, List.foldl_cons, List.foldl_nil, read_of_hexDigit hb]
  | passed _ hb _ ih =>
      rw [List.foldl_append, ← ih, List.foldl_cons, List.foldl_nil, read_of_hexDigit hb]

theorem exponent_bounds (hr : Reached text front dropped h rest) :
    -(4 * text.length) ≤ h.exponent ∧ h.exponent ≤ 4 * text.length := by
  have hbounds := foldl_exponent_bounds {} front
  have hstart : ({} : HexDigits).exponent = 0 := rfl
  rw [← hr.eq_foldl, hstart] at hbounds
  have hlength := congrArg List.length hr.join
  rw [List.length_append] at hlength
  omega

end Reached

/-- Where the loop leaves nothing, its last state keeps the number that all digits make up. -/
theorem exists_reads_of_scan {mantissa : Bytes}
    (h : scan {} mantissa = (mantissa.foldl read {}, [])) :
    ∃ dropped, (mantissa.foldl read {}).Reads (hexValue (digitsOf mantissa))
      (behindPoint mantissa).length dropped := by
  obtain ⟨front, dropped, hr⟩ := (@Reached.start mantissa).exists_end
  rw [h] at hr
  have hfront : front = mantissa := by simpa using hr.join
  subst hfront
  exact ⟨dropped, hr.reads.1⟩

theorem exists_reads_digits {digits : Bytes} (hdigits : ∀ b ∈ digits, Byte.isHexDigit b = true) :
    ∃ dropped, (digits.foldl read {}).Reads (hexValue digits) 0 dropped := by
  have hnone := point_not_mem_of_isHexDigit hdigits
  have hsplit := splitMantissa_digits hdigits []
  rw [List.append_nil] at hsplit
  have hscan : scan {} digits = (digits.foldl read {}, []) := by
    rw [scan_eq_foldl rfl, hsplit]
    simp [splitMantissa]
  have hreads := exists_reads_of_scan hscan
  rwa [(digitsOf_of_not_mem hnone).1, (digitsOf_of_not_mem hnone).2] at hreads

theorem exists_reads {mantissa : Bytes} (h : IsMantissa Byte.isHexDigit mantissa) :
    ∃ number places dropped, (mantissa.foldl read {}).Reads number places dropped ∧
      mantissaValue mantissa = number / 16 ^ places := by
  have hsplit := splitMantissa_of_stop separates_isHexDigit.point h (show ∀ b ∈ [].head?, _ by simp)
  rw [List.append_nil] at hsplit
  obtain ⟨dropped, hreads⟩ := exists_reads_of_scan (by rw [scan_eq_foldl rfl, hsplit])
  exact ⟨_, _, dropped, hreads, mantissaValue_eq mantissa⟩

end HexDigits

end Literal

end Tagged
