import Tagged.Proofs.IntegerFloat
import Tagged.Proofs.Literal.Number

/-!
# The grammar of integer texts

The texts that denote an integer, as a language of their own. A text is read as an integer exactly
if it is one of them, and then the integer is the one that it denotes, or the end of the range of
64 bits that is nearest to it.
-/

namespace Tagged

theorem Byte.isSpace_iff (b : UInt8) :
    isSpace b = true ↔ b ∈ [0x20, 0x09, 0x0a, 0x0b, 0x0c, 0x0d] := by
  simp only [isSpace, Bool.or_eq_true, beq_iff_eq, Bool.and_eq_true, decide_eq_true_eq,
    UInt8.le_iff_toNat_le, List.mem_cons, List.not_mem_nil, or_false, ← UInt8.toNat_inj]
  simp only [UInt8.reduceToNat]
  omega

namespace Literal

/-- Blanks, a sign or none, and decimal digits up to the end denote an integer of any size. -/
inductive DenotesInteger : Bytes → Int → Prop
  | mk {blanks sign digits : Bytes}
      (hblanks : ∀ b ∈ blanks, b ∈ [0x20, 0x09, 0x0a, 0x0b, 0x0c, 0x0d]) (hsign : IsSign sign)
      (hne : digits ≠ []) (hdigits : digits.AllDigits) :
      DenotesInteger (blanks ++ (sign ++ digits)) (signedValue (sign == [0x2d]) digits)

/-- Blanks are skipped up to a sign or a digit. -/
theorem skipSpace_append {blanks sign digits : Bytes}
    (hblanks : ∀ b ∈ blanks, Byte.isSpace b = true) (hsign : IsSign sign) (hne : digits ≠ [])
    (hdigits : digits.AllDigits) :
    Bytes.skipSpace (blanks ++ (sign ++ digits)) = sign ++ digits := by
  rw [Bytes.skipSpace, List.dropWhile_append_of_pos hblanks]
  rcases hsign with rfl | rfl | rfl
  · obtain ⟨b, rest, rfl⟩ := List.exists_cons_of_ne_nil hne
    exact skipSpace_of_isDigit (hdigits b (by simp)) rest
  · rfl
  · rfl

theorem denotesInteger_iff (text : Bytes) (i : Int) :
    DenotesInteger text i ↔ (integer? text).isSome = true ∧ i = exactInteger text := by
  rw [integer?_isSome_iff]
  constructor
  · rintro ⟨hblanks, hsign, hne, hdigits⟩
    have hskip := skipSpace_append (fun b hb => (Byte.isSpace_iff b).2 (hblanks b hb)) hsign hne
      hdigits
    have hsplit := splitSign_append hsign (noSignAhead_of_allDigits hdigits)
    rw [exactInteger, hskip, hsplit]
    exact ⟨⟨hne, hdigits⟩, rfl⟩
  · rintro ⟨⟨hne, hdigits⟩, rfl⟩
    obtain ⟨sign, hsign, hbody, hnegative⟩ := exists_sign (Bytes.skipSpace text)
    have htext : text = text.takeWhile Byte.isSpace ++
        (sign ++ (Bytes.splitSign (Bytes.skipSpace text)).2) := by
      rw [← hbody]
      exact (List.takeWhile_append_dropWhile).symm
    have hblanks : ∀ b ∈ text.takeWhile Byte.isSpace,
        b ∈ [0x20, 0x09, 0x0a, 0x0b, 0x0c, 0x0d] :=
      fun b hb => (Byte.isSpace_iff b).1 (List.mem_takeWhile_imp hb)
    have hdenotes := DenotesInteger.mk hblanks hsign hne hdigits
    rw [← htext, ← hnegative] at hdenotes
    exact hdenotes

theorem toInt_ofInt_clampInt64 (i : Int) :
    (Int64.ofInt (clampInt64 i)).toInt = max (-2 ^ 63) (min i (2 ^ 63 - 1)) := by
  have hrange : -2 ^ 63 ≤ clampInt64 i ∧ clampInt64 i < 2 ^ 63 := by
    unfold clampInt64
    omega
  rw [Int64.toInt_ofInt_of_le hrange.1 hrange.2]
  unfold clampInt64
  omega

/-- A text is read as an integer exactly if it denotes one, and the integer that is read is the one
that it denotes, moved to the nearer end of the range if it is beyond 64 bits. -/
theorem integer_is_read_exactly (text : Bytes) :
    ((integer? text).isSome = true ↔ ∃ i, DenotesInteger text i) ∧
      ∀ n : Int64, integer? text = some n ↔
        ∃ i, DenotesInteger text i ∧ n.toInt = max (-2 ^ 63) (min i (2 ^ 63 - 1)) := by
  simp only [denotesInteger_iff]
  refine ⟨by simp, fun n => ?_⟩
  constructor
  · intro hread
    have hsome : (integer? text).isSome = true := by rw [hread]; rfl
    refine ⟨exactInteger text, ⟨hsome, rfl⟩, ?_⟩
    rw [integer?_eq_exactInteger hsome, Option.some_inj] at hread
    rw [← hread, toInt_ofInt_clampInt64]
  · rintro ⟨i, ⟨hsome, rfl⟩, hvalue⟩
    rw [integer?_eq_exactInteger hsome, Option.some_inj, ← Int64.toInt_inj, hvalue,
      toInt_ofInt_clampInt64]

example : integer? (ascii "\t +00") = some 0 ∧ integer? (ascii "-") = none ∧
    integer? (ascii "\n-9223372036854775809") = some Int64.minValue := by
  decide +kernel

end Literal

end Tagged
