import Mathlib.Data.FinEnum
import Tagged.Proofs.Literal.LongestMatch

/-!
# The length of the longest decimal literal

How much of a text is a decimal literal or a word can be found by positions in the text, without
taking the text apart: `prefixLength?` does so, and fails where it would look beyond the end. It
never fails, it stops where the scanner of literals stops, and so it finds the longest literal.
Whatever is cut off there can be parsed as a whole, unless nothing is.
-/

namespace Tagged

namespace Bytes

/-- The text from a position on. There is none beyond the end. -/
def after? (text : Bytes) (pos : Nat) : Option Bytes :=
  if pos ≤ text.length then some (text.drop pos) else none

def before? (text : Bytes) (pos : Nat) : Option Bytes :=
  if pos ≤ text.length then some (text.take pos) else none

def countDigits (text : Bytes) : Nat := (text.takeWhile Byte.isDigit).length

structure At (text : Bytes) (pos : Nat) (rest : Bytes) : Prop where
  le : pos ≤ text.length
  drop : text.drop pos = rest

namespace At

variable {text rest : Bytes} {pos : Nat}

theorem start (text : Bytes) : At text 0 text := ⟨Nat.zero_le _, rfl⟩

theorem after?_eq (h : At text pos rest) : text.after? pos = some rest := by
  rw [after?, if_pos h.le, h.drop]

theorem getElem?_eq (h : At text pos rest) : text[pos]? = rest.head? := by
  rw [← h.drop, List.head?_drop]

theorem advance {left : Bytes} (h : At text pos (left ++ rest)) :
    At text (pos + left.length) rest := by
  have hlength := congrArg List.length h.drop
  rw [List.length_drop, List.length_append] at hlength
  have hle := h.le
  refine ⟨by omega, ?_⟩
  rw [← List.drop_drop, h.drop, List.drop_left]

theorem next {b : UInt8} (h : At text pos (b :: rest)) : At text (pos + 1) rest := by
  rw [← List.singleton_append] at h
  exact h.advance

theorem countDigits (h : At text pos rest) :
    At text (pos + Bytes.countDigits rest) (rest.dropWhile Byte.isDigit) := by
  apply advance
  rwa [List.takeWhile_append_dropWhile]

theorem take_eq {literal : Bytes} (h : At text pos rest) (htext : text = literal ++ rest) :
    text.take pos = literal := by
  have hjoin : text.take pos ++ rest = literal ++ rest := by
    rw [← h.drop, List.take_append_drop, h.drop, ← htext]
  exact List.append_cancel_right hjoin

end At

end Bytes

namespace Literal

open Bytes (At)

/-! ## Scanning by positions -/

def isSign (b : Option UInt8) : Bool := b == some 0x2b || b == some 0x2d

def skipSign (text : Bytes) (pos : Nat) : Nat := if isSign text[pos]? then pos + 1 else pos

/-- The length of the first of the words that the text begins with, letter case aside, or zero. -/
def wordLength? (text : Bytes) : List Bytes → Option Nat
  | [] => some 0
  | word :: words =>
    if word.length ≤ text.length then
      match text.before? word.length with
      | none => none
      | some start =>
        if start.map Byte.toLower == word then some word.length else wordLength? text words
    else wordLength? text words

/-- The position behind an exponent, or the one in front of it if there is none. -/
def exponentEnd? (text : Bytes) (pos : Nat) : Option Nat :=
  if text[pos]? == some 0x65 || text[pos]? == some 0x45 then
    match text.after? (skipSign text (pos + 1)) with
    | none => none
    | some rest =>
      some (if 0 < rest.countDigits then skipSign text (pos + 1) + rest.countDigits else pos)
  else some pos

def placesAt? (text : Bytes) (pos : Nat) : Option Nat :=
  if text[pos]? == some 0x2e then (text.after? (pos + 1)).map Bytes.countDigits else some 0

def decimalEnd? (text : Bytes) (pos : Nat) : Option Nat :=
  match text.after? pos with
  | none => none
  | some rest =>
    let point := pos + rest.countDigits
    match placesAt? text point with
    | none => none
    | some places =>
      if rest.countDigits == 0 && places == 0 then some 0
      else exponentEnd? text (if text[point]? == some 0x2e then point + 1 + places else point)

def prefixLength? (text : Bytes) : Option Nat :=
  let pos := skipSign text 0
  match text.after? pos with
  | none => none
  | some rest =>
    match wordLength? rest [ascii "infinity", ascii "inf", ascii "nan"] with
    | none => none
    | some 0 => decimalEnd? text pos
    | some (length + 1) => some (pos + (length + 1))

/-! ## The positions of the scanner -/

theorem splitSign_eq (text : Bytes) :
    (Bytes.splitSign text).2 = if isSign text.head? then text.drop 1 else text := by
  unfold Bytes.splitSign
  split
  next => rfl
  next => rfl
  next hminus hplus =>
    cases text with
    | nil => rfl
    | cons b text =>
        have hb : b ≠ 0x2d := by
          rintro rfl
          exact hminus text rfl
        have hb' : b ≠ 0x2b := by
          rintro rfl
          exact hplus text rfl
        simp [isSign, hb, hb']

/-- A sign is passed over where the scanner passes over it. -/
theorem at_skipSign {text rest : Bytes} {pos : Nat} (h : At text pos rest) :
    At text (skipSign text pos) (Bytes.splitSign rest).2 := by
  rw [splitSign_eq, skipSign, h.getElem?_eq]
  cases rest with
  | nil => exact h
  | cons b rest =>
      split
      · exact h.next
      · exact h

theorem wordLength?_cons (text word : Bytes) (words : List Bytes) :
    wordLength? text (word :: words) =
      if Bytes.startsWithWord word text then some word.length else wordLength? text words := by
  rw [wordLength?, Bytes.startsWithWord]
  split
  next hle => rw [Bytes.before?, if_pos hle]
  next hlt =>
    have hshort : ((text.take word.length).map Byte.toLower == word) = false := by
      apply beq_false_of_ne
      intro h
      have hlength := congrArg List.length h
      rw [List.length_map, List.length_take] at hlength
      omega
    rw [hshort]
    rfl

theorem wordLength?_eq (text : Bytes) :
    wordLength? text [ascii "infinity", ascii "inf", ascii "nan"] =
      match Numeral.word? text with
      | none => some 0
      | some (_, rest) => some (text.length - rest.length) := by
  have hlength : ∀ {word : Bytes}, Bytes.startsWithWord word text = true →
      text.length - (text.drop word.length).length = word.length := by
    intro word hstarts
    obtain ⟨literal, htext, hword⟩ := exists_literal_of_startsWithWord hstarts
    have htotal := congrArg List.length htext
    rw [List.length_append, List.length_drop, ← hword, List.length_map] at htotal
    rw [List.length_drop, ← hword, List.length_map]
    omega
  rw [wordLength?_cons, wordLength?_cons, wordLength?_cons, wordLength?, Numeral.word?]
  split
  next hinfinity => exact congrArg some (hlength hinfinity).symm
  next =>
    split
    next hinf => exact congrArg some (hlength hinf).symm
    next =>
      split
      next hnan => exact congrArg some (hlength hnan).symm
      next => rfl

theorem letter_iff : ∀ b : UInt8, Byte.toLower b = 0x65 ↔ b = 0x65 ∨ b = 0x45 := by
  decide +kernel

theorem exponentEnd?_at {text rest : Bytes} {pos : Nat} (h : At text pos rest) :
    ∃ stop, exponentEnd? text pos = some stop ∧
      At text stop (match exponent? 0x65 rest with | none => rest | some e => e.rest) := by
  rw [exponentEnd?, h.getElem?_eq]
  cases rest with
  | nil => exact ⟨pos, rfl, h⟩
  | cons b rest =>
      have hstart := at_skipSign h.next
      by_cases hb : Byte.toLower b = 0x65
      · have hletter : (some b == some 0x65 || some b == some 0x45) = true := by
          simpa using (letter_iff b).1 hb
        rw [List.head?_cons, if_pos hletter, hstart.after?_eq]
        refine ⟨_, rfl, ?_⟩
        by_cases hdigits : (Bytes.splitSign rest).2.takeWhile Byte.isDigit = []
        · have hcount : (Bytes.splitSign rest).2.countDigits = 0 := by
            rw [Bytes.countDigits, hdigits, List.length_nil]
          rw [if_neg (by omega)]
          simpa [exponent?, hb, hdigits] using h
        · have hcount : 0 < (Bytes.splitSign rest).2.countDigits :=
            List.length_pos_iff.2 hdigits
          rw [if_pos hcount]
          simpa [exponent?, hb, hdigits] using hstart.countDigits
      · have hletter : (some b == some 0x65 || some b == some 0x45) = false := by
          simpa using fun h => hb ((letter_iff b).2 h)
        rw [List.head?_cons, hletter]
        refine ⟨pos, rfl, ?_⟩
        simpa [exponent?, hb] using h

theorem placesAt?_at {text rest : Bytes} {pos : Nat} (h : At text pos rest) :
    placesAt? text pos = some (Numeral.fraction rest).1.length ∧
      At text (if text[pos]? == some 0x2e then pos + 1 + (Numeral.fraction rest).1.length else pos)
        (Numeral.fraction rest).2 := by
  rw [placesAt?, h.getElem?_eq]
  cases rest with
  | nil => exact ⟨rfl, h⟩
  | cons b rest =>
      by_cases hb : b = 0x2e
      · subst hb
        rw [List.head?_cons, if_pos (by rfl), if_pos (by rfl), h.next.after?_eq]
        exact ⟨rfl, h.next.countDigits⟩
      · have hpoint : (some b == some 0x2e) = false := by simpa using hb
        rw [List.head?_cons, hpoint, Numeral.fraction_cons_of_ne hb]
        exact ⟨rfl, h⟩

theorem length_beq_zero (text : Bytes) : (text.length == 0) = text.isEmpty := by
  cases text <;> rfl

theorem decimalEnd?_at {text rest : Bytes} {pos : Nat} (h : At text pos rest) :
    match Numeral.decimal? rest with
    | none => decimalEnd? text pos = some 0
    | some (_, behind) => ∃ stop, decimalEnd? text pos = some stop ∧ At text stop behind := by
  obtain ⟨hplaces, hpoint⟩ := placesAt?_at h.countDigits
  obtain ⟨stop, hstop, hat⟩ := exponentEnd?_at hpoint
  have hempty : (Bytes.countDigits rest == 0 &&
      (Numeral.fraction (rest.dropWhile Byte.isDigit)).1.length == 0) =
        ((rest.takeWhile Byte.isDigit).isEmpty &&
          (Numeral.fraction (rest.dropWhile Byte.isDigit)).1.isEmpty) := by
    rw [Bytes.countDigits, length_beq_zero, length_beq_zero]
  rw [decimalEnd?, h.after?_eq, Numeral.decimal?]
  dsimp only
  rw [hplaces]
  dsimp only
  rw [hempty, hstop]
  split
  next hnone =>
    split at hnone
    next hdigits => rw [if_pos hdigits]
    next => split at hnone <;> cases hnone
  next numeral behind hsome =>
    split at hsome
    next => cases hsome
    next hdigits =>
      refine ⟨stop, by rw [if_neg hdigits], ?_⟩
      split at hsome
      next hexponent =>
        cases hsome
        rwa [hexponent] at hat
      next e hexponent =>
        cases hsome
        rwa [hexponent] at hat

/-- The positions end where the scanner ends. -/
theorem prefixLength?_at (text : Bytes) :
    match Numeral.scan? (Bytes.splitSign text).2 with
    | none => prefixLength? text = some 0
    | some (_, behind) => ∃ stop, prefixLength? text = some stop ∧ At text stop behind := by
  have hstart := at_skipSign (At.start text)
  rw [prefixLength?, Numeral.scan?, hstart.after?_eq]
  dsimp only
  rw [wordLength?_eq]
  cases hword : Numeral.word? (Bytes.splitSign text).2 with
  | none => exact decimalEnd?_at hstart
  | some found =>
      obtain ⟨numeral, behind⟩ := found
      obtain ⟨word, hjoin, hisWord, -⟩ := Numeral.readsLongest_word?.sound hword
      obtain ⟨b, more, hcons, -⟩ := hisWord.exists_cons
      have hlength : (Bytes.splitSign text).2.length - behind.length = more.length + 1 := by
        rw [hjoin, hcons, List.length_append, List.length_cons]
        omega
      rw [hjoin] at hstart
      have hend := hstart.advance
      rw [hcons, List.length_cons] at hend
      dsimp only
      rw [hlength]
      exact ⟨_, rfl, hend⟩

/-! ## Literals without a hexadecimal form -/

def IsPlain : Bytes → Prop := Signed fun text => IsWord text ∨ IsDecimal text

def plain? (text : Bytes) : Option (Binary64 × Bytes) :=
  (Numeral.scan? (Bytes.splitSign text).2).map
    (Prod.map (Numeral.value (Bytes.splitSign text).1) id)

def parse? (text : Bytes) : Option Binary64 :=
  match plain? text with
  | some (x, []) => some x
  | _ => none

theorem readsLongest_plain? : ReadsLongest plain? IsPlain := by
  have hscan : ∀ negative, ReadsLongest
      (fun text => (Numeral.scan? text).map (Prod.map (Numeral.value negative) id))
      (fun text => IsWord text ∨ IsDecimal text) :=
    fun negative => Numeral.readsLongest_scan?.map (Numeral.value negative)
  exact ReadsLongest.signed hscan fun hbody more => IsUnsigned.noSignAhead (.inr hbody) more

theorem float?_eq_plain? {text : Bytes}
    (h : markedHexadecimal? (Bytes.splitSign text).2 = none) : float? text = plain? text := by
  rw [float?_eq_unsigned?, unsigned?, h]
  rfl

theorem parse?_eq_none_iff (text : Bytes) : parse? text = none ↔ ¬ IsPlain text := by
  constructor
  · intro hnone hplain
    obtain ⟨x, rest, hscan, hle⟩ := readsLongest_plain?.complete hplain []
    have hnil : rest = [] := List.length_eq_zero_iff.1 (Nat.le_zero.1 hle)
    rw [List.append_nil, hnil] at hscan
    rw [parse?, hscan] at hnone
    cases hnone
  · intro hplain
    unfold parse?
    split
    next x hscan =>
      obtain ⟨literal, htext, hliteral, -⟩ := readsLongest_plain?.sound hscan
      rw [List.append_nil] at htext
      exact absurd (htext ▸ hliteral) hplain
    next => rfl

theorem IsPlain.ne_nil {text : Bytes} (h : IsPlain text) : text ≠ [] := by
  obtain ⟨hsign, hbody⟩ := h
  obtain ⟨b, rest, rfl, -⟩ := IsUnsigned.exists_cons (.inr hbody)
  simp

theorem IsPlain.isFloat {text : Bytes} (h : IsPlain text) : IsFloat text := by
  obtain ⟨hsign, hbody⟩ := h
  exact .mk hsign (.inr hbody)

/-- In front of every float literal stands one that is not hexadecimal, if only the zero. -/
theorem IsFloat.exists_plain {text : Bytes} (h : IsFloat text) :
    ∃ literal, literal <+: text ∧ IsPlain literal := by
  obtain @⟨sign, body, hsign, hbody⟩ := h
  rcases hbody with hhex | hplain
  · obtain @⟨x, digits, hx, hdigits⟩ := hhex
    refine ⟨sign ++ [0x30], ⟨x :: digits, by simp⟩, .mk hsign (.inr (.plain (.whole ?_ ?_)))⟩
    · simp
    · intro b hb
      rw [List.mem_singleton.1 hb]
      rfl
  · exact ⟨sign ++ body, List.prefix_rfl, .mk hsign hplain⟩

/-! ## Literals are ASCII -/

theorem lt_of_toLower_lt : ∀ b : UInt8, Byte.toLower b < 0x80 → b < 0x80 := by
  decide +kernel

theorem lt_of_isDigit : ∀ b : UInt8, Byte.isDigit b = true → b < 0x80 := by
  decide +kernel

theorem IsMantissa.isAscii {text : Bytes} (h : IsMantissa Byte.isDigit text) :
    ∀ b ∈ text, b < 0x80 := by
  have hpoint : (0x2e : UInt8) < 0x80 := by decide
  cases h with
  | whole _ hdigits => exact fun b hb => lt_of_isDigit b (hdigits b hb)
  | pointed _ hdigits hfraction =>
      intro b hb
      rcases List.mem_append.1 hb with hb | hb
      · exact lt_of_isDigit b (hdigits b hb)
      · rcases List.mem_cons.1 hb with rfl | hb
        · exact hpoint
        · exact lt_of_isDigit b (hfraction b hb)
  | fraction _ hfraction =>
      intro b hb
      rcases List.mem_cons.1 hb with rfl | hb
      · exact hpoint
      · exact lt_of_isDigit b (hfraction b hb)

theorem IsSign.isAscii {text : Bytes} (h : IsSign text) : ∀ b ∈ text, b < 0x80 := by
  rcases h with rfl | rfl | rfl <;> decide +kernel

theorem IsExponent.isAscii {text : Bytes} (h : IsExponent 0x65 text) : ∀ b ∈ text, b < 0x80 := by
  obtain ⟨hletter, hsign, -, hdigits⟩ := h
  intro b hb
  rcases List.mem_cons.1 hb with rfl | hb
  · apply lt_of_toLower_lt
    rw [hletter]
    decide
  · rcases List.mem_append.1 hb with hb | hb
    · exact hsign.isAscii b hb
    · exact lt_of_isDigit b (hdigits b hb)

theorem IsDecimal.isAscii {text : Bytes} (h : IsDecimal text) : ∀ b ∈ text, b < 0x80 := by
  cases h with
  | plain hmantissa => exact hmantissa.isAscii
  | scaled hmantissa hexponent =>
      intro b hb
      rcases List.mem_append.1 hb with hb | hb
      · exact hmantissa.isAscii b hb
      · exact hexponent.isAscii b hb

theorem IsWord.isAscii {text : Bytes} (h : IsWord text) : ∀ b ∈ text, b < 0x80 := by
  intro b hb
  have hmem := List.mem_map_of_mem (f := Byte.toLower) hb
  apply lt_of_toLower_lt
  rcases h with h | h | h <;> rw [h] at hmem
  · exact (show ∀ c ∈ ascii "inf", c < 0x80 by decide +kernel) _ hmem
  · exact (show ∀ c ∈ ascii "infinity", c < 0x80 by decide +kernel) _ hmem
  · exact (show ∀ c ∈ ascii "nan", c < 0x80 by decide +kernel) _ hmem

theorem IsPlain.isAscii {text : Bytes} (h : IsPlain text) : ∀ b ∈ text, b < 0x80 := by
  obtain ⟨hsign, hbody⟩ := h
  intro b hb
  rcases List.mem_append.1 hb with hb | hb
  · exact hsign.isAscii b hb
  · rcases hbody with hword | hdecimal
    · exact hword.isAscii b hb
    · exact hdecimal.isAscii b hb

/-! ## The longest literal -/

theorem prefixLength?_spec (text : Bytes) :
    ∃ length, prefixLength? text = some length ∧ length ≤ text.length ∧
      IsLongestPrefix IsPlain text (text.take length) ∧
      (plain? text).map Prod.fst = parse? (text.take length) := by
  have hat := prefixLength?_at text
  cases hscan : Numeral.scan? (Bytes.splitSign text).2 with
  | none =>
      have hplain : plain? text = none := by
        rw [plain?, hscan]
        rfl
      rw [hscan] at hat
      refine ⟨0, hat, Nat.zero_le _, readsLongest_plain?.isLongestPrefix_nil hplain, ?_⟩
      rw [hplain]
      rfl
  | some found =>
      obtain ⟨numeral, behind⟩ := found
      have hplain : plain? text =
          some (numeral.value (Bytes.splitSign text).1, behind) := by
        rw [plain?, hscan]
        rfl
      rw [hscan] at hat
      obtain ⟨stop, hstop, hat⟩ := hat
      obtain ⟨literal, htext, hliteral, hagain⟩ := readsLongest_plain?.sound hplain
      refine ⟨stop, hstop, hat.le, ?_, ?_⟩
      · rw [hat.take_eq htext]
        rw [htext] at hplain ⊢
        exact readsLongest_plain?.isLongestPrefix_append hliteral hplain
      · rw [hat.take_eq htext, hplain, parse?, hagain]
        rfl

/-- The length found by positions is that of the longest literal at the front of the text, and
zero exactly if no float literal of any kind stands there; no position is beyond the end. What is
cut off is ASCII and, unless it is empty, a literal as a whole. So wherever no hexadecimal literal
is read, the number of a text is what this literal is parsed as, and it is zero for want of one
only if there is none. -/
theorem prefixLength_is_longest (text : Bytes) :
    ∃ length, prefixLength? text = some length ∧ length ≤ text.length ∧
      IsLongestPrefix IsPlain text (text.take length) ∧
      (length = 0 ↔ ∀ other, other <+: text → ¬ IsFloat other) ∧
      (∀ b ∈ text.take length, b < 0x80) ∧
      (0 < length → IsPlain (text.take length)) ∧
      (parse? (text.take length) = none ↔ length = 0) ∧
      ∀ source, Bytes.skipSpace source = text →
        markedHexadecimal? (Bytes.splitSign text).2 = none →
          floatValue source = (parse? (text.take length)).getD (.zero false) := by
  obtain ⟨length, hlength, hle, hlongest, hparse⟩ := prefixLength?_spec text
  have hplain : 0 < length → IsPlain (text.take length) := by
    intro hpos
    apply hlongest.mem_or_nil.resolve_right
    intro hnil
    have := congrArg List.length hnil
    rw [List.length_take, List.length_nil] at this
    omega
  have hzero : length = 0 → ¬ IsPlain (text.take length) := by
    rintro rfl hempty
    exact hempty.ne_nil rfl
  refine ⟨length, hlength, hle, hlongest, ?_, ?_, hplain, ?_, ?_⟩
  · constructor
    · rintro rfl other hother hfloat
      obtain ⟨literal, hliteral, hmem⟩ := hfloat.exists_plain
      have hshort := hlongest.longest literal (hliteral.trans hother) hmem
      exact hmem.ne_nil (List.length_eq_zero_iff.1 (Nat.le_zero.1 hshort))
    · intro hnone
      by_contra hpos
      exact hnone _ hlongest.isPrefix (hplain (Nat.pos_of_ne_zero hpos)).isFloat
  · intro b hb
    rcases hlongest.mem_or_nil with hmem | hnil
    · exact hmem.isAscii b hb
    · rw [hnil] at hb
      cases hb
  · rw [parse?_eq_none_iff]
    constructor
    · intro hnot
      by_contra hpos
      exact hnot (hplain (Nat.pos_of_ne_zero hpos))
    · exact hzero
  · intro source hsource hhex
    rw [floatValue, hsource, float?_eq_plain? hhex, ← hparse]
    cases plain? text <;> rfl

end Literal

end Tagged
