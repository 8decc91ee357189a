import Mathlib.Data.List.Basic
import Tagged.Proofs.Digits

/-!
# The grammar of float literals

The texts that denote a float, as a language of their own, and what it means that a scanner
reads the longest of them: what it reads is in the language, it reads the same when nothing
follows, and whatever literal stands at the front of a text is read at least.
-/

namespace Tagged

namespace Byte

def isHexDigit (b : UInt8) : Bool := (hexDigit? b).isSome

end Byte

namespace Literal

/-! ## Literals -/

def IsSign (text : Bytes) : Prop := text = [] ∨ text = [0x2b] ∨ text = [0x2d]

/-- Digits with at most one point among them. A digit stands before or after the point. -/
inductive IsMantissa (isDigit : UInt8 → Bool) : Bytes → Prop
  | whole {digits : Bytes} (hne : digits ≠ []) (hdigits : ∀ b ∈ digits, isDigit b = true) :
      IsMantissa isDigit digits
  | pointed {digits fraction : Bytes} (hne : digits ≠ [])
      (hdigits : ∀ b ∈ digits, isDigit b = true)
      (hfraction : ∀ b ∈ fraction, isDigit b = true) :
      IsMantissa isDigit (digits ++ 0x2e :: fraction)
  | fraction {fraction : Bytes} (hne : fraction ≠ [])
      (hfraction : ∀ b ∈ fraction, isDigit b = true) :
      IsMantissa isDigit (0x2e :: fraction)

inductive IsExponent (mark : UInt8) : Bytes → Prop
  | mk {letter : UInt8} {sign digits : Bytes} (hletter : Byte.toLower letter = mark)
      (hsign : IsSign sign) (hne : digits ≠ []) (hdigits : digits.AllDigits) :
      IsExponent mark (letter :: (sign ++ digits))

inductive IsNumber (isDigit : UInt8 → Bool) (mark : UInt8) : Bytes → Prop
  | plain {mantissa : Bytes} (hmantissa : IsMantissa isDigit mantissa) :
      IsNumber isDigit mark mantissa
  | scaled {mantissa exponent : Bytes} (hmantissa : IsMantissa isDigit mantissa)
      (hexponent : IsExponent mark exponent) : IsNumber isDigit mark (mantissa ++ exponent)

def IsDecimal : Bytes → Prop := IsNumber Byte.isDigit 0x65

def IsWord (text : Bytes) : Prop :=
  text.map Byte.toLower = ascii "inf" ∨ text.map Byte.toLower = ascii "infinity" ∨
    text.map Byte.toLower = ascii "nan"

inductive IsHexadecimal : Bytes → Prop
  | mk {x : UInt8} {body : Bytes} (hx : Byte.toLower x = 0x78)
      (hbody : IsNumber Byte.isHexDigit 0x70 body) : IsHexadecimal (0x30 :: x :: body)

def IsUnsigned (text : Bytes) : Prop := IsHexadecimal text ∨ IsWord text ∨ IsDecimal text

inductive IsFloat : Bytes → Prop
  | mk {sign body : Bytes} (hsign : IsSign sign) (hbody : IsUnsigned body) :
      IsFloat (sign ++ body)

/-! ## How literals begin -/

theorem IsMantissa.exists_cons {isDigit : UInt8 → Bool} {text : Bytes}
    (h : IsMantissa isDigit text) :
    ∃ b rest, text = b :: rest ∧ (isDigit b = true ∨ b = 0x2e) := by
  cases h with
  | whole hne hdigits =>
      obtain ⟨b, rest, rfl⟩ := List.exists_cons_of_ne_nil hne
      exact ⟨b, rest, rfl, .inl (hdigits b (by simp))⟩
  | pointed hne hdigits _ =>
      obtain ⟨b, rest, rfl⟩ := List.exists_cons_of_ne_nil hne
      exact ⟨b, _, rfl, .inl (hdigits b (by simp))⟩
  | fraction _ _ => exact ⟨_, _, rfl, .inr rfl⟩

theorem IsDecimal.exists_cons {text : Bytes} (h : IsDecimal text) :
    ∃ b rest, text = b :: rest ∧ (Byte.isDigit b = true ∨ b = 0x2e) := by
  cases h with
  | plain hmantissa => exact hmantissa.exists_cons
  | scaled hmantissa _ =>
      obtain ⟨b, rest, rfl, hb⟩ := hmantissa.exists_cons
      exact ⟨b, _, rfl, hb⟩

theorem IsWord.exists_cons {text : Bytes} (h : IsWord text) :
    ∃ b rest, text = b :: rest ∧ (Byte.toLower b = 0x69 ∨ Byte.toLower b = 0x6e) := by
  cases text with
  | nil => rcases h with h | h | h <;> cases h
  | cons b rest =>
      refine ⟨b, rest, rfl, ?_⟩
      rcases h with h | h | h
      · exact .inl (List.cons.inj h).1
      · exact .inl (List.cons.inj h).1
      · exact .inr (List.cons.inj h).1

/-! ## The longest literal -/

/-- The longest text of a language at the front of a text, or nothing if there is none. -/
structure IsLongestPrefix (language : Bytes → Prop) (text literal : Bytes) : Prop where
  isPrefix : literal <+: text
  mem_or_nil : language literal ∨ literal = []
  longest : ∀ other, other <+: text → language other → other.length ≤ literal.length

namespace IsLongestPrefix

variable {language : Bytes → Prop} {text left right : Bytes}

theorem length_le (hleft : IsLongestPrefix language text left)
    (hright : IsLongestPrefix language text right) : left.length ≤ right.length := by
  rcases hleft.mem_or_nil with hmem | hnil
  · exact hright.longest left hleft.isPrefix hmem
  · simp [hnil]

theorem unique (hleft : IsLongestPrefix language text left)
    (hright : IsLongestPrefix language text right) : left = right := by
  have hprefix : left <+: right :=
    List.prefix_of_prefix_length_le hleft.isPrefix hright.isPrefix (hleft.length_le hright)
  exact hprefix.eq_of_length_le (hright.length_le hleft)

end IsLongestPrefix

/-- The scanner takes the longest text of the language off the front, and what it makes of it
does not depend on the text behind it. -/
structure ReadsLongest {α : Type} (scan : Bytes → Option (α × Bytes))
    (language : Bytes → Prop) : Prop where
  sound : ∀ {text x rest}, scan text = some (x, rest) →
    ∃ literal, text = literal ++ rest ∧ language literal ∧ scan literal = some (x, [])
  complete : ∀ {literal}, language literal → ∀ more,
    ∃ x rest, scan (literal ++ more) = some (x, rest) ∧ rest.length ≤ more.length

namespace ReadsLongest

variable {α β : Type} {scan : Bytes → Option (α × Bytes)} {language other : Bytes → Prop}

theorem isLongestPrefix_nil (h : ReadsLongest scan language) {text : Bytes}
    (hscan : scan text = none) : IsLongestPrefix language text [] := by
  refine ⟨List.nil_prefix, .inr rfl, ?_⟩
  rintro literal ⟨more, rfl⟩ hliteral
  obtain ⟨x, rest, hsome, -⟩ := h.complete hliteral more
  rw [hscan] at hsome
  cases hsome

theorem isLongestPrefix_append (h : ReadsLongest scan language) {literal rest : Bytes} {x : α}
    (hliteral : language literal) (hscan : scan (literal ++ rest) = some (x, rest)) :
    IsLongestPrefix language (literal ++ rest) literal := by
  refine ⟨List.prefix_append _ _, .inl hliteral, ?_⟩
  rintro candidate ⟨more, heq⟩ hcandidate
  obtain ⟨y, behind, hsome, hle⟩ := h.complete hcandidate more
  rw [heq, hscan] at hsome
  cases hsome
  have hlength := congrArg List.length heq
  simp only [List.length_append] at hlength
  omega

theorem isLongestPrefix (h : ReadsLongest scan language) {text rest : Bytes} {x : α}
    (hscan : scan text = some (x, rest)) :
    ∃ literal, IsLongestPrefix language text literal ∧ language literal ∧
      scan literal = some (x, []) := by
  obtain ⟨literal, rfl, hliteral, hagain⟩ := h.sound hscan
  exact ⟨literal, h.isLongestPrefix_append hliteral hscan, hliteral, hagain⟩

theorem map (h : ReadsLongest scan language) (f : α → β) :
    ReadsLongest (fun text => (scan text).map (Prod.map f id)) language where
  sound {text y rest} hscan := by
    obtain ⟨⟨x, behind⟩, hsome, heq⟩ := Option.map_eq_some_iff.1 hscan
    cases heq
    obtain ⟨literal, htext, hliteral, hagain⟩ := h.sound hsome
    exact ⟨literal, htext, hliteral, by rw [hagain]; rfl⟩
  complete {literal} hliteral more := by
    obtain ⟨x, rest, hsome, hle⟩ := h.complete hliteral more
    exact ⟨f x, rest, by rw [hsome]; rfl, hle⟩

/-- Where the first of two scanners reads something, it has to read as much as the second. -/
theorem or {second : Bytes → Option (α × Bytes)} (h : ReadsLongest scan language)
    (hsecond : ReadsLongest second other)
    (hlonger : ∀ {text x y rest behind}, scan text = some (x, rest) →
      second text = some (y, behind) → rest.length ≤ behind.length) :
    ReadsLongest (fun text => (scan text).or (second text))
      (fun text => language text ∨ other text) where
  sound {text x rest} hscan := by
    rcases Option.or_eq_some_iff.1 hscan with hfound | ⟨hnone, hfound⟩
    · obtain ⟨literal, htext, hliteral, hagain⟩ := h.sound hfound
      exact ⟨literal, htext, .inl hliteral, by rw [hagain]; rfl⟩
    · obtain ⟨literal, htext, hliteral, hagain⟩ := hsecond.sound hfound
      -- what the first scanner reads of the literal it would have read of the whole text
      have hnothing : scan literal = none := by
        by_contra hsome
        obtain ⟨⟨y, behind⟩, hy⟩ := Option.ne_none_iff_exists'.1 hsome
        obtain ⟨inner, hinner, hmem, -⟩ := h.sound hy
        obtain ⟨z, back, hz, -⟩ := h.complete hmem (behind ++ rest)
        rw [← List.append_assoc, ← hinner, ← htext, hnone] at hz
        cases hz
      exact ⟨literal, htext, .inr hliteral, by rw [hnothing, Option.none_or, hagain]⟩
  complete {literal} hliteral more := by
    rcases hliteral with hliteral | hliteral
    · obtain ⟨x, rest, hsome, hle⟩ := h.complete hliteral more
      exact ⟨x, rest, by rw [hsome]; rfl, hle⟩
    · obtain ⟨y, behind, hy, hle⟩ := hsecond.complete hliteral more
      cases hscan : scan (literal ++ more) with
      | none => exact ⟨y, behind, by rw [Option.none_or, hy], hle⟩
      | some found => exact ⟨found.1, found.2, rfl, (hlonger hscan hy).trans hle⟩

end ReadsLongest

end Literal

end Tagged
