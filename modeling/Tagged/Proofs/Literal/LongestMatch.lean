import Mathlib.Data.FinEnum
import Tagged.Proofs.Literal.Hexadecimal
import Tagged.Proofs.Literal.Numeral

/-!
# The longest float literal

Behind a sign, a hexadecimal literal comes before a decimal one or a word, and the longest
literal is read whichever it is. The number that a text denotes is that of the longest float
literal behind its blanks, and nothing behind the literal matters.
-/

namespace Tagged.Literal

def unsigned? (negative : Bool) (text : Bytes) : Option (Binary64 × Bytes) :=
  ((markedHexadecimal? text).map (Prod.map (fun x => if negative then x.neg else x) id)).or
    ((Numeral.scan? text).map (Prod.map (Numeral.value negative) id))

theorem float?_eq_unsigned? (text : Bytes) :
    float? text = unsigned? (Bytes.splitSign text).1 (Bytes.splitSign text).2 := by
  unfold float? unsigned?
  dsimp only
  cases markedHexadecimal? (Bytes.splitSign text).2 <;> rfl

theorem scan?_of_mark {x : UInt8} (hx : Byte.toLower x = 0x78) (text : Bytes) :
    Numeral.scan? (0x30 :: x :: text) = some (.decimal [0x30] [] 0, x :: text) := by
  have hdigit := Byte.isDigit_eq_false_of_toLower hx rfl
  have hpoint : x ≠ 0x2e := by
    rintro rfl
    cases hx
  have hzero : Byte.isDigit 0x30 = true := rfl
  simp [Numeral.scan?, Numeral.word?_of_isDigit hzero, Numeral.decimal?, hzero, hdigit,
    Numeral.fraction_cons_of_ne hpoint, exponent?, hx]

/-- A hexadecimal literal is longer than the zero in front of its letter. -/
theorem markedHexadecimal?_longer {text rest behind : Bytes} {x : Binary64} {y : Numeral}
    (hx : markedHexadecimal? text = some (x, rest))
    (hy : Numeral.scan? text = some (y, behind)) : rest.length ≤ behind.length := by
  obtain ⟨literal, rfl, hliteral, -⟩ := readsLongest_markedHexadecimal?.sound hx
  obtain ⟨hletter, -⟩ := hliteral
  rw [List.cons_append, List.cons_append, scan?_of_mark hletter] at hy
  cases hy
  simp only [List.length_cons, List.length_append]
  omega

theorem readsLongest_unsigned? (negative : Bool) :
    ReadsLongest (unsigned? negative) IsUnsigned := by
  apply (readsLongest_markedHexadecimal?.map _).or (Numeral.readsLongest_scan?.map _)
  intro text x y rest behind hx hy
  obtain ⟨⟨x', rest'⟩, hx', hrest⟩ := Option.map_eq_some_iff.1 hx
  obtain ⟨⟨y', behind'⟩, hy', hbehind⟩ := Option.map_eq_some_iff.1 hy
  cases hrest
  cases hbehind
  exact markedHexadecimal?_longer hx' hy'

theorem beginning_of_literal : ∀ b : UInt8,
    (Byte.isDigit b = true ∨ b = 0x2e) ∨ Byte.toLower b = 0x69 ∨ Byte.toLower b = 0x6e →
      (b ≠ 0x2d ∧ b ≠ 0x2b) ∧ Byte.isSpace b = false := by
  decide +kernel

theorem IsUnsigned.exists_cons {text : Bytes} (h : IsUnsigned text) :
    ∃ b rest, text = b :: rest ∧ (b ≠ 0x2d ∧ b ≠ 0x2b) ∧ Byte.isSpace b = false := by
  rcases h with hhex | hword | hdecimal
  · obtain ⟨-, -⟩ := hhex
    exact ⟨_, _, rfl, by decide, rfl⟩
  · obtain ⟨b, rest, htext, hb⟩ := hword.exists_cons
    exact ⟨b, rest, htext, beginning_of_literal b (.inr hb)⟩
  · obtain ⟨b, rest, htext, hb⟩ := hdecimal.exists_cons
    exact ⟨b, rest, htext, beginning_of_literal b (.inl hb)⟩

theorem IsUnsigned.noSignAhead {body : Bytes} (h : IsUnsigned body) (more : Bytes) :
    NoSignAhead (body ++ more) := by
  obtain ⟨b, rest, rfl, hb, -⟩ := h.exists_cons
  rintro c ⟨⟩
  exact hb

inductive Signed (language : Bytes → Prop) : Bytes → Prop
  | mk {sign body : Bytes} (hsign : IsSign sign) (hbody : language body) :
      Signed language (sign ++ body)

theorem isFloat_iff_signed (text : Bytes) : IsFloat text ↔ Signed IsUnsigned text := by
  constructor
  · rintro ⟨hsign, hbody⟩
    exact .mk hsign hbody
  · rintro ⟨hsign, hbody⟩
    exact .mk hsign hbody

/-- A scanner that is told the sign, and reads a language in which no text begins with one. -/
theorem ReadsLongest.signed {α : Type} {scan : Bool → Bytes → Option (α × Bytes)}
    {language : Bytes → Prop} (h : ∀ negative, ReadsLongest (scan negative) language)
    (hlanguage : ∀ {body}, language body → ∀ more, NoSignAhead (body ++ more)) :
    ReadsLongest (fun text => scan (Bytes.splitSign text).1 (Bytes.splitSign text).2)
      (Signed language) where
  sound {text x rest} hscan := by
    obtain ⟨sign, hsign, htext, hnegative⟩ := exists_sign text
    obtain ⟨body, hbody, hmem, hagain⟩ := (h _).sound hscan
    have hahead := hlanguage hmem []
    rw [List.append_nil] at hahead
    refine ⟨sign ++ body, ?_, .mk hsign hmem, ?_⟩
    · rw [List.append_assoc, ← hbody, ← htext]
    · rw [splitSign_append hsign hahead, ← hnegative, hagain]
  complete {literal} hliteral more := by
    obtain @⟨sign, body, hsign, hbody⟩ := hliteral
    obtain ⟨x, rest, hsome, hle⟩ := (h (sign == [0x2d])).complete hbody more
    refine ⟨x, rest, ?_, hle⟩
    rw [List.append_assoc, splitSign_append hsign (hlanguage hbody more), hsome]

theorem readsLongest_float? : ReadsLongest float? IsFloat := by
  rw [show IsFloat = Signed IsUnsigned from funext fun text => propext (isFloat_iff_signed text),
    show float? = fun text => unsigned? (Bytes.splitSign text).1 (Bytes.splitSign text).2 from
      funext float?_eq_unsigned?]
  exact ReadsLongest.signed readsLongest_unsigned? IsUnsigned.noSignAhead

theorem skipSpace_of_isFloat {literal : Bytes} (h : IsFloat literal) :
    Bytes.skipSpace literal = literal := by
  obtain @⟨sign, body, hsign, hbody⟩ := h
  rcases hsign with rfl | rfl | rfl
  · obtain ⟨b, rest, rfl, -, hspace⟩ := hbody.exists_cons
    simp [Bytes.skipSpace, hspace]
  · rfl
  · rfl

theorem exists_longest_literal (text : Bytes) :
    ∃ literal, IsLongestPrefix IsFloat (Bytes.skipSpace text) literal ∧
      floatValue text = floatValue literal ∧
      (literal = [] → floatValue text = .zero false) := by
  cases hscan : float? (Bytes.skipSpace text) with
  | none =>
      have hzero : floatValue text = .zero false := by rw [floatValue, hscan]
      exact ⟨[], readsLongest_float?.isLongestPrefix_nil hscan, hzero, fun _ => hzero⟩
  | some found =>
      obtain ⟨literal, hlongest, hliteral, hagain⟩ := readsLongest_float?.isLongestPrefix hscan
      refine ⟨literal, hlongest, ?_, ?_⟩
      · rw [floatValue, hscan, floatValue, skipSpace_of_isFloat hliteral, hagain]
      · rintro rfl
        cases hagain

/-- Exactly one text is the longest float literal behind the blanks of a text, or empty if none
stands there. The number that the text denotes is that of this literal alone, and zero if it is
empty, so any two texts with the same literal denote the same number. -/
theorem floatValue_of_longest_literal (text : Bytes) :
    ∃ literal,
      (∀ other, IsLongestPrefix IsFloat (Bytes.skipSpace text) other ↔ other = literal) ∧
      floatValue text = floatValue literal ∧
      (literal = [] → floatValue text = .zero false) ∧
      ∀ similar, IsLongestPrefix IsFloat (Bytes.skipSpace similar) literal →
        floatValue similar = floatValue text := by
  obtain ⟨literal, hlongest, hvalue, hzero⟩ := exists_longest_literal text
  refine ⟨literal, ?_, hvalue, hzero, ?_⟩
  · intro other
    constructor
    · intro hother
      exact hother.unique hlongest
    · rintro rfl
      exact hlongest
  · intro similar hsimilar
    obtain ⟨literal', hlongest', hvalue', -⟩ := exists_longest_literal similar
    rw [hvalue', hlongest'.unique hsimilar, hvalue]

end Tagged.Literal
