import Tagged.Binary64.Basic

/-!
# Rounding to binary64

`roundHalfEven` rounds a quotient to an integer, `Binary64.ofRatio` a rational number to
binary64, both to nearest with ties to even. Everything else that rounds goes through
these two.
-/

namespace Tagged

/-- The integer nearest to `num / den`; of two equally near ones the even one. -/
def roundHalfEven (num den : Nat) : Nat :=
  let quotient := num / den
  let twice := 2 * (num % den)
  if twice < den || (twice == den && quotient % 2 == 0) then quotient else quotient + 1

namespace Binary64

/-- The pattern nearest to `num / den` units. Patterns of one exponent `e` are `2 ^ e`
units apart, and `e` is what leaves 53 bits of the quotient; a carry out of those bits
runs into the exponent, where it belongs. -/
def roundPattern (num den : Nat) : Nat :=
  let e := (num / den).log2 - 52
  e * binade + roundHalfEven num (den * Nat.pow 2 e)

/-- The number nearest to `num / den`, with ties to even; infinity from the midpoint above
the largest finite number on. -/
def ofRatio (negative : Bool) (num den : Nat) : Binary64 :=
  ofPattern negative (roundPattern (num * unit) den)

/-- The number nearest to an integer. -/
def ofInt (i : Int) : Binary64 := ofRatio (i < 0) i.natAbs 1

/-- The number nearest to `significand * 10 ^ exponent`. -/
def ofDecimal (negative : Bool) (significand : Nat) (exponent : Int) : Binary64 :=
  if 0 ≤ exponent then ofRatio negative (significand * Nat.pow 10 exponent.toNat) 1
  else ofRatio negative significand (Nat.pow 10 exponent.natAbs)

/-- The product, rounded once. Zero times infinity is the NaN with its sign bit set. -/
def mul (x y : Binary64) : Binary64 :=
  if x.isNaN then x
  else if y.isNaN then y
  else if (x.isZero && y.isInfinite) || (x.isInfinite && y.isZero) then nan true
  else if x.isInfinite || y.isInfinite then infinity (x.negative != y.negative)
  else ofRatio (x.negative != y.negative) (x.units * y.units) (unit * unit)

/-- Two to the power `k`: infinity above the range of exponents, zero below it. -/
def powerOfTwo (k : Int) : Binary64 :=
  if 0 ≤ k then ofRatio false (Nat.pow 2 k.toNat) 1 else ofRatio false 1 (Nat.pow 2 k.natAbs)

end Binary64

/-- The nearest integer that a 64-bit signed word holds. -/
def clampInt64 (i : Int) : Int := max (-0x8000000000000000) (min i 0x7fffffffffffffff)

/-- Rounds toward zero. A number beyond the range gives the end of it, a NaN gives zero. -/
def Binary64.toInt64 (x : Binary64) : Int64 :=
  if x.isNaN then 0
  else
    let whole : Int := x.units / unit
    Int64.ofInt (clampInt64 (if x.negative then -whole else whole))

end Tagged
