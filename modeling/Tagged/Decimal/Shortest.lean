import Tagged.Decimal.General

/-!
# Shortest decimals

The fewest digits that read back to a number. On each decimal grid, from the coarsest on,
only the two neighbours of the number can do so before a farther point does. If both do,
the nearer is taken, and the upper one of two equally near.
-/

namespace Tagged.Decimal

/-- The number `digits * 10 ^ exponent`. -/
structure Scaled where
  digits : Nat
  exponent : Int
deriving DecidableEq, Repr

namespace Scaled

/-- The decimal reads back to the finite absolute value with this pattern. -/
def readsBack (s : Scaled) (pattern : Nat) : Bool :=
  (Binary64.ofDecimal false s.digits s.exponent).magnitude == pattern

/-- The better of a value's two neighbours on the grid of multiples of `10 ^ exponent`, if
one reads back. -/
def neighbour? (pattern : Nat) (exponent : Int) : Option Scaled :=
  let (num, den) := inUnits (Binary64.patternUnits pattern) Binary64.unit exponent
  let lower : Scaled := ⟨num / den, exponent⟩
  let upper : Scaled := ⟨num / den + 1, exponent⟩
  match lower.readsBack pattern, upper.readsBack pattern with
  | true, true => some (if 2 * (num % den) < den then lower else upper)
  | true, false => some lower
  | false, true => some upper
  | false, false => none

/-- Seventeen digits tell any two numbers apart. -/
def maxDigits : Nat := 17

/-- The value itself, which has this many decimals at most. -/
def exactValue (pattern : Nat) : Scaled :=
  ⟨Binary64.patternUnits pattern * Nat.pow 5 1074, -1074⟩

/-- The shortest decimal of a positive finite absolute value. -/
def shortest (pattern : Nat) : Scaled :=
  let e := leadingExponent (Binary64.patternUnits pattern) Binary64.unit
  ((List.range maxDigits).findSome? fun (i : Nat) => neighbour? pattern (e - i)).getD (exactValue pattern)

/-- All digits in their places, without an exponent. -/
def text (s : Scaled) : Bytes :=
  let digits := decimal s.digits
  if 0 ≤ s.exponent then digits ++ List.replicate s.exponent.toNat 0x30
  else
    let places := s.exponent.natAbs
    let digits := List.replicate (places + 1 - digits.length) 0x30 ++ digits
    joinPoint (digits.take (digits.length - places)) (digits.drop (digits.length - places))

end Scaled

end Tagged.Decimal

namespace Tagged.Binary64

/-- The shortest text that reads back to the number, always positional. A NaN has no
sign here. -/
def shortest (x : Binary64) : Bytes :=
  if x.isNaN then ascii "NaN"
  else
    let unsigned :=
      if x.isInfinite then ascii "inf"
      else if x.isZero then ascii "0"
      else (Decimal.Scaled.shortest x.magnitude).text
    if x.negative then 0x2d :: unsigned else unsigned

end Tagged.Binary64
