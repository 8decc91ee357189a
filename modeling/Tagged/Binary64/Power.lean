import Tagged.Binary64.Round

/-!
# Powers

The exceptional operands of a power are settled here one by one. What remains is a
positive finite base with a finite non-zero exponent, whose power is the platform's.
-/

namespace Tagged.Binary64

/-- The platform's power of a positive finite base. -/
def platformPower (base exponent : Binary64) : Binary64 :=
  ofBits (Float.pow (Float.ofBits base.toBits) (Float.ofBits exponent.toBits)).toBits

/-- A power whose base is zero or infinite: it vanishes or grows without bound, and an
odd exponent keeps the sign of the base. -/
def extremePower (base exponent : Binary64) : Binary64 :=
  let negative := base.negative && exponent.isOddInteger
  if base.isZero == exponent.negative then infinity negative else zero negative

/-- A power whose exponent is infinite depends on how the base compares with one. -/
def infinitePower (base exponent : Binary64) : Binary64 :=
  if base.abs = one then one
  else if one.less base.abs == exponent.negative then zero false
  else infinity false

/-- A zero exponent and the base one outweigh a quiet NaN, but not a signalling one. -/
def pow (base exponent : Binary64) : Binary64 :=
  if base.isSignalling || exponent.isSignalling then nan false
  else if exponent.isZero || base = one then one
  else if base.isNaN || exponent.isNaN then nan false
  else if exponent.isInfinite then infinitePower base exponent
  else if base.isZero || base.isInfinite then extremePower base exponent
  else if !base.negative then platformPower base exponent
  else if !exponent.isInteger then nan false
  else
    let power := platformPower base.abs exponent
    if exponent.isOddInteger then power.neg else power

end Tagged.Binary64
