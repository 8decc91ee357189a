/-!
# Binary64 numbers

A binary64 number is a sign and a 63-bit magnitude pattern. Patterns are ordered as
the absolute values that they stand for: zero, the subnormals, the normals, infinity,
and above infinity the NaNs.

Every finite absolute value is a natural multiple of `2 ^ -1074`, the least positive
one. `units` is that multiple, so exact statements about finite numbers are statements
about natural numbers.
-/

namespace Tagged

structure Binary64 where
  negative : Bool
  magnitude : Nat
  magnitude_lt : magnitude < 0x8000000000000000
deriving DecidableEq

namespace Binary64

/-- The pattern of infinity; every larger pattern is a NaN. -/
def infinityPattern : Nat := 0x7ff0000000000000

/-- The number with the given sign and pattern, or infinity if the pattern is larger. -/
def ofPattern (negative : Bool) (pattern : Nat) : Binary64 where
  negative := negative
  magnitude := min pattern infinityPattern
  magnitude_lt := by
    have : min pattern infinityPattern ≤ infinityPattern := Nat.min_le_right ..
    exact Nat.lt_of_le_of_lt this (by decide)

def zero (negative : Bool) : Binary64 := ⟨negative, 0, by decide⟩

def infinity (negative : Bool) : Binary64 := ⟨negative, infinityPattern, by decide⟩

def nan (negative : Bool) : Binary64 := ⟨negative, 0x7ff8000000000000, by decide⟩

def one : Binary64 := ⟨false, 0x3ff0000000000000, by decide⟩

instance : Inhabited Binary64 := ⟨zero false⟩

def ofBits (bits : UInt64) : Binary64 where
  negative := 0x8000000000000000 ≤ bits.toNat
  magnitude := bits.toNat % 0x8000000000000000
  magnitude_lt := Nat.mod_lt _ (by decide)

def toBits (x : Binary64) : UInt64 :=
  ((if x.negative then 0x8000000000000000 else 0) + x.magnitude).toUInt64

def isNaN (x : Binary64) : Bool := infinityPattern < x.magnitude

/-- The pattern of the least quiet NaN; the NaNs below it are signalling. -/
def quietPattern : Nat := 0x7ff8000000000000

def isSignalling (x : Binary64) : Bool := x.isNaN && x.magnitude < quietPattern

def isInfinite (x : Binary64) : Bool := x.magnitude == infinityPattern

def isFinite (x : Binary64) : Bool := x.magnitude < infinityPattern

def isZero (x : Binary64) : Bool := x.magnitude == 0

def neg (x : Binary64) : Binary64 := { x with negative := !x.negative }

def abs (x : Binary64) : Binary64 := { x with negative := false }

/-- The scale of `units`: a finite absolute value is `units / unit`. -/
def unit : Nat := Nat.pow 2 1074

/-- How many patterns share an exponent, `2 ^ 52`. -/
def binade : Nat := 0x10000000000000

/-- What a pattern stands for, in multiples of `2 ^ -1074`. -/
def patternUnits (pattern : Nat) : Nat :=
  if pattern < binade then pattern
  else (binade + pattern % binade) * Nat.pow 2 (pattern / binade - 1)

/-- The absolute value in multiples of `2 ^ -1074`. -/
def units (x : Binary64) : Nat := patternUnits x.magnitude

/-- The signed pattern. It orders all numbers that are no NaN, and joins the zeros. -/
def rank (x : Binary64) : Int := if x.negative then -x.magnitude else x.magnitude

/-- Numeric equality: a NaN differs from everything and the zeros are equal. -/
def equal (x y : Binary64) : Bool := !x.isNaN && !y.isNaN && x.rank == y.rank

def less (x y : Binary64) : Bool := !x.isNaN && !y.isNaN && x.rank < y.rank

/-- The larger number; a NaN gives way to the other operand. -/
def max (x y : Binary64) : Binary64 :=
  if x.isNaN then y else if y.isNaN then x else if x.rank < y.rank then y else x

/-- The smaller number; a NaN gives way to the other operand. -/
def min (x y : Binary64) : Binary64 :=
  if x.isNaN then y else if y.isNaN then x else if y.rank < x.rank then y else x

/-- A finite number without a fractional part. -/
def isInteger (x : Binary64) : Bool := x.isFinite && x.units % unit == 0

def isOddInteger (x : Binary64) : Bool := x.isInteger && x.units / unit % 2 == 1

end Binary64

end Tagged
