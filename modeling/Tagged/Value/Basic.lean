import Tagged.Binary64.Basic
import Tagged.Text.Basic

/-!
# Values

A value carries its tag at run time. Arrays are a reserved tag without contents.
-/

namespace Tagged

inductive Tag where
  | int
  | float
  | string
  | bool
  | array
deriving DecidableEq, Repr

namespace Tag

/-- The discriminant that stands for the tag in a value's layout. -/
def code : Tag → Nat
  | .int => 0
  | .float => 1
  | .string => 2
  | .bool => 3
  | .array => 4

def name : Tag → String
  | .int => "Int"
  | .float => "Float"
  | .string => "String"
  | .bool => "Bool"
  | .array => "Array"

end Tag

inductive Value where
  | int (n : Int64)
  | float (x : Binary64)
  | string (text : Text)
  | bool (b : Bool)
  | array
deriving DecidableEq

namespace Value

/-- A live string; it ends at the first NUL byte. -/
def ofBytes (bytes : Bytes) : Value := .string (.ofBytes bytes)

/-- What stands where a function has no result. -/
def void : Value := .int 0

instance : Inhabited Value := ⟨void⟩

def tag : Value → Tag
  | .int _ => .int
  | .float _ => .float
  | .string _ => .string
  | .bool _ => .bool
  | .array => .array

theorem exists_eq_int {v : Value} (h : v.tag = .int) : ∃ n, v = .int n := by
  cases v with
  | int n => exact ⟨n, rfl⟩
  | _ => cases h

theorem exists_eq_string {v : Value} (h : v.tag = .string) : ∃ text, v = .string text := by
  cases v with
  | string text => exact ⟨text, rfl⟩
  | _ => cases h

def asInt? : Value → Option Int64
  | .int n => some n
  | _ => none

def asFloat? : Value → Option Binary64
  | .float x => some x
  | _ => none

def asBool? : Value → Option Bool
  | .bool b => some b
  | _ => none

def asText? : Value → Option Text
  | .string text => some text
  | _ => none

/-- The bytes of a string; a released one has none. -/
def asBytes? (v : Value) : Option Bytes := v.asText?.map Text.bytes

/-- A copy that shares nothing; strings become live. -/
def duplicate : Value → Value
  | .string text => .string text.duplicate
  | v => v

/-- What is left of a value after its release. -/
def release : Value → Value
  | .string _ => .string .released
  | v => v

/-- Same tag and equal payload: floats by numeric equality, strings by their bytes. -/
def equal : Value → Value → Bool
  | .int m, .int n => m == n
  | .float x, .float y => x.equal y
  | .string s, .string t => s.bytes == t.bytes
  | .bool a, .bool b => a == b
  | .array, .array => true
  | _, _ => false

end Value

end Tagged
