import Tagged.Session.Clock
import Tagged.Value.Arithmetic
import Tagged.Value.Strings

/-!
# Operations and answers

What a program can ask for, and what it is answered.
-/

namespace Tagged

/-- A literal or a variable. -/
inductive Operand where
  | int (n : Int64)
  | float (x : Binary64)
  | bytes (b : Bytes)
  | bool (b : Bool)
  | array
  | released
  | named (name : String)
deriving DecidableEq

def Operand.eval (s : Session) : Operand → Value
  | .int n => .int n
  | .float x => .float x
  | .bytes b => .ofBytes b
  | .bool b => .bool b
  | .array => .array
  | .released => .string .released
  | .named name => s.get name

/-- Operations of one value that change nothing. -/
inductive UnaryOp where
  | duplicate
  | toText
  | toInt
  | toFloat
  | stringToInt
  | intToString
  | abs
  | length
  | upper
  | lower
deriving DecidableEq, Repr

def UnaryOp.apply : UnaryOp → Value → Except Fault Value
  | .duplicate, v => .ok v.duplicate
  | .toText, v => .ok v.toText
  | .toInt, v => .ok v.toInt
  | .toFloat, v => .ok v.toFloat
  | .stringToInt, v => v.stringToInt
  | .intToString, v => v.intToString
  | .abs, v => .ok v.abs
  | .length, v => v.length
  | .upper, v => v.upper
  | .lower, v => v.lower

/-- Operations of two values that change nothing. -/
inductive BinaryOp where
  | max
  | min
  | pow
  | concat
deriving DecidableEq, Repr

def BinaryOp.apply : BinaryOp → Value → Value → Value
  | .max => Value.max
  | .min => Value.min
  | .pow => Value.pow
  | .concat => Value.concat

inductive Operation where
  | makeInt (n : Int64)
  | makeFloat (x : Binary64)
  /-- Any number but zero is true. -/
  | makeBool (flag : Int)
  | makeVoid
  /-- A string from bytes, or from nothing at all. -/
  | makeString (bytes : Option Bytes)
  | unary (op : UnaryOp) (operand : Operand)
  | binary (op : BinaryOp) (left right : Operand)
  | loadFile (path : Operand)
  | saveFile (path content : Operand)
  | fileExists (path : Operand)
  | input
  | inputPrompt (prompt : Operand)
  | sleep (duration : Operand)
  | print (operand : Operand) (newline : Bool)
  | free (operand : Option Operand)
  | tag (operand : Operand)
  | views (operand : Operand)
  | equal (left right : Operand)
  | inspect (operand : Operand)
  | display (operand : Operand)
  | textInfo (operand : Operand)
  | general (x : Binary64)
  | parseInteger (bytes : Bytes)
  | parseFloat (bytes : Bytes)
  | validate (operand : Operand) (expected : Tag) (operation : String)
  | expectText (operand : Operand) (operation : String)
  | expectInt (operand : Operand) (operation : String)
  | faultText (fault : Fault)
  | fatal (fault : Fault)
  | write (bytes : Bytes)
  | writeAll (bytes : Bytes)
  | flush
  | readClock
  /-- Sets or removes the variable of the log filter. -/
  | configure (value : Option Bytes)
  | putFile (path content : Bytes)
  | makeDirectories (path : Bytes)
  | makeLink (path target : Bytes)
  | start
  | installLogging (config : LogConfig)
  | installHandler (handler : FaultHandler)
  | registerCollector
  | collect
  | cleanUp

/-- A value seen as each tag. -/
structure Views where
  int : Option Int64
  float : Option Binary64
  bool : Option Bool
  bytes : Option Bytes
deriving DecidableEq

def Value.views (v : Value) : Views := ⟨v.asInt?, v.asFloat?, v.asBool?, v.asBytes?⟩

structure TextInfo where
  length : Nat
  isReleased : Bool
  lossy : String
  /-- A copy is released. -/
  copyReleased : Bool
deriving DecidableEq, Repr

def Text.info (t : Text) : TextInfo :=
  ⟨t.bytes.length, t.isReleased, t.lossy, t.duplicate.isReleased⟩

inductive Answer where
  | nothing
  | value (v : Value)
  /-- What a slot holds after its release. -/
  | slot (v : Value)
  | tag (tag : Tag)
  | views (views : Views)
  | flag (b : Bool)
  | text (text : String)
  | textInfo (info : Option TextInfo)
  | integer (n : Option Int64)
  | float (x : Binary64)
  | bytes (b : Bytes)
  | count (n : Nat)
  | failure (failure : Failure)
  | clock (reading : Session.ClockReading)
  | config (config : LogConfig)
  | hooks (counts : HookCounts)
deriving DecidableEq

end Tagged
