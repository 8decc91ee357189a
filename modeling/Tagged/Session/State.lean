import Tagged.Console.Output
import Tagged.Console.Reader
import Tagged.Files.Access
import Tagged.Log.Directive

/-!
# Sessions

The state of a running program, as far as its operations can change or show it: the
variables, the files, the standard streams and the one-time registrations.
-/

namespace Tagged

/-- A fault handler, given by the line that it writes to standard error. -/
structure FaultHandler where
  report : Fault → String

/-- A line on standard error. -/
inductive Notice where
  | event (e : Event)
  | handled (report : String)
  | terminated (f : Fault)
deriving DecidableEq, Repr

def Notice.line : Notice → String
  | .event e => e.line
  | .handled report => report
  | .terminated f => f.message

/-- How often the hooks of the registered collector were called. -/
structure HookCounts where
  collects : Nat := 0
  cleanups : Nat := 0
deriving DecidableEq, Repr

structure Session where
  bindings : List (String × Value) := []
  files : FileTree := {}
  input : Reader Failure := {}
  output : Output := {}
  /-- Lines on standard error, newest first. -/
  notices : List Notice := []
  /-- The language of log filters. No operation changes it. -/
  filters : FilterLanguage := .plain
  /-- The environment variable that the log filter is read from. -/
  logVariable : Option Bytes := none
  /-- The filter of the log subscriber, once one is installed. -/
  subscriber : Option Filter := none
  /-- The fault handler, once one is installed. -/
  handler : Option FaultHandler := none
  /-- The counts of the collector, once one is registered. -/
  collector : Option HookCounts := none
  /-- Milliseconds since the epoch. -/
  clock : Nat := 0

namespace Session

/-- A variable that was never set holds the void value. -/
def get (s : Session) (name : String) : Value := (s.bindings.lookup name).getD .void

def set (s : Session) (name : String) (v : Value) : Session :=
  { s with bindings := (name, v) :: s.bindings.filter (·.1 != name) }

/-- Reports an event to the subscriber, which shows it if its filter does. -/
def log (s : Session) (e : Event) : Session :=
  match s.subscriber with
  | some filter => if filter.shows e then { s with notices := .event e :: s.notices } else s
  | none => s

def setInput (s : Session) (input : Reader Failure) : Session := { s with input }

def setOutput (s : Session) (output : Output) : Session := { s with output }

/-- The text on standard error. -/
def errorText (s : Session) : String :=
  String.join (s.notices.reverse.map fun n => n.line ++ "\n")

end Session

end Tagged
