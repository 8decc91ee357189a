import Tagged.Session.Step

/-!
# Runs

A run performs steps in order until they are done or one of them faults.
-/

namespace Tagged

/-- What is left of a run: the answers of the steps before a fault, the fault, and the
session as the program left it. -/
structure Report where
  answers : List Answer
  fault : Option Fault
  final : Session

namespace Session

/-- The end of a program. What is still buffered goes to the device. -/
def exit (s : Session) : Session := s.flush.2

/-- The end of a program that faults: the event, the handler, the flush, and the fault's
text, in this order. -/
def terminate (s : Session) (fault : Fault) : Session :=
  let s := s.log (.fault fault)
  let s :=
    match s.handler with
    | some handler => { s with notices := .handled (handler.report fault) :: s.notices }
    | none => s
  let s := s.flush.2
  { s with notices := .terminated fault :: s.notices }

def run (s : Session) : List Step → Report
  | [] => ⟨[], none, s.exit⟩
  | step :: rest =>
    match s.step step with
    | (.ok answer, s) =>
      let report := s.run rest
      { report with answers := answer :: report.answers }
    | (.error fault, s) => ⟨[], some fault, s.terminate fault⟩

end Session

namespace Report

/-- Zero for a program that came to its end, one after a fault. -/
def exitStatus (r : Report) : Nat := if r.fault.isSome then 1 else 0

def outputBytes (r : Report) : Bytes := r.final.output.bytes

def errorText (r : Report) : String := r.final.errorText

end Report

end Tagged
