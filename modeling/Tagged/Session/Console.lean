import Tagged.Session.State
import Tagged.Value.Render

/-!
# Console operations

Printing, prompting and reading a line. Failures of the streams are logged at most: a line
that cannot be read is empty.
-/

namespace Tagged.Session

/-- The longest line that is kept, in bytes. -/
def inputLimit : Nat := 1023

/-- Writes all bytes and reports a failure. -/
def writeAll (s : Session) (bytes : Bytes) : Except Failure Unit × Session :=
  let (result, output) := s.output.writeAll bytes
  (result, s.setOutput output)

def flush (s : Session) : Except Failure Unit × Session :=
  let (result, output) := s.output.flush
  (result, s.setOutput output)

/-- Prints a value's text. Nothing more is written after a failure. -/
def print (s : Session) (v : Value) (newline : Bool) : Session :=
  match s.writeAll v.render with
  | (.ok (), s) => if newline then (s.writeAll [0x0a]).2 else s
  | (.error _, s) => s

/-- Takes a line off standard input. -/
def readLine (s : Session) : Value × Session :=
  let (result, input) := s.input.line inputLimit
  let s := s.setInput input
  match result with
  | .ok (some line) =>
    match line.truncation with
    | some cut => (.ofBytes line.text, s.log (.lineTruncated cut.length cut.kept))
    | none => (.ofBytes line.text, s)
  | .ok none => (.ofBytes [], s)
  | .error failure => (.ofBytes [], s.log (.inputFailed failure))

/-- Writes a prompt and makes it visible. -/
def showPrompt (s : Session) (prompt : Bytes) : Session :=
  match s.writeAll prompt with
  | (.error failure, s) => s.log (.promptFailed failure)
  | (.ok (), s) =>
    match s.flush with
    | (.error failure, s) => s.log (.promptFailed failure)
    | (.ok (), s) => s

/-- Asks for a line. -/
def prompt (s : Session) (v : Value) : Except Fault Value × Session :=
  match v.expectText "input_prompt" with
  | .error fault => (.error fault, s)
  | .ok text =>
    let (line, s) := (s.showPrompt text.bytes).readLine
    (.ok line, s)

end Tagged.Session
