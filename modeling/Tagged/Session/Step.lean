import Tagged.Session.Console
import Tagged.Session.Files
import Tagged.Session.Operation
import Tagged.Session.Registry

/-!
# Steps

A step performs one operation and may keep the value that it answers in a variable.
-/

namespace Tagged

namespace Session

/-- Answers a value. -/
def answerValue : Except Fault Value × Session → Except Fault Answer × Session
  | (result, s) => (result.map .value, s)

/-- Answers whether a registration was accepted. -/
def answerFlag : Bool × Session → Except Fault Answer × Session
  | (accepted, s) => (.ok (.flag accepted), s)

/-- Answers nothing, or the failure. -/
def answerDone : Except Failure Unit × Session → Except Fault Answer × Session
  | (.ok (), s) => (.ok .nothing, s)
  | (.error failure, s) => (.ok (.failure failure), s)

/-- Writes some of the bytes, and answers how many or the failure. -/
def writeSome (s : Session) (bytes : Bytes) : Except Fault Answer × Session :=
  match s.output.write bytes with
  | (.ok n, output) => (.ok (.count n), s.setOutput output)
  | (.error failure, output) => (.ok (.failure failure), s.setOutput output)

/-- Releases the value in a slot. A variable keeps what is left of it. -/
def free (s : Session) (operand : Operand) : Except Fault Answer × Session :=
  let left := (operand.eval s).release
  match operand with
  | .named name => (.ok (.slot left), s.set name left)
  | _ => (.ok (.slot left), s)

/-- Sets the variable of the log filter, and answers what it now asks for. -/
def configure (s : Session) (value : Option Bytes) : Except Fault Answer × Session :=
  (.ok (.config (.ofVariable value)), { s with logVariable := value })

/-- Performs an operation. A fault leaves the session as it was. -/
def perform (s : Session) : Operation → Except Fault Answer × Session
  | .makeInt n => (.ok (.value (.int n)), s)
  | .makeFloat x => (.ok (.value (.float x)), s)
  | .makeBool flag => (.ok (.value (.bool (flag != 0))), s)
  | .makeVoid => (.ok (.value .void), s)
  | .makeString bytes => (.ok (.value (.ofBytes (bytes.getD []))), s)
  | .unary op v => answerValue (op.apply (v.eval s), s)
  | .binary op a b => (.ok (.value (op.apply (a.eval s) (b.eval s))), s)
  | .loadFile path => answerValue (s.loadFile (path.eval s))
  | .saveFile path content => answerValue (s.saveFile (path.eval s) (content.eval s))
  | .fileExists path => answerValue (s.fileExists (path.eval s))
  | .input =>
    let (line, s) := s.readLine
    (.ok (.value line), s)
  | .inputPrompt prompt => answerValue (s.prompt (prompt.eval s))
  | .sleep duration =>
    let (v, s) := s.sleep (duration.eval s)
    (.ok (.value v), s)
  | .print v newline => (.ok .nothing, s.print (v.eval s) newline)
  | .free none => (.ok .nothing, s)
  | .free (some operand) => s.free operand
  | .tag v => (.ok (.tag (v.eval s).tag), s)
  | .views v => (.ok (.views (v.eval s).views), s)
  | .equal a b => (.ok (.flag ((a.eval s).equal (b.eval s))), s)
  | .inspect v => (.ok (.text (v.eval s).inspect), s)
  | .display v => (.ok (.text (v.eval s).display), s)
  | .textInfo v => (.ok (.textInfo ((v.eval s).asText?.map Text.info)), s)
  | .general x => (.ok (.text (Utf8.lossy x.general)), s)
  | .parseInteger bytes => (.ok (.integer (Literal.integer? bytes)), s)
  | .parseFloat bytes => (.ok (.float (Literal.floatValue bytes)), s)
  | .validate v expected operation =>
    (((v.eval s).validate expected operation).map fun () => .nothing, s)
  | .expectText v operation =>
    (((v.eval s).expectText operation).map fun text => .bytes text.bytes, s)
  | .expectInt v operation =>
    (((v.eval s).expectInt operation).map fun n => .integer (some n), s)
  | .faultText fault => (.ok (.text fault.message), s)
  | .fatal fault => (.error fault, s)
  | .write bytes => s.writeSome bytes
  | .writeAll bytes => answerDone (s.writeAll bytes)
  | .flush => answerDone s.flush
  | .readClock => (.ok (.clock s.readClock), s)
  | .configure value => s.configure value
  | .putFile path content => (.ok .nothing, s.putFile path content)
  | .makeDirectories path => (.ok .nothing, { s with files := s.files.makeDirectories path })
  | .makeLink path target => (.ok .nothing, { s with files := s.files.makeLink path target })
  | .start => (.ok .nothing, s.start)
  | .installLogging config => answerFlag (s.installLogging config)
  | .installHandler handler => answerFlag (s.installHandler handler)
  | .registerCollector => answerFlag s.registerCollector
  | .collect =>
    let s := s.collect
    (.ok (.hooks (s.collector.getD {})), s)
  | .cleanUp =>
    let s := s.cleanUp
    (.ok (.hooks (s.collector.getD {})), s)

end Session

/-- An operation, and the variable that keeps its value. -/
structure Step where
  operation : Operation
  keep : Option String := none

/-- Keeps an answered value. -/
def Session.keep (s : Session) (name : Option String) : Answer → Session
  | .value v =>
    match name with
    | some name => s.set name v
    | none => s
  | _ => s

def Session.step (s : Session) (step : Step) : Except Fault Answer × Session :=
  match s.perform step.operation with
  | (.ok answer, s) => (.ok answer, s.keep step.keep answer)
  | (.error fault, s) => (.error fault, s)

end Tagged
