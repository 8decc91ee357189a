import Tagged.Failure
import Tagged.Utf8
import Tagged.Value.Fault

/-!
# Log events

What the library reports about itself, with the target and level that filters go by and
the line that is shown.
-/

namespace Tagged

inductive Level where
  | error
  | warn
  | info
  | debug
  | trace
deriving DecidableEq, Repr

namespace Level

/-- Higher is more verbose. -/
def verbosity : Level → Nat
  | .error => 1
  | .warn => 2
  | .info => 3
  | .debug => 4
  | .trace => 5

/-- The level's name in five columns. -/
def label : Level → String
  | .error => "ERROR"
  | .warn => " WARN"
  | .info => " INFO"
  | .debug => "DEBUG"
  | .trace => "TRACE"

end Level

inductive Event where
  | started (filter : String)
  | filterRejected (reason filter : String)
  | readFailed (path : Bytes) (failure : Failure)
  | writeFailed (path : Bytes) (failure : Failure)
  | lineTruncated (length kept : Nat)
  | inputFailed (failure : Failure)
  | promptFailed (failure : Failure)
  | sleepNotNumeric (tag : Tag)
  | nothingToCollect
  | nothingToCleanUp
  | fault (f : Fault)
deriving DecidableEq, Repr

namespace Event

def target : Event → String
  | .started _ => "yaf_runtime"
  | .filterRejected _ _ => "yaf_runtime::config"
  | .readFailed _ _ | .writeFailed _ _ | .lineTruncated _ _ | .inputFailed _ | .promptFailed _ =>
    "yaf_runtime::io"
  | .sleepNotNumeric _ => "yaf_runtime::time"
  | .nothingToCollect | .nothingToCleanUp => "yaf_runtime::gc"
  | .fault _ => "yaf_runtime::validate"

def level : Event → Level
  | .filterRejected _ _ => .warn
  | .nothingToCollect | .nothingToCleanUp => .trace
  | .fault _ => .error
  | _ => .debug

def text : Event → String
  | .started filter => "runtime initialized filter=" ++ filter
  | .filterRejected reason filter =>
    "ignoring invalid log filter err=" ++ reason ++ " filter=" ++ filter
  | .readFailed path failure =>
    "read_file failed path=" ++ Utf8.lossy path ++ " err=" ++ failure.message
  | .writeFailed path failure =>
    "write_file failed path=" ++ Utf8.lossy path ++ " err=" ++ failure.message
  | .lineTruncated length kept =>
    "input line truncated length=" ++ toString length ++ " kept=" ++ toString kept
  | .inputFailed failure => "reading stdin failed err=" ++ failure.message
  | .promptFailed failure => "writing prompt failed err=" ++ failure.message
  | .sleepNotNumeric tag => "sleep called with a non-numeric duration tag=" ++ tag.name
  | .nothingToCollect => "collect: no collector registered"
  | .nothingToCleanUp => "final_cleanup: no collector registered"
  | .fault f => "fatal runtime fault fault=" ++ f.message

def line (e : Event) : String := e.level.label ++ " " ++ e.text

end Event

end Tagged
