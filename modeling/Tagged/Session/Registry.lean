import Tagged.Session.State

/-!
# One-time registrations

The log subscriber, the fault handler and the collector are each installed once. The first
registration stays in force, and later ones are refused.
-/

namespace Tagged.Session

/-- Installs a subscriber for a configuration. A filter that cannot be read is replaced by
the default one and reported, to whichever subscriber is in force. -/
def installLogging (s : Session) (config : LogConfig) : Bool × Session :=
  let (filter, rejected) := s.filters.read config.filter
  let installed := s.subscriber.isNone
  let s := if installed then { s with subscriber := some filter } else s
  let s :=
    match rejected with
    | some reason => s.log (.filterRejected reason config.filter)
    | none => s
  (installed, s)

/-- Installs a subscriber as the environment asks for. -/
def start (s : Session) : Session :=
  let config := LogConfig.ofVariable s.logVariable
  let (installed, s) := s.installLogging config
  if installed then s.log (.started config.filter) else s

def installHandler (s : Session) (handler : FaultHandler) : Bool × Session :=
  match s.handler with
  | some _ => (false, s)
  | none => (true, { s with handler := some handler })

def registerCollector (s : Session) : Bool × Session :=
  match s.collector with
  | some _ => (false, s)
  | none => (true, { s with collector := some {} })

/-- Calls the collector's hook at a safe point. -/
def collect (s : Session) : Session :=
  match s.collector with
  | some counts => { s with collector := some { counts with collects := counts.collects + 1 } }
  | none => s.log .nothingToCollect

/-- Calls the collector's hook before the end. -/
def cleanUp (s : Session) : Session :=
  match s.collector with
  | some counts => { s with collector := some { counts with cleanups := counts.cleanups + 1 } }
  | none => s.log .nothingToCleanUp

end Tagged.Session
