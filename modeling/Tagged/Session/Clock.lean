import Tagged.Binary64.Round
import Tagged.Session.State

/-!
# Time

Readings of the clock are integers. Sleeping takes whole seconds, so no duration below one
second, and none without a numeric meaning, keeps the program waiting.
-/

namespace Tagged.Session

/-- Seconds since the epoch. -/
def now (s : Session) : Value := .int (Int64.ofInt (s.clock / 1000))

/-- Milliseconds since the epoch. -/
def nowMillis (s : Session) : Value := .int (Int64.ofInt s.clock)

/-- The seconds that a value asks to wait. -/
def duration? : Value → Option Int64
  | .int n => some n
  | .float x => some x.toInt64
  | _ => none

/-- Waits. Nothing of the session changes while it does. -/
def sleep (s : Session) (v : Value) : Value × Session :=
  match duration? v with
  | some _ => (.bool true, s)
  | none => (.bool true, s.log (.sleepNotNumeric v.tag))

/-- The tags of two readings, and whether they agree with each other and with the calendar. -/
structure ClockReading where
  now : Tag
  millis : Tag
  after2020 : Bool
  ordered : Bool
deriving DecidableEq, Repr

/-- The first second of 2020. -/
def secondsTo2020 : Int := 1577836800

def readClock (s : Session) : ClockReading :=
  let seconds := (s.now.asInt?.getD 0).toInt
  let millis := (s.nowMillis.asInt?.getD 0).toInt
  { now := s.now.tag
    millis := s.nowMillis.tag
    after2020 := secondsTo2020 < seconds
    ordered := seconds * 1000 ≤ millis && millis < (seconds + 1) * 1000 }

end Tagged.Session
