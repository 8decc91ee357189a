import Tagged.Byte
import Tagged.Failure

/-!
# Standard output

Output is buffered. A device that accepts everything gets all bytes in order, whenever the
buffer is emptied. A full device accepts nothing: what fits the buffer seems written until
a flush fails, and what does not fit fails at once. Either way the buffered text is lost.
The first write sets the buffer up, and one that would fill it goes past it to the device.
-/

namespace Tagged

inductive Device where
  | accepting
  | full
deriving DecidableEq, Repr

/-- Writes are kept newest first, those that reached the device apart from those that are
still buffered. -/
structure Output where
  device : Device := .accepting
  delivered : List Bytes := []
  buffered : List Bytes := []
  /-- Something was written before, so the buffer is there. -/
  opened : Bool := false
deriving DecidableEq, Repr

namespace Output

/-- The size of the buffer. -/
def capacity : Nat := 4096

/-- The longest run that one write takes. -/
def maxRun : Nat := 2147483647

def bytes (o : Output) : Bytes := o.delivered.reverse.flatten

def bufferedSize (o : Output) : Nat := o.buffered.flatten.length

/-- A further run of the given length stays in the buffer. The first run does so only if it
leaves some room. -/
def fits (o : Output) (length : Nat) : Bool :=
  if o.opened then o.bufferedSize + length ≤ capacity else length < capacity

/-- Puts a run of bytes behind what was written before. -/
def put (o : Output) (run : Bytes) : Except Failure Unit × Output :=
  match o.device with
  | .accepting => (.ok (), { o with buffered := run :: o.buffered, opened := true })
  | .full =>
    if o.fits run.length then (.ok (), { o with buffered := run :: o.buffered, opened := true })
    else (.error .noSpace, { o with buffered := [], opened := true })

/-- Hands the buffered bytes to the device. -/
def flush (o : Output) : Except Failure Unit × Output :=
  match o.device, o.buffered with
  | .accepting, _ => (.ok (), { o with delivered := o.buffered ++ o.delivered, buffered := [] })
  | .full, [] => (.ok (), o)
  | .full, _ :: _ => (.error .noSpace, { o with buffered := [] })

/-- What one write takes off the front of the bytes: a NUL alone, or the bytes before the
next NUL. -/
def run : Bytes → Bytes
  | [] => []
  | b :: rest => if b == 0 then [0] else ((b :: rest).takeWhile (· != 0)).take maxRun

/-- Writes some of the bytes and answers how many. -/
def write (o : Output) (bytes : Bytes) : Except Failure Nat × Output :=
  if bytes.isEmpty then (.ok 0, o)
  else
    let (result, o) := o.put (run bytes)
    (result.map fun () => (run bytes).length, o)

theorem run_length_pos {bytes : Bytes} (h : bytes ≠ []) : 0 < (run bytes).length := by
  cases bytes with
  | nil => exact absurd rfl h
  | cons b rest =>
    by_cases hb : b = 0
    · simp [run, hb]
    · simp [run, hb, maxRun]

/-- A write of something that succeeds takes at least one byte. -/
theorem pos_of_write_eq_ok {o o' : Output} {bytes : Bytes} {n : Nat} (h : bytes ≠ [])
    (hw : o.write bytes = (.ok n, o')) : 0 < n := by
  have he : bytes.isEmpty = false := by simp [h]
  simp only [write, he, Bool.false_eq_true, if_false, Prod.mk.injEq] at hw
  have hn := hw.1
  cases hp : (o.put (run bytes)).1 with
  | error e => simp [hp, Except.map] at hn
  | ok u =>
    simp only [hp, Except.map, Except.ok.injEq] at hn
    exact hn ▸ run_length_pos h

theorem drop_length_lt {bytes : Bytes} {n : Nat} (h : bytes ≠ []) (hn : 0 < n) :
    (bytes.drop n).length < bytes.length := by
  have := List.length_pos_iff.2 h
  simp only [List.length_drop]
  omega

/-- Repeats `write` until no bytes are left or one fails. -/
def writeAll (o : Output) (bytes : Bytes) : Except Failure Unit × Output :=
  if h : bytes = [] then (.ok (), o)
  else
    match hw : o.write bytes with
    | (.error failure, o) => (.error failure, o)
    | (.ok n, o) =>
      have := drop_length_lt h (pos_of_write_eq_ok h hw)
      o.writeAll (bytes.drop n)
termination_by bytes.length
decreasing_by exact this

end Output

end Tagged
