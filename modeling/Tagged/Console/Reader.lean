import Tagged.Byte

/-!
# Reading lines

A reader hands out its input in deliveries of any size. `Reader.line` takes one line off
it and keeps no more than a given number of bytes of that line; the rest of an overlong
line is consumed with it.
-/

namespace Tagged

/-- What one read gives. An empty chunk says that the input is at its end for now. -/
inductive Delivery (ε : Type) where
  | chunk (bytes : Bytes)
  | interrupted
  | failure (error : ε)
deriving DecidableEq, Repr

/-- The deliveries to come, and what every later read fails with; without it they find
the end of the input. -/
structure Reader (ε : Type) where
  pending : List (Delivery ε) := []
  ending : Option ε := none
deriving DecidableEq, Repr

/-- How much of a line was there and how much of it was kept. -/
structure Truncation where
  length : Nat
  kept : Nat
deriving DecidableEq, Repr

structure Line where
  text : Bytes
  truncation : Option Truncation
deriving DecidableEq, Repr

/-- A line that is being read: its first bytes, how many bytes it has so far, and whether
its line feed was found. -/
structure LineProgress where
  kept : Bytes := []
  seen : Nat := 0
  terminated : Bool := false
deriving DecidableEq, Repr

namespace LineProgress

def take (p : LineProgress) (limit : Nat) (bytes : Bytes) : LineProgress :=
  { p with kept := p.kept ++ bytes.take (limit - p.kept.length), seen := p.seen + bytes.length }

/-- The finished line, if there is one. A carriage return before the line feed is dropped
from a line that was kept whole. -/
def finish (p : LineProgress) : Option Line :=
  if p.seen == 0 && !p.terminated then none
  else if p.kept.length < p.seen then some ⟨p.kept, some ⟨p.seen, p.kept.length⟩⟩
  else if p.terminated && p.kept.getLast? == some 0x0d then some ⟨p.kept.dropLast, none⟩
  else some ⟨p.kept, none⟩

end LineProgress

namespace Reader

variable {ε : Type}

/-- All the bytes at once. -/
def ofBytes (bytes : Bytes) : Reader ε := { pending := [.chunk bytes] }

/-- Every read fails. -/
def failing (error : ε) : Reader ε := { ending := some error }

/-- Reads up to a line feed or the end of the input. Interrupted reads are repeated, and a
chunk that was used in part is put back. -/
def gather (limit : Nat) (ending : Option ε) (p : LineProgress) :
    List (Delivery ε) → Except ε LineProgress × List (Delivery ε)
  | [] =>
    match ending with
    | none => (.ok p, [])
    | some error => (.error error, [])
  | .interrupted :: rest => gather limit ending p rest
  | .failure error :: rest => (.error error, rest)
  | .chunk bytes :: rest =>
    if bytes.isEmpty then (.ok p, rest)
    else
      let p := p.take limit (bytes.takeWhile (· != 0x0a))
      match bytes.dropWhile (· != 0x0a) with
      | [] => gather limit ending p rest
      | _ :: after =>
        (.ok { p with terminated := true }, if after.isEmpty then rest else .chunk after :: rest)

/-- Takes a line off the reader. `none` is the end of the input. -/
def line (r : Reader ε) (limit : Nat) : Except ε (Option Line) × Reader ε :=
  let (result, pending) := gather limit r.ending {} r.pending
  (result.map LineProgress.finish, { r with pending })

/-- Takes several lines off the reader, one after the other. -/
def lines (r : Reader ε) (limit : Nat) : Nat → List (Except ε (Option Line))
  | 0 => []
  | calls + 1 =>
    let (result, r) := r.line limit
    result :: r.lines limit calls

end Reader

end Tagged
