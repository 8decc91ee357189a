import Tagged.Session.State

/-!
# File operations

A file that cannot be read gives the empty string, and a write that fails gives `false`.
The operands are checked before anything is touched.
-/

namespace Tagged.Session

def loadFile (s : Session) (path : Value) : Except Fault Value × Session :=
  match path.expectText "read_file" with
  | .error fault => (.error fault, s)
  | .ok path =>
    match s.files.read path.bytes with
    | .ok content => (.ok (.ofBytes content), s)
    | .error failure => (.ok (.ofBytes []), s.log (.readFailed path.bytes failure))

def saveFile (s : Session) (path content : Value) : Except Fault Value × Session :=
  match path.expectText "write_file" with
  | .error fault => (.error fault, s)
  | .ok path =>
    match content.expectText "write_file" with
    | .error fault => (.error fault, s)
    | .ok content =>
      match s.files.write path.bytes content.bytes with
      | .ok files => (.ok (.bool true), { s with files })
      | .error failure => (.ok (.bool false), s.log (.writeFailed path.bytes failure))

def fileExists (s : Session) (path : Value) : Except Fault Value × Session :=
  match path.expectText "file_exists" with
  | .error fault => (.error fault, s)
  | .ok path => (.ok (.bool (s.files.contains path.bytes)), s)

/-- Puts raw bytes into a file. -/
def putFile (s : Session) (path content : Bytes) : Session :=
  match s.files.write path content with
  | .ok files => { s with files }
  | .error _ => s

end Tagged.Session
