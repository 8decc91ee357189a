import Tagged.Byte
import Tagged.Failure

/-!
# File trees

A tree maps locations to files, directories and symbolic links. A location is the list of
names that leads to it from the working directory, which is the root of the tree. There are no
permissions, so that whatever a path leads to can be read and written, and no devices, pipes or
other special files. In particular no path names a standard stream: files and streams are
changed by different operations, and nothing outside the program changes either.
-/

namespace Tagged

abbrev Location := List Bytes

inductive Entry where
  | file (content : Bytes)
  | directory
  | link (target : Bytes)
deriving DecidableEq, Repr

structure FileTree where
  entries : List (Location × Entry) := []
deriving DecidableEq, Repr

namespace FileTree

def get? (t : FileTree) (loc : Location) : Option Entry :=
  if loc = [] then some .directory else t.entries.lookup loc

def put (t : FileTree) (loc : Location) (entry : Entry) : FileTree :=
  ⟨(loc, entry) :: t.entries.filter (·.1 != loc)⟩

end FileTree

/-- A path cut at its slashes. A slash at the end asks for a directory. -/
structure Path where
  absolute : Bool
  names : List Bytes
  slash : Bool
deriving DecidableEq, Repr

namespace Path

def splitSlash : Bytes → List Bytes
  | [] => [[]]
  | b :: rest =>
    match splitSlash rest with
    | [] => [[b]]
    | name :: names => if b == 0x2f then [] :: name :: names else (b :: name) :: names

def ofBytes (bytes : Bytes) : Path where
  absolute := bytes.head? == some 0x2f
  names := (splitSlash bytes).filter (!·.isEmpty)
  slash := bytes.getLast? == some 0x2f

/-- The longest path that is accepted, in bytes. -/
def maxLength : Nat := 4095

/-- The longest name that is accepted, in bytes. -/
def maxNameLength : Nat := 255

end Path

end Tagged
