import Tagged.Files.Resolve

/-!
# Reading and writing files

A write creates the file or replaces its content, through links if there are any. A write
that fails leaves the tree as it was.
-/

namespace Tagged.FileTree

def read (t : FileTree) (path : Bytes) : Except Failure Bytes :=
  match t.resolve .lookup path with
  | .error failure => .error failure
  | .ok (.missing _ _) => .error .notFound
  | .ok (.found loc) =>
    match t.get? loc with
    | some (.file content) => .ok content
    | _ => .error .isDirectory

def write (t : FileTree) (path content : Bytes) : Except Failure FileTree :=
  match t.resolve .create path with
  | .error failure => .error failure
  | .ok (.missing parent name) => .ok (t.put (parent ++ [name]) (.file content))
  | .ok (.found loc) =>
    match t.get? loc with
    | some (.file _) => .ok (t.put loc (.file content))
    | _ => .error .isDirectory

/-- The path leads to a file or a directory. -/
def contains (t : FileTree) (path : Bytes) : Bool :=
  match t.resolve .lookup path with
  | .ok (.found _) => true
  | _ => false

/-- Creates the directories that are missing along a path. -/
def makeDirectories (t : FileTree) (path : Bytes) : FileTree :=
  let names := (Path.ofBytes path).names
  (List.range names.length).foldl makePart t
where
  makePart (t : FileTree) (i : Nat) : FileTree :=
    match t.walk .lookup maxLinks false [] ((Path.ofBytes path).names.take (i + 1)) with
    | .ok (.missing parent name, _) => t.put (parent ++ [name]) .directory
    | _ => t

/-- Creates a link where nothing is yet. -/
def makeLink (t : FileTree) (path target : Bytes) : FileTree :=
  let names := (Path.ofBytes path).names
  match names.getLast?, t.walk .lookup maxLinks true [] names.dropLast with
  | some name, .ok (.found parent, _) =>
    if (t.get? (parent ++ [name])).isSome then t else t.put (parent ++ [name]) (.link target)
  | _, _ => t

end Tagged.FileTree
