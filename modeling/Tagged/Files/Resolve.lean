import Tagged.Files.Tree

/-!
# Path resolution

A path is walked name by name from the working directory. `advance` walks up to the first
symbolic link on the way, `walk` follows links until none is met, and no more of them than
`maxLinks`.
-/

namespace Tagged

/-- What a path is resolved for. Creating a file refuses a name with a slash behind it. -/
inductive Purpose where
  | lookup
  | create
deriving DecidableEq, Repr

/-- Where a path without links on it leads. -/
inductive Arrival where
  | found (loc : Location)
  | missing (parent : Location) (name : Bytes)
deriving DecidableEq, Repr

/-- How far a path can be walked without following a link. -/
inductive Advance where
  | arrived (arrival : Arrival)
  | link (directory : Location) (target : Bytes) (rest : List Bytes)
  | blocked (failure : Failure)
deriving DecidableEq, Repr

namespace FileTree

/-- Walks from `here` until a link, the end or an obstacle. -/
def advance (t : FileTree) (purpose : Purpose) (slash : Bool) (here : Location) :
    List Bytes → Advance
  | [] => .arrived (.found here)
  | name :: rest =>
    if t.get? here ≠ some .directory then .blocked .notDirectory
    else if name = [0x2e] then advance t purpose slash here rest
    else if name = [0x2e, 0x2e] then advance t purpose slash here.dropLast rest
    else if rest.isEmpty && slash && purpose = .create then .blocked .isDirectory
    else if Path.maxNameLength < name.length then .blocked .nameTooLong
    else
      match t.get? (here ++ [name]) with
      | some (.link target) => .link here target rest
      | some _ => advance t purpose slash (here ++ [name]) rest
      | none => if rest.isEmpty then .arrived (.missing here name) else .blocked .notFound

/-- The most links that are followed on the way. -/
def maxLinks : Nat := 40

/-- Walks from `here` and follows up to `links` links. Behind a link at the end of a path,
either slash asks for a directory. -/
def walk (t : FileTree) (purpose : Purpose) :
    (links : Nat) → Bool → Location → List Bytes → Except Failure (Arrival × Bool)
  | links, slash, here, names =>
    match t.advance purpose slash here names with
    | .arrived arrival => .ok (arrival, slash)
    | .blocked failure => .error failure
    | .link directory target rest =>
      match links with
      | 0 => .error .tooManyLinks
      | links + 1 =>
        let path := Path.ofBytes target
        walk t purpose links (slash || (rest.isEmpty && path.slash))
          (if path.absolute then [] else directory) (path.names ++ rest)

/-- Something is found there that is no directory. -/
def isPlain (t : FileTree) : Arrival → Bool
  | .found loc => t.get? loc ≠ some .directory
  | .missing _ _ => false

/-- Where a path leads. A slash at its end refuses what is no directory. -/
def resolve (t : FileTree) (purpose : Purpose) (path : Bytes) : Except Failure Arrival :=
  if path.isEmpty then .error .notFound
  else if Path.maxLength < path.length then .error .nameTooLong
  else
    match t.walk purpose maxLinks (Path.ofBytes path).slash [] (Path.ofBytes path).names with
    | .error failure => .error failure
    | .ok (arrival, slash) =>
      if slash && t.isPlain arrival then .error .notDirectory else .ok arrival

end FileTree

end Tagged
