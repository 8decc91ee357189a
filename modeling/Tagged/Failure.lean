/-!
# Failures of the outside

What files and streams can answer instead of doing what was asked. A program never sees a
failure itself, only the sentinel value that an operation returns in its place.
-/

namespace Tagged

inductive Failure where
  | notFound
  | notDirectory
  | isDirectory
  | noSpace
  | nameTooLong
  | tooManyLinks
deriving DecidableEq, Repr

namespace Failure

def reason : Failure → String
  | .notFound => "No such file or directory"
  | .notDirectory => "Not a directory"
  | .isDirectory => "Is a directory"
  | .noSpace => "No space left on device"
  | .nameTooLong => "File name too long"
  | .tooManyLinks => "Too many levels of symbolic links"

/-- The system's number for the failure. -/
def code : Failure → Nat
  | .notFound => 2
  | .notDirectory => 20
  | .isDirectory => 21
  | .noSpace => 28
  | .nameTooLong => 36
  | .tooManyLinks => 40

def message (f : Failure) : String := f.reason ++ " (os error " ++ toString f.code ++ ")"

end Failure

end Tagged
