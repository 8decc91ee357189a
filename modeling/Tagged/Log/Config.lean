import Tagged.Text.Blank
import Tagged.Utf8

/-!
# Log configuration

The filter comes from a variable of the environment. A value that is no text, or a blank
one, counts as none.
-/

namespace Tagged

structure LogConfig where
  filter : String
deriving DecidableEq, Repr

namespace LogConfig

/-- Warnings and errors are shown. -/
def default : LogConfig := ⟨"warn"⟩

/-- The configuration that the variable's value asks for. -/
def ofVariable (value : Option Bytes) : LogConfig :=
  match value.bind Utf8.decode? with
  | some filter => if Text.isBlank filter then default else ⟨filter⟩
  | none => default

end LogConfig

end Tagged
