import Tagged.Log.Filter

/-!
# Plain directives

Filters that are lists of directives. Each sets the most verbose level that is shown for the
targets that begin with a given text. The most specific directive decides, and an event that
none applies to is not shown. Directives on spans and fields are not among them.
-/

namespace Tagged

/-- A directive without a target applies to every target. -/
structure Directive where
  target : Option (List Char)
  /-- Events up to this verbosity are shown; zero shows none. -/
  verbosity : Nat
deriving DecidableEq, Repr

namespace Directive

def levelNames : List (List Char × Nat) :=
  [("off".toList, 0), ("error".toList, 1), ("warn".toList, 2), ("info".toList, 3),
    ("debug".toList, 4), ("trace".toList, 5), (['0'], 0), (['1'], 1), (['2'], 2), (['3'], 3),
    (['4'], 4), (['5'], 5)]

/-- A level by its name in any case, or by its number. -/
def verbosity? (text : List Char) : Option Nat := levelNames.lookup (text.map Char.toLower)

def isTarget (text : List Char) : Bool :=
  !text.isEmpty && text.all fun c => c.isAlphanum || c == '_' || c == ':' || c == '-'

def malformed : String := "invalid filter directive"

def unknownLevel : String :=
  "error parsing level filter: expected one of \"off\", \"error\", \"warn\", \"info\", " ++
    "\"debug\", \"trace\", or a number 0-5"

/-- A bare `LEVEL`, a `TARGET=LEVEL`, or a target without a level, which is shown at every
level. -/
def parse (text : List Char) : Except String Directive :=
  match verbosity? text with
  | some v => .ok ⟨none, v⟩
  | none =>
    let target := text.takeWhile (· != '=')
    if !isTarget target then .error malformed
    else
      match text.dropWhile (· != '=') with
      | [] | [_] => .ok ⟨some target, Level.trace.verbosity⟩
      | _ :: level =>
        match verbosity? level with
        | some v => .ok ⟨some target, v⟩
        | none => .error unknownLevel

def appliesTo (d : Directive) (target : List Char) : Bool :=
  match d.target with
  | none => true
  | some t => t.isPrefixOf target

/-- A longer target is more specific, and a bare level least of all. -/
def specificity (d : Directive) : Nat :=
  match d.target with
  | none => 0
  | some t => t.length + 1

def splitComma : List Char → List (List Char)
  | [] => [[]]
  | c :: rest =>
    match splitComma rest with
    | [] => [[c]]
    | piece :: pieces => if c == ',' then [] :: piece :: pieces else (c :: piece) :: pieces

/-- Comma-separated directives; empty ones are skipped. -/
def parseAll (text : String) : Except String (List Directive) :=
  ((splitComma text.toList).filter (!·.isEmpty)).mapM parse

/-- The more specific of two directives; of two equally specific ones the later. -/
def prefer (target : List Char) (best : Option Directive) (d : Directive) : Option Directive :=
  if !d.appliesTo target then best
  else
    match best with
    | none => some d
    | some b => if b.specificity ≤ d.specificity then some d else some b

/-- The directive that decides for a target. -/
def deciding? (directives : List Directive) (target : List Char) : Option Directive :=
  directives.foldl (prefer target) none

end Directive

def Filter.ofDirectives (directives : List Directive) : Filter where
  shows e :=
    match Directive.deciding? directives e.target.toList with
    | none => false
    | some d => e.level.verbosity ≤ d.verbosity

def FilterLanguage.plain : FilterLanguage where
  parse text := (Directive.parseAll text).map Filter.ofDirectives
  fallback := .ofDirectives [⟨none, Level.warn.verbosity⟩]
  parse_default := rfl

end Tagged
