import Packrat.Position
import Packrat.Text.Quoted

/-! Errors of a parse: a cause and, if one is known, the place. Fatal errors tell of a faulty
grammar or a missing file, not of the text, and no choice between rules may pass over them. -/

namespace Packrat
set_option autoImplicit false

namespace Error

inductive Cause where
  | expected (ids : List String)
  | custom (message : String)
  /-- The alternative gives up and has nothing to report. -/
  | backtrack
  | unknownSkipper (id : String)
  | readFailed (path : String) (message : String)
  deriving DecidableEq, Repr

namespace Cause

def name : Cause → String
  | .expected _ => "Expected"
  | .custom _ => "Custom"
  | .backtrack => "Backtrack"
  | .unknownSkipper _ => "UnknownSkipper"
  | .readFailed .. => "ReadFailed"

def message : Cause → String
  | .expected ids => "Expected: " ++ ", ".intercalate ids
  | .custom message => message
  | .backtrack => "backtrace()"
  | .unknownSkipper id => "unknown skipper: " ++ quoted id
  | .readFailed path message => "failed to read " ++ quoted path ++ ": " ++ message

def isFatal : Cause → Bool
  | .unknownSkipper _ | .readFailed .. => true
  | .expected _ | .custom _ | .backtrack => false

def tip? : Cause → Option String
  | .expected [id] => some ("Insert `" ++ id ++ "` here")
  | .unknownSkipper id => some ("Skipper `" ++ id ++ "` is not registered in the grammar")
  | .readFailed path _ => some ("Check that `" ++ path ++ "` exists and is readable")
  | .expected _ | .custom _ | .backtrack => none

end Cause

end Error

structure Error where
  cause : Error.Cause
  position? : Option Position

namespace Error

def isFatal (e : Error) : Bool := e.cause.isFatal

def message (e : Error) : String := e.cause.message

def orAt (e : Error) (p : Position) : Error := { e with position? := e.position?.or (some p) }

def toText (e : Error) : String :=
  "ERROR: " ++ e.message ++ (e.position?.elim "" fun p => "\n" ++ p.describe)

end Error

end Packrat
