import Packrat.Position
import Packrat.Text.Quoted

/-! Events are what a run leaves behind besides its answer. Most have a record for the log; a node
that was made and a note that a rule took have none. -/

namespace Packrat
set_option autoImplicit false

structure Stats where
  /-- Tests, those answered from the memo included. -/
  tests : Nat
  hits : Nat
  runs : Nat
  deriving DecidableEq, Repr

namespace Stats

def zero : Stats := ⟨0, 0, 0⟩

def toText (s : Stats) : String :=
  "ParseStats \x7b tests: " ++ toString s.tests ++ ", cache_hits: " ++ toString s.hits ++
    ", matches: " ++ toString s.runs ++ " \x7d"

end Stats

inductive Event where
  | registered (id literal : String)
  | skipperSet (previous? : Option String) (id : String)
  /-- A test was answered, from the memo if `known`. -/
  | tested (known : Bool) (rule : String) (position : Position) (matched : Bool)
  | started (source rule : String)
  | finished (source : String) (memoSize : Nat) (stats : Stats)
  | failed (source message : String)
  | rooted (directory : String)
  | made (kind : String) (position : Position)
  | noted (label : String) (position : Position) (skipper? : Option String)

namespace Event

inductive Level where
  | debug
  | trace
  deriving DecidableEq, Repr

def Level.name : Level → String
  | .debug => "debug"
  | .trace => "trace"

def quotedOption : Option String → String
  | none => "None"
  | some text => "Some(" ++ quoted text ++ ")"

def record? : Event → Option (Level × String)
  | .registered id literal =>
    some (.debug, "registering literal token " ++ quoted literal ++ " as " ++ quoted id)
  | .skipperSet previous? id =>
    some (.trace, "skipper " ++ quotedOption previous? ++ " -> " ++ quoted id)
  | .tested known rule position matched =>
    some (.trace, (if known then "memo hit " else "memo miss ") ++ quoted rule ++ " at " ++
      toString position.offset ++ " -> " ++ toString matched)
  | .started source rule => some (.debug, "parsing " ++ source ++ " with rule " ++ quoted rule)
  | .finished source memoSize stats =>
    some (.debug, "parsed " ++ source ++ " (" ++ toString memoSize ++ " memo entries, " ++
      stats.toText ++ ")")
  | .failed source message => some (.debug, "failed to parse " ++ source ++ ": " ++ message)
  | .rooted directory => some (.debug, "creating subparser rooted at " ++ directory)
  | .made .. | .noted .. => none

end Event

end Packrat
