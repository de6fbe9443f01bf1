import Packrat.Script.Value

/-! Steps of a script. An operation takes the values of its arguments, which are evaluated from left
to right; what is written out in the script is part of the operation. -/

namespace Packrat.Script
set_option autoImplicit false

inductive Reach where
  | blank
  | digit
  | alpha
  | alnum
  | any
  | none
  | among (chars : List Char)
  | notAmong (chars : List Char)
  deriving DecidableEq, Repr

def Reach.has : Reach → Char → Bool
  | .blank, c => isBlank c
  | .digit, c => c.isDigit
  | .alpha, c => c.isAlpha
  | .alnum, c => c.isAlphanum
  | .any, _ => true
  | .none, _ => false
  | .among chars, c => chars.contains c
  | .notAmong chars, c => !chars.contains c

inductive Op where
  | matchRule (skipper? : Option String) (params : Params)
  | literal
  | test
  | testAny (ids : List String)
  | testAll (ids : List String)
  | matchAny (ids : List String)
  | resolve
  | invoke (params : Params)
  | skip
  | setSkipper
  | skipper
  | snapshot
  | restore
  | makeSnapshot (skipper? : Option String)
  | sameSnapshot
  | read
  | readText
  | parse
  | parseText
  | parseBelow
  | parseTextBelow
  | directory
  | node
  | customError
  | expected (ids : List String)
  | backtrack
  | peek
  | next
  | atEnd
  | rest
  | offset
  | startsWith
  | eat
  | eatWhile (reach : Reach)
  | eatRegex
  | anchored
  | eatAnchored
  | advance
  | position
  | moveTo
  | startPosition
  | makePosition
  | describe
  | showPosition
  | comparePositions
  | withValue
  | push
  | child
  | nodeOffset
  | sameNode
  | makeError (cause : Error.Cause)
  | errorAt
  | errorPosition
  | sameError
  | addToken
  | runToken
  | runSkipper
  | hasRule
  | hasSkipper
  | ruleNames
  | skipperNames
  deriving DecidableEq, Repr

inductive Step where
  | const (v : Value)
  | var (name : String)
  | assign (name : String) (e : Step)
  | not (e : Step)
  | block (body : List Step)
  | branch (condition : Step) (yes no : List Step)
  | loop (body : List Step)
  | leave
  | give (e : Step)
  | fail (e : Step)
  | attempt (body : List Step)
  /-- Counts a name; says whether its count is within the limit. -/
  | count (name : String) (limit? : Option Nat)
  | note (label : String)
  | param (key : String)
  | op (o : Op) (args : List Step)

inductive SkipperBody where
  | pattern (text : String)
  | steps (body : List Step)

structure Definitions where
  stock : Bool
  skippers : List (String × SkipperBody)
  rules : List (String × List Step)

end Packrat.Script
