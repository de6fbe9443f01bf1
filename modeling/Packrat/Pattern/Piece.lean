import Packrat.Regex.Basic

/-! Pieces of a pattern. Each is an expression with the depth to which its parts are nested, for a
pattern must not be too deep. Characters, escapes and edges have no depth. -/

namespace Packrat.Pattern
set_option autoImplicit false

structure Piece where
  regex : Regex
  /-- How many groups, repetitions, brackets, sequences and choices are one inside the other. -/
  depth : Nat

namespace Piece

def mostDepth : Nat := 250

def plain (r : Regex) : Piece := ⟨r, 0⟩

def depthOf (ps : List Piece) : Nat := (ps.map depth).foldl max 0

/-- With `f` over the pieces, which is no step of its own if there is only one. -/
def joined (f : List Regex → Regex) (ps : List Piece) : Piece :=
  ⟨f (ps.map regex), depthOf ps + if 2 ≤ ps.length then 1 else 0⟩

def cat (ps : List Piece) : Piece := joined .cat ps

def anyOf (ps : List Piece) : Piece := joined .anyOf ps

def group (number? : Option Nat) (p : Piece) : Piece :=
  ⟨match number? with
    | some n => .group n p.regex
    | none => p.regex, p.depth + 1⟩

def times (p : Piece) (least : Nat) (most? : Option Nat) (greedy : Bool) : Piece :=
  ⟨p.regex.times least most? greedy, p.depth + 1⟩

end Piece

end Packrat.Pattern
