import Packrat.Text.CharSet

/-! Regular expressions. `cat`, `anyOf` and `times` put them together in a simple form: neighbouring
literals are one, characters to choose from are a set, and alternatives that begin alike share their
beginning. Which of several matches is preferred depends on that form. -/

namespace Packrat
set_option autoImplicit false

inductive Edge where
  | start
  | finish
  /-- A word of these characters begins or ends here. -/
  | word (words : CharSet)
  /-- Neither a word begins nor one ends here. -/
  | noWord (words : CharSet)
  | wordStart (words : CharSet)
  | wordEnd (words : CharSet)
  /-- No word goes on from before. -/
  | noWordBefore (words : CharSet)
  /-- No word goes on from here. -/
  | noWordBehind (words : CharSet)
  deriving DecidableEq

namespace Edge

def holds (before? next? : Option Char) : Edge → Bool
  | .start => before?.isNone
  | .finish => next?.isNone
  | .word words => before?.any words.has != next?.any words.has
  | .noWord words => before?.any words.has == next?.any words.has
  | .wordStart words => !before?.any words.has && next?.any words.has
  | .wordEnd words => before?.any words.has && !next?.any words.has
  | .noWordBefore words => !before?.any words.has
  | .noWordBehind words => !next?.any words.has

end Edge

inductive Regex where
  /-- These characters; with none it takes nothing. -/
  | literal (text : List Char)
  | oneOf (set : CharSet)
  | edge (e : Edge)
  /-- A group with a number, which no other group of the pattern has. -/
  | group (number : Nat) (a : Regex)
  | seq (a b : Regex)
  | alt (a b : Regex)
  /-- At least `least` times and at most `most?` times; without `most?` there is no bound. -/
  | rep (a : Regex) (least : Nat) (most? : Option Nat) (greedy : Bool)
  deriving DecidableEq

namespace Regex

def empty : Regex := .literal []

def parts : Regex → List Regex
  | .literal [] => []
  | .seq a b => a.parts ++ b.parts
  | r => [r]

def branches : Regex → List Regex
  | .alt a b => a.branches ++ b.branches
  | r => [r]

/-- Whether it can take nothing but the empty text. -/
def takesNothing : Regex → Bool
  | .literal text => text.isEmpty
  | .oneOf _ => false
  | .edge _ => true
  | .group _ a => a.takesNothing
  | .seq a b | .alt a b => a.takesNothing && b.takesNothing
  | .rep a _ most? _ => most? = some 0 || most?.isSome && a.takesNothing

/-- The length of its shortest text. None is known if a part of it has no text at all. -/
def leastLength? : Regex → Option Nat
  | .literal text => some text.length
  | .oneOf set => if set.isEmpty then none else some 1
  | .edge _ => some 0
  | .group _ a => a.leastLength?
  | .seq a b => return (← a.leastLength?) + (← b.leastLength?)
  | .alt a b => return min (← a.leastLength?) (← b.leastLength?)
  | .rep a least _ _ => a.leastLength?.map (least * ·)

/-- Whether it is known to take some character. -/
def takesSome (r : Regex) : Bool := r.leastLength?.any (0 < ·)

/-- A set of one character is a literal. -/
def ofSet (set : CharSet) : Regex :=
  match set.single? with
  | some c => .literal [c]
  | none => .oneOf set

def joinLiterals : List Regex → List Regex
  | [] => []
  | .literal s :: rest =>
    match joinLiterals rest with
    | .literal t :: more => .literal (s ++ t) :: more
    | more => .literal s :: more
  | r :: rest => r :: joinLiterals rest

def ofParts : List Regex → Regex
  | [] => empty
  | [r] => r
  | r :: rest => .seq r (ofParts rest)

def cat (rs : List Regex) : Regex := ofParts (joinLiterals (rs.flatMap parts))

def literal? : Regex → Option Char
  | .literal [c] => some c
  | _ => none

def set? : Regex → Option CharSet
  | .oneOf set => some set
  | _ => none

/-- The set to choose from, if all branches are single characters or all are sets. -/
def commonSet? (rs : List Regex) : Option CharSet :=
  match rs.mapM literal?, rs.mapM set? with
  | some cs, _ => some (.ofList cs)
  | none, some sets => some (sets.foldl .union .empty)
  | none, none => none

def ofBranches : List Regex → Regex
  | [] => .oneOf .empty
  | [r] => r
  | r :: rest => .alt r (ofBranches rest)

def choice (rs : List Regex) : Regex :=
  match commonSet? rs with
  | some set => if rs.length = 1 then ofBranches rs else ofSet set
  | none => ofBranches rs

def commonBeginning : List Regex → List Regex → List Regex
  | r :: rs, s :: ss => if r = s then r :: commonBeginning rs ss else []
  | _, _ => []

def sharedParts : List Regex → List Regex
  | [] => []
  | r :: rest =>
    if (r :: rest).all fun r => 2 ≤ r.parts.length then
      rest.foldl (fun shared s => commonBeginning shared s.parts) r.parts
    else []

def anyOf (rs : List Regex) : Regex :=
  let rs := rs.flatMap branches
  if rs.length = 1 ∨ (commonSet? rs).isSome then choice rs
  else
    match sharedParts rs with
    | [] => choice rs
    | shared =>
      let rest := rs.map fun r => cat (r.parts.drop shared.length)
      cat (shared ++ [choice (rest.flatMap branches)])

/-- What takes nothing is not repeated. -/
def times (a : Regex) (least : Nat) (most? : Option Nat) (greedy : Bool) : Regex :=
  let (least, most?) :=
    if a.takesNothing then (min least 1, some ((most?.map (min · 1)).getD 1)) else (least, most?)
  if least = 0 ∧ most? = some 0 then empty
  else if least = 1 ∧ most? = some 1 then a
  else .rep a least most? greedy

end Regex

end Packrat
