import Packrat.Regex.Basic
import Packrat.Script.Layout

/-! The room that an expression takes in memory, as scripts are run with it. It is laid out twice: to
find where a match ends, and, read from the end to the beginning, to find where it begins. Both
automata go through bytes. Rounds of a repetition have states of their own, so nested counts
multiply. -/

namespace Packrat.Script
set_option autoImplicit false

inductive Branch where
  | text (word : List Char)
  | other (laying : Laying)

namespace Branch

def text? : Branch → Option (List Char)
  | .text word => some word
  | .other _ => none

def laying : Branch → Laying
  | .text word => .states (Utf8.size word)
  | .other a => a

def layingOf (backward : Bool) : List Branch → Laying
  | [b] => b.laying
  | bs =>
    match bs.mapM text?, bs.map laying with
    | some texts, _ => .texts backward texts
    | none, a :: b :: more =>
      .all (a :: b :: .add (.of 2 bs.length 0) :: more)
    | none, _ => some

end Branch

def layingBranches (backward : Bool) : Regex → List Branch
  | .literal text => [if text = [] then .other (.states 1) else .text text]
  | .oneOf set => [.other (.charSet backward set)]
  | .edge _ => [.other (.states 1)]
  | .group _ a =>
    let inner := Branch.layingOf backward (layingBranches backward a)
    [.other (if backward then inner else .all [.states 1, inner, .states 1])]
  | .seq a b =>
    let a := Branch.layingOf backward (layingBranches backward a)
    let b := Branch.layingOf backward (layingBranches backward b)
    [.other (if backward then b.andThen a else a.andThen b)]
  | .alt a b => layingBranches backward a ++ layingBranches backward b
  | .rep a least most? _ =>
    let round := Branch.layingOf backward (layingBranches backward a)
    let fork := Laying.add (.of 1 2 0)
    let copies := if least = 0 then .states 1 else round.times least
    [.other <|
      match least, most? with
      | 0, some 1 => .all [fork, round, .states 1]
      | 0, none => if a.takesSome then .all [fork, round] else .all [round, fork, fork, .states 1]
      | _, none => .all [copies, fork]
      | _, some most =>
        if least = most then copies
        else .all [copies, .states 1, .times (fork.andThen round) (most - least)]]

def laying (backward : Bool) (r : Regex) : Laying :=
  Branch.layingOf backward (layingBranches backward r)

/-- Whether each match passes `e` before it takes a character. -/
def opensWith (e : Edge) : Regex → Bool
  | .literal _ | .oneOf _ => false
  | .edge f => e = f
  | .group _ a => opensWith e a
  | .seq a b => opensWith e a || a.takesNothing && opensWith e b
  | .alt a b => opensWith e a && opensWith e b
  | .rep a least _ _ => 0 < least && opensWith e a

/-- Whether each match passes `e` behind its last character. -/
def closesWith (e : Edge) : Regex → Bool
  | .literal _ | .oneOf _ => false
  | .edge f => e = f
  | .group _ a => closesWith e a
  | .seq a b => closesWith e b || b.takesNothing && closesWith e a
  | .alt a b => closesWith e a && closesWith e b
  | .rep a least _ _ => 0 < least && closesWith e a

/-- What leads to the beginning of a match: any bytes, unless it is fixed to one end of the text. -/
def approach (fixed : Bool) : Laying := .add (if fixed then .of 1 0 0 else .of 3 2 1)

def forward (r : Regex) : Laying :=
  .all [approach (opensWith .start r), .states 1, laying false r, .states 2]

/-- The automaton that reads backwards. It has no groups. -/
def backward (r : Regex) : Laying :=
  .all [approach (closesWith .finish r), laying true r, .states 1]

def fits (r : Regex) : Bool :=
  (forward r (.of 0 0 0)).isSome && (backward r (.of 0 0 0)).isSome

end Packrat.Script
