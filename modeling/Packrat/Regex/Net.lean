import Packrat.Regex.Basic
import Packrat.Regex.Marks

/-! Nets. A net is a regular expression with a number, its place, on each test of a character, each
edge and each choice. A match in progress is a thread that waits at a test, and all threads go
through the text side by side, the preferred ones first. At each gap of the text a place is reached
once, by the thread that is preferred; what reaches it later could only repeat that thread. So the
threads are never more than the places, and a loop ends where it would come back to its place. The
characters on both sides of a gap are known there, so an edge is passed at once or not at all. -/

namespace Packrat
set_option autoImplicit false

inductive Net where
  | pass
  | test (place : Nat) (set : CharSet)
  | edge (place : Nat) (e : Edge)
  | seq (a b : Net)
  | alt (place : Nat) (a b : Net)
  | opt (place : Nat) (a : Net) (greedy : Bool)
  /-- As often as it goes; at least once if it is `entered` behind the choice to go on. -/
  | loop (place : Nat) (a : Net) (greedy entered : Bool)

inductive Thread where
  | done
  /-- At a test. What is behind it are nets, the next one first. -/
  | test (set : CharSet) (behind : List Net)

structure Frontier where
  reached : Marks
  threads : List Thread

namespace Frontier

def empty : Frontier := ⟨.none, []⟩

def push (f : Frontier) (t : Thread) : Frontier := { f with threads := t :: f.threads }

/-- Goes on with `k` from a place that has not been reached before. -/
def visit (f : Frontier) (place : Nat) (k : Frontier → Frontier) : Frontier :=
  if f.reached.has place then f else k { f with reached := f.reached.add place }

def ordered (f : Frontier) : List Thread := f.threads.reverse

end Frontier

namespace Net

/-- Visits what can be reached from the beginning of the net without a character, where `behind` is
to come and `k` visits what can be reached from there. In a round of a loop nothing goes on: the end
of the round is the place of the loop, which has been reached. -/
def enter (holds : Edge → Bool) :
    Net → List Net → (Frontier → Frontier) → Frontier → Frontier
  | .pass, _, k, f => k f
  | .test place set, behind, _, f => f.visit place fun f => f.push (.test set behind)
  | .edge place e, _, k, f => f.visit place fun f => if holds e then k f else f
  | .seq a b, behind, k, f => a.enter holds (b :: behind) (b.enter holds behind k) f
  | .alt place a b, behind, k, f =>
    f.visit place fun f => b.enter holds behind k (a.enter holds behind k f)
  | .opt place a greedy, behind, k, f => f.visit place fun f =>
    if greedy then k (a.enter holds behind k f) else a.enter holds behind k (k f)
  | .loop place a greedy entered, behind, k, f =>
    let rounds := .loop place a greedy false :: behind
    let again := fun f : Frontier => f.visit place fun f =>
      if greedy then k (a.enter holds rounds id f) else a.enter holds rounds id (k f)
    if entered then a.enter holds rounds again f else again f

def enterAll (holds : Edge → Bool) : List Net → Frontier → Frontier
  | [] => fun f => f.push .done
  | net :: behind => net.enter holds behind (enterAll holds behind)

def threads (holds : Edge → Bool) (beginnings : List (List Net)) : List Thread :=
  (beginnings.foldl (fun f nets => enterAll holds nets f) .empty).ordered

end Net

namespace Thread

def isDone : Thread → Bool
  | .done => true
  | .test _ _ => false

def passed (c : Char) : List Thread → List (List Net)
  | .test set behind :: rest => if set.has c then behind :: passed c rest else passed c rest
  | .done :: _ => []
  | [] => []

/-- How many characters the preferred match takes, where the threads have taken `taken` and the best
match so far took `best?`. A match that is found gives way to threads before it only. -/
def run (threads : List Thread) (taken : Nat) (best? : Option Nat) (text : List Char) :
    Option Nat :=
  let best? := bif threads.any isDone then some taken else best?
  match text with
  | [] => best?
  | c :: rest =>
    match passed c threads with
    | [] => best?
    | beginnings =>
      run (Net.threads (Edge.holds (some c) rest.head?) beginnings) (taken + 1) best? rest

end Thread

abbrev Numbering := Nat → Net × Nat

namespace Numbering

def pass : Numbering := fun n => (.pass, n)

def test (set : CharSet) : Numbering := fun n => (.test n set, n + 1)

def edge (e : Edge) : Numbering := fun n => (.edge n e, n + 1)

def seq (a b : Numbering) : Numbering := fun n =>
  let (a, m) := a n
  let (b, l) := b m
  (.seq a b, l)

def alt (a b : Numbering) : Numbering := fun n =>
  let (a, m) := a n
  let (b, l) := b m
  (.alt l a b, l + 1)

def opt (a : Numbering) (greedy : Bool) : Numbering := fun n =>
  let (a, m) := a n
  (.opt m a greedy, m + 1)

def loop (a : Numbering) (greedy entered : Bool) : Numbering := fun n =>
  let (a, m) := a n
  (.loop m a greedy entered, m + 1)

def literal (text : List Char) : Numbering :=
  text.foldr (fun c later => seq (test (.single c)) later) pass

def copies (a : Numbering) (last : Numbering) : Nat → Numbering
  | 0 => last
  | n + 1 => seq a (copies a last n)

def upTo (a : Numbering) (greedy : Bool) : Nat → Numbering
  | 0 => pass
  | n + 1 => opt (seq a (upTo a greedy n)) greedy

/-- Without end. What may take nothing is entered once for the choice to make a round, and again for
the choice to go on, lest a round that took nothing be mistaken for one not made. -/
def endless (a : Numbering) (takesSome greedy : Bool) : Numbering :=
  if takesSome then loop a greedy false else opt (loop a greedy true) greedy

end Numbering

namespace Regex

def numbering : Regex → Numbering
  | .literal text => .literal text
  | .oneOf set => .test set
  | .edge e => .edge e
  | .group _ a => a.numbering
  | .seq a b => .seq a.numbering b.numbering
  | .alt a b => .alt a.numbering b.numbering
  | .rep a 0 none greedy => a.numbering.endless a.takesSome greedy
  | .rep a (n + 1) none greedy => a.numbering.copies (a.numbering.loop greedy true) n
  | .rep a n (some most) greedy => a.numbering.copies (a.numbering.upTo greedy (most - n)) n

def net (r : Regex) : Net := (r.numbering 0).1

/-- How many characters the preferred match takes that begins the text. `before?` is the character
before the text. -/
def length? (r : Regex) (before? : Option Char) (text : List Char) : Option Nat :=
  Thread.run (Net.threads (Edge.holds before? text.head?) [[r.net]]) 0 none text

end Regex

end Packrat
