import Packrat.Text.ByteRows
import Packrat.Text.CharSet
import Packrat.Text.Utf8

/-! What a library of regular expressions may take for an automaton, as scripts are run with it: the
automaton is laid out in memory state by state. A state takes 32 bytes, a way out of a choice 4 and
a range of bytes 8, up to a limit. States are numbered as they are laid out. A set of characters
uses states of its own again, as far as its table still has them; which it has depends on their
numbers, so copies of one set need not take the same room. -/

namespace Packrat.Script
set_option autoImplicit false

structure Layout where
  states : Nat
  lists : Nat

namespace Layout

def of (states ways ranges : Nat) : Layout := ⟨states, 4 * ways + 8 * ranges⟩

def plus (l m : Layout) : Layout := ⟨l.states + m.states, l.lists + m.lists⟩

def sum (ls : List Layout) : Layout := ls.foldr plus (of 0 0 0)

def most : Nat := 10 * 1024 * 1024

def fits (l : Layout) : Bool := 32 * l.states + l.lists ≤ most

end Layout

/-- Lays out a part of an automaton behind what has been laid out, unless that takes too much. -/
abbrev Laying := Layout → Option Layout

namespace Laying

def add (m : Layout) : Laying := fun l => if (l.plus m).fits then some (l.plus m) else none

def states (n : Nat) : Laying := add (.of n 0 0)

def andThen (a b : Laying) : Laying := fun l => (a l).bind b

def all (as : List Laying) : Laying := as.foldr andThen some

def times (a : Laying) : Nat → Laying
  | 0 => some
  | n + 1 => fun l => (a l).bind (a.times n)

end Laying

/-- States by what they do, in a table of a fixed number of slots. A state that is put into a slot
takes the place of the one that was there. -/
structure Shelf where
  slots : UInt64
  /-- Slots, what states do, and their numbers; the last first. -/
  entries : List (Nat × List Nat × Nat)

namespace Shelf

def empty (slots : UInt64) : Shelf := ⟨slots, []⟩

def slot (s : Shelf) (deed : List Nat) : Nat :=
  let mixed := deed.foldl (fun h n => (h ^^^ n.toUInt64) * 0x100000001b3) 0xcbf29ce484222325
  (mixed % s.slots).toNat

def find? (s : Shelf) (deed : List Nat) : Option Nat :=
  let slot := s.slot deed
  match s.entries.find? fun entry => entry.1 == slot with
  | some (_, there, state) => if there = deed then some state else none
  | none => none

def put (s : Shelf) (deed : List Nat) (state : Nat) : Shelf :=
  { s with entries := (s.slot deed, deed, state) :: s.entries }

end Shelf

structure Draft where
  layout : Layout
  shelf : Shelf

namespace Draft

def state (d : Draft) (deed : List Nat) (ranges : Nat) : Nat × Draft :=
  match d.shelf.find? deed with
  | some state => (state, d)
  | none =>
    let state := d.layout.states
    (state, ⟨d.layout.plus (.of 1 0 ranges), d.shelf.put deed state⟩)

end Draft

namespace Laying

section Words
variable {α : Type} [DecidableEq α]

/-- With what the words begin, each once. -/
def firsts (words : List (List α)) : List α := (words.filterMap List.head?).eraseDups

def behind (a : α) (words : List (List α)) : List (List α) :=
  words.filterMap fun
    | b :: rest => if a = b then some rest else none
    | [] => none

/-- The stretches between words that end here. -/
def stretches : List (List α) → List (List (List α))
  | [] => [[]]
  | [] :: later => [] :: stretches later
  | word :: later =>
    match stretches later with
    | stretch :: more => (word :: stretch) :: more
    | [] => [[word]]

/-- Ends that come before all else are one. -/
def joinEnds : List (List α) → List (List α)
  | [] :: later => [] :: later.dropWhile List.isEmpty
  | words => words

/-- A place in the tree of words that are to be tried in this order. A word that ends there parts
those before it from those behind it. Words are not longer than `depth`. -/
def tree : Nat → List (List α) → Layout
  | 0, _ => .of 0 0 0
  | depth + 1, words =>
    let parts := stretches (joinEnds words)
    let tests := parts.filter fun part => !part.isEmpty
    let test := fun part =>
      let as := firsts part
      let later := as.map fun a =>
        let words := behind a part
        if words.all List.isEmpty then .of 0 0 0 else tree depth words
      Layout.plus (.of 1 0 (if as.length = 1 then 0 else as.length)) (.sum later)
    Layout.plus (.of 1 (tests.length + (parts.length - 1)) 0) (.sum (tests.map test))

end Words

def texts (backward : Bool) (ts : List (List Char)) : Laying :=
  let words := ts.map fun text =>
    let bytes := text.flatMap String.utf8EncodeChar
    if backward then bytes.reverse else bytes
  add (Layout.plus (.of 1 0 0) (tree ((words.map List.length).foldl max 0) words))

/-- Rows as a tree whose places are states, those behind a place before it. All rows lead to
`finish`, and they are not longer than `depth`. -/
def rowTree (finish : Nat) : Nat → List (List (Nat × Nat)) → Draft → Nat × Draft
  | 0, _, d => (finish, d)
  | depth + 1, rows, d =>
    match firsts rows with
    | [] => (finish, d)
    | ranges =>
      let (deed, d) := ranges.foldl
        (fun (deed, d) range =>
          let (next, d) := rowTree finish depth (behind range rows) d
          (next :: range.2 :: range.1 :: deed, d)) ([], d)
      d.state deed.reverse ranges.length

/-- Rows that are read from their ends, so that those that begin alike end in the same states. -/
def rowList (finish : Nat) (rows : List (List (Nat × Nat))) (d : Draft) : Draft :=
  rows.foldl
    (fun d row =>
      (row.foldl (fun (next, d) range => d.state [next, range.1, range.2] 0) (finish, d)).2) d

def rows (backward : Bool) (rs : List (List (Nat × Nat))) : Laying := fun l =>
  if backward then
    let d := rowList (l.states + 1) rs ⟨l.plus (.of 2 rs.length 0), .empty 1000⟩
    add (.of 0 0 0) d.layout
  else
    let (_, d) := rowTree l.states 4 rs ⟨l.plus (.of 1 0 0), .empty 10000⟩
    add (.of 0 0 0) d.layout

/-- Characters of ASCII are bytes. -/
def charSet (backward : Bool) (set : CharSet) : Laying :=
  if set.ranges.all fun (_, last) => last < 0x80 then add (.of 2 0 set.ranges.length)
  else rows backward (set.ranges.flatMap fun (first, last) => Utf8.byteRows first last)

end Laying

end Packrat.Script
