import Packrat.Fault
import Packrat.Position
import Packrat.Regex.Match

/-! A cursor is the reading point of a source. It counts lines and columns as it goes, so all its
movements are made of `past`, the move past one character. Reading at an offset that is no character
boundary is a fault, and so is a count beyond a machine word. -/

namespace Packrat
set_option autoImplicit false

structure Cursor where
  source : Source
  offset : Nat
  line : Nat
  column : Nat

namespace Cursor

def atStart (s : Source) : Cursor := ⟨s, 0, 1, 1⟩

def position (c : Cursor) : Position := ⟨c.offset, c.line, c.column, c.source⟩

/-- The cursor keeps its own source, whichever source the position is of. -/
def moveTo (c : Cursor) (p : Position) : Cursor :=
  { c with offset := p.offset, line := p.line, column := p.column }

def atEnd (c : Cursor) : Bool := Utf8.size c.source.content ≤ c.offset

def rest (c : Cursor) : Except Fault (List Char) :=
  match Utf8.drop? c.offset c.source.content with
  | some text => .ok text
  | none => .error .offBoundary

def past (c : Cursor) (ch : Char) : Except Fault Cursor :=
  if ch = '\n' then do
    return { c with offset := c.offset + ch.utf8Size, line := ← addCount c.line 1, column := 1 }
  else do
    return { c with offset := c.offset + ch.utf8Size, column := ← addCount c.column 1 }

def pastAll (c : Cursor) (text : List Char) : Except Fault Cursor := text.foldlM past c

def peek (c : Cursor) : Except Fault (Option Char) := do
  return (← c.rest).head?

/-- Moves past the characters that take the next `n` bytes, to the end if there are fewer. -/
def advance (c : Cursor) (n : Nat) : Except Fault Cursor := do
  let _ ← addCount c.offset n
  c.pastAll (Utf8.cover n (← c.rest))

def next (c : Cursor) : Except Fault (Option Char × Cursor) := do
  match ← c.peek with
  | none => return (none, c)
  | some ch => return (some ch, ← c.advance ch.utf8Size)

def startsWith (c : Cursor) (text : List Char) : Except Fault Bool := do
  return text.isPrefixOf (← c.rest)

def eat (c : Cursor) (text : List Char) : Except Fault (Bool × Cursor) := do
  if ← c.startsWith text then return (true, ← c.advance (Utf8.size text))
  else return (false, c)

def eatWhile (c : Cursor) (p : Char → Bool) : Except Fault (List Char × Cursor) := do
  let text := (← c.rest).takeWhile p
  return (text, ← c.advance (Utf8.size text))

/-- Reads what the expression matches at the cursor, which it takes for the start of the text. A
match that begins later counts for nothing, even if none begins here. -/
def eatRegex (c : Cursor) (r : Regex) : Except Fault (Option (List Char) × Cursor) := do
  match r.eaten? (← c.rest) with
  | none => return (none, c)
  | some text => return (some text, ← c.advance (Utf8.size text))

end Cursor

end Packrat
