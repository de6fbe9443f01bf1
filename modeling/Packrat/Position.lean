import Packrat.Source

/-! A position is a point of a source: a byte offset, with the line and column to show for it. Two
positions are the same point if they share source and offset, whatever line and column they
carry. -/

namespace Packrat
set_option autoImplicit false

structure Position where
  offset : Nat
  line : Nat
  column : Nat
  source : Source

namespace Position

def start (s : Source) : Position := ⟨0, 1, 1, s⟩

def sameSource (p q : Position) : Bool := p.source.serial == q.source.serial

/-- Points of different sources are not ordered. -/
def compare? (p q : Position) : Option Ordering :=
  if p.sameSource q then some (compare p.offset q.offset) else none

instance : BEq Position where
  beq p q := p.sameSource q && p.offset == q.offset

/-- Characters before the point in its line; bytes, where it lies inside a character. -/
def caretColumn (line : LineAt) : Nat :=
  match Utf8.take? line.bytes line.text with
  | some before => before.length
  | none => line.bytes

def toText (p : Position) : String :=
  p.source.name ++ ":" ++ toString p.line ++ ":" ++ toString p.column

def spaces (n : Nat) : String := String.ofList (List.replicate n ' ')

def describe (p : Position) : String :=
  let line := p.source.lineAt p.offset
  let number := toString line.number
  let gutter := spaces number.length
  "-> " ++ p.toText ++ "\n" ++ gutter ++ " |\n" ++
    number ++ " | " ++ String.ofList line.text ++ "\n" ++
    gutter ++ " | " ++ spaces (caretColumn line) ++ "^"

end Position

end Packrat
