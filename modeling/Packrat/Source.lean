import Packrat.Text.Lines
import Packrat.Text.Utf8

/-! A source is a text under parsing, with the name that messages call it by. Loading the same text
twice gives two sources, told apart by `serial`. `lineAt` finds the line of an offset. -/

namespace Packrat
set_option autoImplicit false

structure Source where
  serial : Nat
  name : String
  path? : Option String
  content : List Char

/-- A line's number, its text, and the bytes between its start and the offset asked for. -/
structure LineAt where
  number : Nat
  text : List Char
  bytes : Nat

/-- Looks for the line that reaches beyond `offset`; `start` and `number` are those of the first of
the `lines`. Gives the number after the last line if there is none. -/
def findLine (offset : Nat) : Nat → Nat → List (List Char) → LineAt ⊕ Nat
  | _, number, [] => .inr number
  | start, number, line :: later =>
    if offset < start + Utf8.size line then .inl ⟨number, trimLineEnd line, offset - start⟩
    else findLine offset (start + Utf8.size line) (number + 1) later

namespace Source

/-- The line that holds the byte at `offset`. At or beyond the end it is the last line, which is
empty after a final `\n`. -/
def lineAt (s : Source) (offset : Nat) : LineAt :=
  match findLine (min offset (Utf8.size s.content)) 0 1 (lines s.content) with
  | .inl found => found
  | .inr number =>
    if lastLine s.content = [] then ⟨number, [], 0⟩
    else ⟨number - 1, lastLine s.content, Utf8.size (lastLine s.content)⟩

end Source

end Packrat
