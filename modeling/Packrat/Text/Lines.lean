/-! Lines of a text. Each keeps the `\n` that ends it; what follows the last `\n` is a line unless
it is empty. -/

namespace Packrat
set_option autoImplicit false

/-- The lines of a text, each with the `\n` that ends it; no line follows the last `\n`. -/
def lines : List Char → List (List Char)
  | [] => []
  | c :: text =>
    if c = '\n' then [c] :: lines text
    else
      match lines text with
      | [] => [[c]]
      | line :: later => (c :: line) :: later

theorem flatten_lines (text : List Char) : (lines text).flatten = text := by
  induction text with
  | nil => rfl
  | cons c text ih =>
    by_cases h : c = '\n'
    · simp [lines, h, ih]
    · simp only [lines, h, if_false]
      cases hl : lines text with
      | nil => simpa [hl] using ih
      | cons line later => simpa [hl] using ih

def isLineEnd (c : Char) : Bool := c = '\n' || c = '\r'

def trimLineEnd (line : List Char) : List Char :=
  (line.reverse.dropWhile isLineEnd).reverse

def lastLine (text : List Char) : List Char :=
  (text.reverse.takeWhile (· ≠ '\n')).reverse

end Packrat
