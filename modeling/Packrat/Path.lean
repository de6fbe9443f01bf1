/-! Paths are texts, joined and cut without a look at the disk. Nothing is simplified: `.` and `..`
stay where they are, and so do repeated slashes inside. -/

namespace Packrat
namespace Path
set_option autoImplicit false

/-- The names between slashes; one more than there are slashes. -/
def names : List Char → List (List Char)
  | [] => [[]]
  | c :: path =>
    if c = '/' then [] :: names path
    else
      match names path with
      | [] => [[c]]
      | name :: later => (c :: name) :: later

def join (dir file : String) : String :=
  if file.toList.head? = some '/' then file
  else if dir = "" ∨ dir.toList.getLast? = some '/' then dir ++ file
  else dir ++ "/" ++ file

/-- Names that lead nowhere, so that a path may end in them and mean the same. -/
def isIdle (name : List Char) : Bool := name = [] || name = ['.']

/-- The start of a path that is kept when its names are cut off: the root, or a first `.`. -/
def anchor (path : List Char) : List Char :=
  match path with
  | '/' :: _ => ['/']
  | ['.'] => ['.']
  | '.' :: '/' :: _ => ['.']
  | _ => []

/-- The path without its last name. The root has no parent, nor has the empty path. -/
def parent? (path : String) : Option String :=
  let base := anchor path.toList
  let body := (names (path.toList.drop base.length)).reverse
  match body.dropWhile isIdle with
  | _ :: above =>
    some (String.ofList (base ++ ['/'].intercalate (above.dropWhile isIdle).reverse))
  | [] => if base = ['.'] then some "" else none

end Path

end Packrat
