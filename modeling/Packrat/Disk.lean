import Packrat.Path
import Packrat.Text.Utf8

/-! The files a parser may read. A path is followed name by name from the root or from the home
directory; a name that is not there, or is no directory although more names follow, ends the
walk. -/

namespace Packrat
set_option autoImplicit false

namespace Disk

inductive Entry where
  | directory
  /-- A file with its text; none if its bytes are no UTF-8. -/
  | file (text? : Option (List Char))

inductive Trouble where
  | missing
  | notDirectory
  | isDirectory
  | nameTooLong
  | notText
  | nulInPath
  deriving DecidableEq, Repr

def Trouble.message : Trouble → String
  | .missing => "No such file or directory (os error 2)"
  | .notDirectory => "Not a directory (os error 20)"
  | .isDirectory => "Is a directory (os error 21)"
  | .nameTooLong => "File name too long (os error 36)"
  | .notText => "stream did not contain valid UTF-8"
  | .nulInPath => "file name contained an unexpected NUL byte"

def decode? (bytes : List UInt8) : Option (List Char) :=
  (String.fromUTF8? ⟨bytes.toArray⟩).map String.toList

end Disk

/-- Entries by their names from the root on. A directory need not be listed if an entry is in it. -/
structure Disk where
  entries : List (List (List Char) × Disk.Entry)
  home : List (List Char)

namespace Disk

def empty : Disk := ⟨[], []⟩

def entry? (d : Disk) (place : List (List Char)) : Option Entry :=
  match d.entries.lookup place with
  | some e => some e
  | none =>
    if place.isPrefixOf d.home || d.entries.any fun e => place.isPrefixOf e.1 then
      some .directory
    else none

def maxPath : Nat := 4095

def maxName : Nat := 255

def walk (d : Disk) : List (List Char) → List (List Char) → Except Trouble (List Char)
  | _, [] => .error .isDirectory
  | here, name :: later =>
    if Path.isIdle name then d.walk here later
    else if name = ['.', '.'] then d.walk here.dropLast later
    else if maxName < Utf8.size name then .error .nameTooLong
    else
      match d.entry? (here ++ [name]) with
      | none => .error .missing
      | some .directory => d.walk (here ++ [name]) later
      | some (.file text?) =>
        if later ≠ [] then .error .notDirectory
        else
          match text? with
          | some text => .ok text
          | none => .error .notText

def base (d : Disk) (path : List Char) : List (List Char) :=
  if path.head? = some '/' then [] else d.home

def read (d : Disk) (path : String) : Except Trouble (List Char) :=
  let chars := path.toList
  if chars.contains '\x00' then .error .nulInPath
  else if chars = [] then .error .missing
  else if maxPath < Utf8.size chars then .error .nameTooLong
  else d.walk (d.base chars) (Path.names chars)

/-- Where a name leads from the directory `here`, whether or not something is there. -/
def follow (here : List (List Char)) (name : List Char) : List (List Char) :=
  if Path.isIdle name then here
  else if name = ['.', '.'] then here.dropLast
  else here ++ [name]

def set (d : Disk) (place : List (List Char)) (e : Entry) : Disk :=
  { d with entries := (place, e) :: d.entries }

/-- Puts an entry where the names lead from `here`. All on the way to it are directories from then
on, even those that `..` leaves again. -/
def put (d : Disk) (e : Entry) (here : List (List Char)) : List (List Char) → Disk
  | [] => d.set here e
  | name :: later => (d.set here .directory).put e (follow here name) later

def add (d : Disk) (path : String) (e : Entry) : Disk :=
  d.put e (d.base path.toList) (Path.names path.toList)

end Disk

end Packrat
