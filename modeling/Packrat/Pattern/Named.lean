import Packrat.Text.CharSet

/-! Sets of ASCII characters that have names. In brackets, `[:alpha:]` is the set of all letters and
`[:^alpha:]` all that is no letter. -/

namespace Packrat.Pattern
set_option autoImplicit false

def namedRanges : List (String × List (Char × Char)) :=
  [("alnum", [('0', '9'), ('A', 'Z'), ('a', 'z')]),
   ("alpha", [('A', 'Z'), ('a', 'z')]),
   ("ascii", [('\x00', '\x7f')]),
   ("blank", [('\t', '\t'), (' ', ' ')]),
   ("cntrl", [('\x00', '\x1f'), ('\x7f', '\x7f')]),
   ("digit", [('0', '9')]),
   ("graph", [('!', '~')]),
   ("lower", [('a', 'z')]),
   ("print", [(' ', '~')]),
   ("punct", [('!', '/'), (':', '@'), ('[', '`'), ('\x7b', '~')]),
   ("space", [('\t', '\r'), (' ', ' ')]),
   ("upper", [('A', 'Z')]),
   ("word", [('0', '9'), ('A', 'Z'), ('_', '_'), ('a', 'z')]),
   ("xdigit", [('0', '9'), ('A', 'F'), ('a', 'f')])]

def namedSets : List (List Char × CharSet) :=
  namedRanges.flatMap fun (name, ranges) =>
    let set := ranges.foldl (fun s (first, last) => s.insertRange first.toNat last.toNat) .empty
    [("[:".toList ++ name.toList ++ ":]".toList, set),
     ("[:^".toList ++ name.toList ++ ":]".toList, set.compl)]

end Packrat.Pattern
