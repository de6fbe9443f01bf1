/-! Ranges of characters in UTF-8. A row is a list of byte ranges; a sequence of bytes fits it if
each byte lies in its range. The characters of a range are the sequences that fit one of its
rows. -/

namespace Packrat.Utf8
set_option autoImplicit false

/-- Rows for the numbers from `lo` to `hi`, in base 64 with `further` digits behind the first one.
Each byte is a digit with a mark: `mark` on the first, 0x80 on those behind it. -/
def rows : Nat → Nat → Nat → Nat → List (List (Nat × Nat))
  | 0, mark, lo, hi => [[(mark + lo, mark + hi)]]
  | further + 1, mark, lo, hi =>
    let unit := 1 <<< (6 * (further + 1))
    let rowsBehind := fun first last lo hi =>
      (rows further 0x80 lo hi).map ((mark + first, mark + last) :: ·)
    let (a, b) := (lo / unit, hi / unit)
    if a = b then rowsBehind a a (lo % unit) (hi % unit)
    else
      let (below, first) :=
        if lo % unit = 0 then ([], a) else (rowsBehind a a (lo % unit) (unit - 1), a + 1)
      let (above, last) :=
        if hi % unit = unit - 1 then ([], b) else (rowsBehind b b 0 (hi % unit), b - 1)
      below ++ (if first ≤ last then rowsBehind first last 0 (unit - 1) else []) ++ above

structure Block where
  first : Nat
  last : Nat
  /-- On the first byte. -/
  mark : Nat
  /-- How many bytes are behind the first one. -/
  further : Nat

def blocks : List Block :=
  [⟨0, 0x7f, 0, 0⟩, ⟨0x80, 0x7ff, 0xc0, 1⟩, ⟨0x800, 0xd7ff, 0xe0, 2⟩, ⟨0xe000, 0xffff, 0xe0, 2⟩,
   ⟨0x10000, 0x10ffff, 0xf0, 3⟩]

def byteRows (lo hi : Nat) : List (List (Nat × Nat)) :=
  blocks.flatMap fun b =>
    if max lo b.first ≤ min hi b.last then
      rows b.further b.mark (max lo b.first) (min hi b.last)
    else []

example : byteRows 0x7f 0x1001 =
    [[(0x7f, 0x7f)], [(0xc2, 0xdf), (0x80, 0xbf)], [(0xe0, 0xe0), (0xa0, 0xbf), (0x80, 0xbf)],
     [(0xe1, 0xe1), (0x80, 0x80), (0x80, 0x81)]] := by decide

end Packrat.Utf8
