import Packrat.Proofs.Offsets

/-! Taking one character after the other. What is taken at once can be taken that way: the cursor
comes to the same place, with the same line and column. -/

namespace Packrat.Cursor
set_option autoImplicit false

/-- Takes one character after the other, as often as told. -/
def nexts (c : Cursor) : Nat → Except Fault (List (Option Char) × Cursor)
  | 0 => return ([], c)
  | k + 1 => do
    let (ch?, d) ← c.next
    let (chs, e) ← d.nexts k
    return (ch? :: chs, e)

/-- The loop that takes characters for as long as the condition holds comes to its end, with that
text. -/
inductive NextWhile (p : Cursor → Prop) : Cursor → List Char → Cursor → Prop where
  | done {c : Cursor} (hc : ¬p c) : NextWhile p c [] c
  | step {c d e : Cursor} {ch? : Option Char} {text : List Char} (hc : p c)
    (hnext : c.next = .ok (ch?, d)) (hmore : NextWhile p d text e) :
    NextWhile p c (ch?.toList ++ text) e

theorem NextWhile.unique {p : Cursor → Prop} {c d e : Cursor} {text text' : List Char}
    (h : NextWhile p c text d) (h' : NextWhile p c text' e) : text = text' ∧ d = e := by
  induction h generalizing text' e with
  | done hc =>
    cases h' with
    | done => exact ⟨rfl, rfl⟩
    | step hc' _ _ => exact absurd hc' hc
  | step hc hnext _ ih =>
    cases h' with
    | done hc' => exact absurd hc hc'
    | step _ hnext' hmore' =>
      cases hnext.symm.trans hnext'
      obtain ⟨rfl, rfl⟩ := ih hmore'
      exact ⟨rfl, rfl⟩

variable {c d : Cursor} {before text rest : List Char}

theorem eq_of_between {rest' : List Char} (hc : c.position.Between before rest)
    (hd : d.position.Between before rest') (hs : c.source = d.source) : c = d :=
  eq_of_position (Position.Sound.eq_of_offset ⟨_, _, hc⟩ ⟨_, _, hd⟩ hs
    (hc.offset.trans hd.offset.symm))

theorem between_advance {n : Nat} (hb : c.position.Between before rest) (h : c.advance n = .ok d) :
    ∃ left, rest = Utf8.cover n rest ++ left ∧ d.source = c.source ∧
      d.position.Between (before ++ Utf8.cover n rest) left := by
  have hsource := (reads_advance h).source
  obtain ⟨_, -, h⟩ := bind_eq_ok_iff.1 h
  obtain ⟨ahead, hahead, h⟩ := bind_eq_ok_iff.1 h
  obtain rfl := Except.ok.inj ((rest_eq hb).symm.trans hahead)
  obtain ⟨left, hleft⟩ := Utf8.append_of_cover n rest
  exact ⟨left, hleft, hsource, pastAll_between (hleft ▸ hb) h⟩

theorem advance_size_between (hb : c.position.Between before (text ++ rest))
    (hfits : c.source.Fits) :
    ∃ d, c.advance (Utf8.size text) = .ok d ∧ d.source = c.source ∧
      d.position.Between (before ++ text) rest := by
  obtain ⟨d, hd⟩ := advance_size_ok hb hfits
  obtain ⟨left, hleft, hsource, hd'⟩ := between_advance hb hd
  rw [Utf8.cover_size_append] at hleft hd'
  obtain rfl := List.append_cancel_left hleft
  exact ⟨d, hd, hsource, hd'⟩

theorem next_of_nil (hb : c.position.Between before []) : c.next = .ok (none, c) :=
  bind_eq_ok_iff.2 ⟨none, peek_ok hb, rfl⟩

theorem next_between {ch : Char} (hb : c.position.Between before (ch :: rest))
    (hfits : c.source.Fits) :
    ∃ d, c.next = .ok (some ch, d) ∧ d.source = c.source ∧
      d.position.Between (before ++ [ch]) rest := by
  have hone : c.position.Between before ([ch] ++ rest) := hb
  obtain ⟨d, hd, hsource, hd'⟩ := advance_size_between hone hfits
  refine ⟨d, ?_, hsource, hd'⟩
  exact bind_eq_ok_iff.2 ⟨some ch, peek_ok hb, bind_eq_ok_iff.2 ⟨d, hd, rfl⟩⟩

/-- The characters ahead are taken one after the other. -/
theorem nexts_between (hb : c.position.Between before (text ++ rest)) (hfits : c.source.Fits) :
    ∃ d, c.nexts text.length = .ok (text.map some, d) ∧ d.source = c.source ∧
      d.position.Between (before ++ text) rest := by
  induction text generalizing c before with
  | nil => exact ⟨c, rfl, rfl, by simpa using hb⟩
  | cons ch text ih =>
    obtain ⟨d, hd, hsource, hd'⟩ := next_between hb hfits
    obtain ⟨e, he, hsource', he'⟩ := ih hd' (hsource ▸ hfits)
    refine ⟨e, ?_, hsource'.trans hsource, by simpa using he'⟩
    exact bind_eq_ok_iff.2 ⟨_, hd, bind_eq_ok_iff.2 ⟨_, he, rfl⟩⟩

end Packrat.Cursor
