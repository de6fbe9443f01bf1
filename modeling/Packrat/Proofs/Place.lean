import Packrat.Cursor

/-! A position is sound if its line and column are those of its offset in its own text. Reading
takes a sound cursor to a sound one, and it meets no fault as long as its counts are machine
words. -/

namespace Packrat
set_option autoImplicit false

theorem lastLine_append_newline (before : List Char) : lastLine (before ++ ['\n']) = [] := by
  simp [lastLine]

theorem lastLine_append_singleton (before : List Char) {c : Char} (hc : c ≠ '\n') :
    lastLine (before ++ [c]) = lastLine before ++ [c] := by
  simp [lastLine, hc]

theorem length_lastLine_le (before : List Char) : (lastLine before).length ≤ before.length := by
  have h := (List.takeWhile_sublist (· ≠ '\n') (l := before.reverse)).length_le
  simpa [lastLine] using h

theorem Utf8.length_le_size (text : List Char) : text.length ≤ Utf8.size text := by
  induction text with
  | nil => exact Nat.le_refl 0
  | cons c text ih =>
    have hc := c.utf8Size_pos
    rw [List.length_cons, Utf8.size_cons]
    omega

theorem Utf8.append_of_cover (n : Nat) (text : List Char) :
    ∃ rest, text = Utf8.cover n text ++ rest := by
  fun_induction Utf8.cover n text with
  | case1 text => exact ⟨text, rfl⟩
  | case2 => exact ⟨[], rfl⟩
  | case3 n c text ih =>
    obtain ⟨rest, h⟩ := ih
    exact ⟨rest, congrArg (List.cons c) h⟩

theorem bind_eq_ok_iff {ε α β : Type} {x : Except ε α} {f : α → Except ε β} {b : β} :
    x >>= f = .ok b ↔ ∃ a, x = .ok a ∧ f a = .ok b := by
  constructor
  · intro h
    cases x with
    | error e => cases h
    | ok a => exact ⟨a, rfl, h⟩
  · rintro ⟨a, rfl, h⟩
    exact h

namespace Position

/-- The point between two parts of its text. -/
structure Between (p : Position) (before rest : List Char) : Prop where
  text : p.source.content = before ++ rest
  offset : p.offset = Utf8.size before
  line : p.line = 1 + before.count '\n'
  column : p.column = 1 + (lastLine before).length

def Sound (p : Position) : Prop := ∃ before rest, p.Between before rest

theorem Between.unique {p q : Position} {before rest before' rest' : List Char}
    (hp : p.Between before rest) (hq : q.Between before' rest') (hs : p.source = q.source)
    (ho : p.offset = q.offset) : before = before' ∧ rest = rest' := by
  have hd := Utf8.drop?_size_append before rest
  rw [← hp.text, ← hp.offset, hs, ho, hq.text, hq.offset, Utf8.drop?_size_append] at hd
  have hrest : rest = rest' := (Option.some.inj hd).symm
  have htext := hp.text
  rw [hs, hq.text, hrest] at htext
  exact ⟨(List.append_cancel_right htext).symm, hrest⟩

theorem Sound.eq_of_offset {p q : Position} (hp : p.Sound) (hq : q.Sound)
    (hs : p.source = q.source) (ho : p.offset = q.offset) : p = q := by
  obtain ⟨before, rest, hp⟩ := hp
  obtain ⟨before', rest', hq⟩ := hq
  obtain ⟨rfl, rfl⟩ := hp.unique hq hs ho
  have hline : p.line = q.line := hp.line.trans hq.line.symm
  have hcolumn : p.column = q.column := hp.column.trans hq.column.symm
  cases p
  cases q
  cases hs
  cases ho
  cases hline
  cases hcolumn
  rfl

end Position

/-- No text in memory is longer. -/
def maxText : Nat := 0x7FFFFFFFFFFFFFFF

def Source.Fits (s : Source) : Prop := Utf8.size s.content ≤ maxText

namespace Cursor

def Sound (c : Cursor) : Prop := c.position.Sound

theorem sound_atStart (s : Source) : (atStart s).Sound :=
  ⟨[], s.content, rfl, rfl, rfl, rfl⟩

theorem eq_of_position {c d : Cursor} (h : c.position = d.position) : c = d := by
  cases c
  cases d
  cases h
  rfl

theorem position_moveTo {c : Cursor} {p : Position} (hs : p.source = c.source) :
    (c.moveTo p).position = p := by
  cases p
  cases hs
  rfl

theorem moveTo_position {c d : Cursor} (hs : c.source = d.source) : c.moveTo d.position = d :=
  eq_of_position (position_moveTo hs.symm)

theorem Sound.moveTo {c : Cursor} {p : Position} (hp : p.Sound) (hs : p.source = c.source) :
    (c.moveTo p).Sound := by
  rw [Sound, position_moveTo hs]
  exact hp

structure Reads (c d : Cursor) : Prop where
  source : d.source = c.source
  sound : c.Sound → d.Sound

theorem Reads.refl (c : Cursor) : c.Reads c := ⟨rfl, id⟩

theorem rest_eq {c : Cursor} {before rest : List Char} (h : c.position.Between before rest) :
    c.rest = .ok rest := by
  have hd : Utf8.drop? c.offset c.source.content = some rest :=
    Utf8.drop?_eq_some_iff.2 ⟨before, h.text, h.offset.symm⟩
  simp [Cursor.rest, hd]

theorem past_newline_eq_ok_iff {c d : Cursor} :
    c.past '\n' = .ok d ↔ c.line + 1 < wordSize ∧
      d = { c with offset := c.offset + '\n'.utf8Size, line := c.line + 1, column := 1 } := by
  unfold past
  rw [if_pos rfl, bind_eq_ok_iff]
  constructor
  · rintro ⟨line, hline, hd⟩
    obtain ⟨hlt, rfl⟩ := addCount_eq_ok_iff.1 hline
    exact ⟨hlt, (Except.ok.inj hd).symm⟩
  · rintro ⟨hlt, rfl⟩
    exact ⟨c.line + 1, addCount_eq_ok_iff.2 ⟨hlt, rfl⟩, rfl⟩

theorem past_eq_ok_iff {c d : Cursor} {ch : Char} (hc : ch ≠ '\n') :
    c.past ch = .ok d ↔ c.column + 1 < wordSize ∧
      d = { c with offset := c.offset + ch.utf8Size, column := c.column + 1 } := by
  unfold past
  rw [if_neg hc, bind_eq_ok_iff]
  constructor
  · rintro ⟨column, hcolumn, hd⟩
    obtain ⟨hlt, rfl⟩ := addCount_eq_ok_iff.1 hcolumn
    exact ⟨hlt, (Except.ok.inj hd).symm⟩
  · rintro ⟨hlt, rfl⟩
    exact ⟨c.column + 1, addCount_eq_ok_iff.2 ⟨hlt, rfl⟩, rfl⟩

theorem past_source {c d : Cursor} {ch : Char} (h : c.past ch = .ok d) : d.source = c.source := by
  by_cases hc : ch = '\n'
  · subst hc
    rw [(past_newline_eq_ok_iff.1 h).2]
  · rw [((past_eq_ok_iff hc).1 h).2]

theorem past_between {c d : Cursor} {ch : Char} {before rest : List Char}
    (hb : c.position.Between before (ch :: rest)) (h : c.past ch = .ok d) :
    d.position.Between (before ++ [ch]) rest := by
  have htext : c.source.content = before ++ [ch] ++ rest := by
    rw [List.append_assoc]
    exact hb.text
  have hoffset : c.offset + ch.utf8Size = Utf8.size (before ++ [ch]) := by
    rw [Utf8.size_append, ← hb.offset]
    rfl
  have hline : c.line = 1 + before.count '\n' := hb.line
  have hcolumn : c.column = 1 + (lastLine before).length := hb.column
  by_cases hc : ch = '\n'
  · subst hc
    obtain ⟨-, rfl⟩ := past_newline_eq_ok_iff.1 h
    refine ⟨htext, hoffset, ?_, ?_⟩
    · show c.line + 1 = _
      rw [hline, List.count_append, List.count_singleton_self]
      omega
    · show 1 = _
      rw [lastLine_append_newline]
      rfl
  · obtain ⟨-, rfl⟩ := (past_eq_ok_iff hc).1 h
    refine ⟨htext, hoffset, ?_, ?_⟩
    · show c.line = _
      rw [hline, List.count_append, List.count_singleton, beq_false_of_ne hc]
      rfl
    · show c.column + 1 = _
      rw [hcolumn, lastLine_append_singleton before hc, List.length_append]
      rfl

theorem past_ok {c : Cursor} {ch : Char} {before rest : List Char}
    (hb : c.position.Between before (ch :: rest)) (hfits : c.source.Fits) :
    ∃ d, c.past ch = .ok d := by
  have hline : c.line = 1 + before.count '\n' := hb.line
  have hcolumn : c.column = 1 + (lastLine before).length := hb.column
  have hcount := List.count_le_length (a := '\n') (l := before)
  have hlast := length_lastLine_le before
  have hlength := Utf8.length_le_size c.source.content
  have hsplit : c.source.content.length = before.length + (rest.length + 1) := by
    rw [show c.source.content = _ from hb.text, List.length_append, List.length_cons]
  have hlt : before.length + 2 < wordSize := by
    unfold Source.Fits maxText at hfits
    unfold wordSize
    omega
  by_cases hc : ch = '\n'
  · subst hc
    exact ⟨_, past_newline_eq_ok_iff.2 ⟨by omega, rfl⟩⟩
  · exact ⟨_, (past_eq_ok_iff hc).2 ⟨by omega, rfl⟩⟩

theorem pastAll_source {c d : Cursor} {text : List Char} (h : c.pastAll text = .ok d) :
    d.source = c.source := by
  induction text generalizing c with
  | nil => rw [← Except.ok.inj h]
  | cons ch text ih =>
    obtain ⟨e, he, hd⟩ := bind_eq_ok_iff.1 h
    exact (ih hd).trans (past_source he)

theorem pastAll_between {c d : Cursor} {text before rest : List Char}
    (hb : c.position.Between before (text ++ rest)) (h : c.pastAll text = .ok d) :
    d.position.Between (before ++ text) rest := by
  induction text generalizing c before with
  | nil =>
    cases h
    simpa using hb
  | cons ch text ih =>
    obtain ⟨e, he, hd⟩ := bind_eq_ok_iff.1 h
    simpa using ih (past_between hb he) hd

theorem pastAll_ok {c : Cursor} {text before rest : List Char}
    (hb : c.position.Between before (text ++ rest)) (hfits : c.source.Fits) :
    ∃ d, c.pastAll text = .ok d := by
  induction text generalizing c before with
  | nil => exact ⟨c, rfl⟩
  | cons ch text ih =>
    obtain ⟨e, he⟩ := past_ok hb hfits
    obtain ⟨d, hd⟩ := ih (past_between hb he) (past_source he ▸ hfits)
    exact ⟨d, bind_eq_ok_iff.2 ⟨e, he, hd⟩⟩

theorem reads_advance {c d : Cursor} {n : Nat} (h : c.advance n = .ok d) : c.Reads d := by
  obtain ⟨_, -, h⟩ := bind_eq_ok_iff.1 h
  obtain ⟨ahead, hahead, h⟩ := bind_eq_ok_iff.1 h
  refine ⟨pastAll_source h, ?_⟩
  rintro ⟨before, rest, hb⟩
  obtain rfl : rest = ahead := Except.ok.inj ((rest_eq hb).symm.trans hahead)
  obtain ⟨left, hleft⟩ := Utf8.append_of_cover n rest
  rw [hleft] at hb
  exact ⟨_, _, pastAll_between hb h⟩

theorem advance_ok {c : Cursor} {n : Nat} (hs : c.Sound) (hfits : c.source.Fits)
    (hn : c.offset + n < wordSize) : ∃ d, c.advance n = .ok d := by
  obtain ⟨before, rest, hb⟩ := hs
  obtain ⟨left, hleft⟩ := Utf8.append_of_cover n rest
  obtain ⟨d, hd⟩ := pastAll_ok (hleft ▸ hb) hfits
  refine ⟨d, bind_eq_ok_iff.2 ⟨c.offset + n, addCount_eq_ok_iff.2 ⟨hn, rfl⟩, ?_⟩⟩
  exact bind_eq_ok_iff.2 ⟨rest, rest_eq hb, hd⟩

/-- No text that is ahead takes the cursor beyond a machine word. -/
theorem advance_size_ok {c : Cursor} {before text rest : List Char}
    (hb : c.position.Between before (text ++ rest)) (hfits : c.source.Fits) :
    ∃ d, c.advance (Utf8.size text) = .ok d := by
  refine advance_ok ⟨_, _, hb⟩ hfits ?_
  have hoffset : c.offset = Utf8.size before := hb.offset
  have hsize : Utf8.size c.source.content =
      Utf8.size before + (Utf8.size text + Utf8.size rest) := by
    rw [show c.source.content = _ from hb.text, Utf8.size_append, Utf8.size_append]
  unfold Source.Fits maxText at hfits
  unfold wordSize
  omega

theorem peek_ok {c : Cursor} {before rest : List Char} (hb : c.position.Between before rest) :
    c.peek = .ok rest.head? :=
  bind_eq_ok_iff.2 ⟨rest, rest_eq hb, rfl⟩

theorem startsWith_ok {c : Cursor} {before rest : List Char} (text : List Char)
    (hb : c.position.Between before rest) : c.startsWith text = .ok (text.isPrefixOf rest) :=
  bind_eq_ok_iff.2 ⟨rest, rest_eq hb, rfl⟩

theorem reads_next {c d : Cursor} {ch? : Option Char} (h : c.next = .ok (ch?, d)) : c.Reads d := by
  obtain ⟨ahead?, -, h⟩ := bind_eq_ok_iff.1 h
  cases ahead? with
  | none =>
    cases h
    exact .refl c
  | some ch =>
    obtain ⟨e, he, h⟩ := bind_eq_ok_iff.1 h
    cases h
    exact reads_advance he

theorem next_ok {c : Cursor} (hs : c.Sound) (hfits : c.source.Fits) : ∃ r, c.next = .ok r := by
  obtain ⟨before, rest, hb⟩ := hs
  cases rest with
  | nil => exact ⟨_, bind_eq_ok_iff.2 ⟨none, peek_ok hb, rfl⟩⟩
  | cons ch rest =>
    obtain ⟨d, hd⟩ := advance_size_ok (show c.position.Between before ([ch] ++ rest) from hb) hfits
    exact ⟨_, bind_eq_ok_iff.2 ⟨some ch, peek_ok hb, bind_eq_ok_iff.2 ⟨d, hd, rfl⟩⟩⟩

theorem reads_eat {c d : Cursor} {text : List Char} {taken : Bool}
    (h : c.eat text = .ok (taken, d)) : c.Reads d := by
  obtain ⟨ahead, -, h⟩ := bind_eq_ok_iff.1 h
  cases ahead with
  | false =>
    cases h
    exact .refl c
  | true =>
    obtain ⟨e, he, h⟩ := bind_eq_ok_iff.1 h
    cases h
    exact reads_advance he

theorem eat_ok {c : Cursor} (text : List Char) (hs : c.Sound) (hfits : c.source.Fits) :
    ∃ r, c.eat text = .ok r := by
  obtain ⟨before, rest, hb⟩ := hs
  cases ht : text.isPrefixOf rest with
  | false => exact ⟨_, bind_eq_ok_iff.2 ⟨false, ht ▸ startsWith_ok text hb, rfl⟩⟩
  | true =>
    obtain ⟨left, hleft⟩ := List.isPrefixOf_iff_prefix.1 ht
    obtain ⟨d, hd⟩ := advance_size_ok (hleft ▸ hb) hfits
    exact ⟨_, bind_eq_ok_iff.2 ⟨true, ht ▸ startsWith_ok text hb, bind_eq_ok_iff.2 ⟨d, hd, rfl⟩⟩⟩

theorem reads_eatWhile {c d : Cursor} {p : Char → Bool} {text : List Char}
    (h : c.eatWhile p = .ok (text, d)) : c.Reads d := by
  obtain ⟨ahead, -, h⟩ := bind_eq_ok_iff.1 h
  obtain ⟨e, he, h⟩ := bind_eq_ok_iff.1 h
  cases h
  exact reads_advance he

theorem eatWhile_ok {c : Cursor} (p : Char → Bool) (hs : c.Sound) (hfits : c.source.Fits) :
    ∃ r, c.eatWhile p = .ok r := by
  obtain ⟨before, rest, hb⟩ := hs
  have hsplit := List.takeWhile_append_dropWhile (p := p) (l := rest)
  obtain ⟨d, hd⟩ := advance_size_ok (hsplit.symm ▸ hb) hfits
  exact ⟨_, bind_eq_ok_iff.2 ⟨rest, rest_eq hb, bind_eq_ok_iff.2 ⟨d, hd, rfl⟩⟩⟩

theorem reads_eatRegex {c d : Cursor} {r : Regex} {text? : Option (List Char)}
    (h : c.eatRegex r = .ok (text?, d)) : c.Reads d := by
  obtain ⟨ahead, -, h⟩ := bind_eq_ok_iff.1 h
  split at h
  · cases h
    exact .refl c
  · obtain ⟨e, he, h⟩ := bind_eq_ok_iff.1 h
    cases h
    exact reads_advance he

theorem eatRegex_ok {c : Cursor} (r : Regex) (hs : c.Sound) (hfits : c.source.Fits) :
    ∃ a, c.eatRegex r = .ok a := by
  obtain ⟨before, rest, hb⟩ := hs
  cases ht : r.eaten? rest with
  | none => exact ⟨(none, c), bind_eq_ok_iff.2 ⟨rest, rest_eq hb, by rw [ht]; rfl⟩⟩
  | some text =>
    obtain ⟨left, hleft⟩ := Regex.append_of_eaten? ht
    obtain ⟨d, hd⟩ := advance_size_ok (hleft ▸ hb) hfits
    refine ⟨(some text, d), bind_eq_ok_iff.2 ⟨rest, rest_eq hb, ?_⟩⟩
    rw [ht]
    exact bind_eq_ok_iff.2 ⟨d, hd, rfl⟩

end Cursor

end Packrat
