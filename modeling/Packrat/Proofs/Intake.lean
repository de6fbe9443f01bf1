import Packrat.Proofs.Stepping

/-! Taking text: a character, a literal, a run of a class, or a match. What is taken is the text at
the cursor, and leads where its characters lead one by one. So a sequence of such calls takes all
that is between its two ends, each character once. -/

namespace Packrat
set_option autoImplicit false

/-- A search for matches. A match is told by its first byte and the byte behind it; one at the start
of a text takes whole characters of it. -/
structure Finder where
  find? : List Char → Option (Nat × Nat)
  whole : ∀ {text : List Char} {stop : Nat}, find? text = some (0, stop) →
    (Utf8.take? stop text).isSome

/-- What the match takes if it is at the start of the text. -/
def Finder.taken? (f : Finder) (text : List Char) : Option (List Char) :=
  match h : f.find? text with
  | some (0, stop) => some ((Utf8.take? stop text).get (f.whole h))
  | _ => none

theorem Finder.taken?_eq_some_iff {f : Finder} {text found : List Char} :
    f.taken? text = some found ↔
      ∃ stop, f.find? text = some (0, stop) ∧ Utf8.take? stop text = some found := by
  unfold taken?
  split
  · next stop h => simp [h, Option.eq_some_iff_get_eq, f.whole h]
  · next h =>
    constructor
    · intro h
      cases h
    · rintro ⟨stop, hfind, -⟩
      exact (h stop hfind).elim

namespace Regex
variable {r : Regex} {text : List Char}

theorem le_length_of_searchFrom : ∀ {before? : Option Char} {skipped start n : Nat},
    r.searchFrom before? skipped text = some (start, n) → start ≤ skipped + text.length := by
  induction text with
  | nil =>
    intro before? skipped start n h
    obtain ⟨_, -, h⟩ := Option.map_eq_some_iff.1 h
    cases h
    exact Nat.le_refl _
  | cons c rest ih =>
    intro before? skipped start n h
    unfold searchFrom at h
    split at h
    · cases h
      exact Nat.le_add_right _ _
    · have hle := ih h
      rw [List.length_cons]
      omega

theorem eaten?_eq_some_iff {found : List Char} :
    r.eaten? text = some found ↔ ∃ n, r.search text = some (0, n) ∧ text.take n = found := by
  rw [eaten?_eq_search]
  split
  · next n h => simp [h]
  · next h =>
    constructor
    · intro h
      cases h
    · rintro ⟨n, hn, -⟩
      exact (h n hn).elim

/-- The leftmost match by its bytes. -/
def find? (r : Regex) (text : List Char) : Option (Nat × Nat) :=
  (r.search text).map fun (start, n) =>
    (Utf8.size (text.take start), Utf8.size (text.take (start + n)))

theorem find?_eq_some_zero_iff {stop : Nat} :
    r.find? text = some (0, stop) ↔
      ∃ n, r.search text = some (0, n) ∧ Utf8.size (text.take n) = stop := by
  constructor
  · intro h
    obtain ⟨⟨start, n⟩, hsearch, h⟩ := Option.map_eq_some_iff.1 h
    obtain ⟨hstart, hstop⟩ := Prod.mk.inj h
    have hlength := Utf8.length_le_size (text.take start)
    have hle := le_length_of_searchFrom hsearch
    rw [List.length_take] at hlength
    obtain rfl : start = 0 := by omega
    rw [Nat.zero_add] at hstop
    exact ⟨n, hsearch, hstop⟩
  · rintro ⟨n, hsearch, rfl⟩
    simp [find?, hsearch]

theorem take?_size_take (text : List Char) (n : Nat) :
    Utf8.take? (Utf8.size (text.take n)) text = some (text.take n) :=
  Utf8.take?_eq_some_iff.2 ⟨text.drop n, (List.take_append_drop n text).symm, rfl⟩

def finder (r : Regex) : Finder where
  find? := r.find?
  whole := by
    intro text stop h
    obtain ⟨n, -, rfl⟩ := find?_eq_some_zero_iff.1 h
    rw [take?_size_take]
    rfl

theorem taken?_finder (r : Regex) : r.finder.taken? = r.eaten? := by
  funext text
  ext found
  rw [Finder.taken?_eq_some_iff, eaten?_eq_some_iff]
  constructor
  · rintro ⟨stop, hfind, htake⟩
    obtain ⟨n, hn, rfl⟩ := find?_eq_some_zero_iff.1 hfind
    rw [take?_size_take] at htake
    exact ⟨n, hn, Option.some.inj htake⟩
  · rintro ⟨n, hn, rfl⟩
    exact ⟨_, find?_eq_some_zero_iff.2 ⟨n, hn, rfl⟩, take?_size_take text n⟩

end Regex

namespace Cursor

/-- Reads what the search finds at the cursor, which it takes for the start of the text. -/
def eatFound (c : Cursor) (f : Finder) : Except Fault (Option (List Char) × Cursor) := do
  match f.taken? (← c.rest) with
  | none => return (none, c)
  | some text => return (some text, ← c.advance (Utf8.size text))

/-- Reading with an expression is reading with the search for it. -/
theorem eatRegex_eq_eatFound (c : Cursor) (r : Regex) : c.eatRegex r = c.eatFound r.finder := by
  rw [eatFound, Regex.taken?_finder]
  rfl

end Cursor

/-- A call that takes text. -/
inductive Intake where
  | next
  | eat (text : List Char)
  | eatWhile (p : Char → Bool)
  | eatRegex (r : Regex)
  /-- With a search that is no expression's. -/
  | eatFound (f : Finder)

namespace Intake

/-- Gives what is taken, if the call reports that anything is, and the cursor behind it. -/
def run (c : Cursor) : Intake → Except Fault (Option (List Char) × Cursor)
  | .next => return (← c.next).map (Option.map fun ch => [ch]) id
  | .eat text => return (← c.eat text).map (fun taken => if taken then some text else none) id
  | .eatWhile p => return (← c.eatWhile p).map some id
  | .eatRegex r => c.eatRegex r
  | .eatFound f => c.eatFound f

def runAll (c : Cursor) : List Intake → Except Fault (List (Option (List Char)) × Cursor)
  | [] => return ([], c)
  | i :: is => do
    let (text?, d) ← i.run c
    let (texts, e) ← runAll d is
    return (text? :: texts, e)

end Intake

namespace Cursor
variable {c d e : Cursor} {before text more rest : List Char}

/-- The text is what the source has between the two cursors. Its characters, taken one by one, lead
from the one to the other, where what is left is what the source has there. -/
structure Consumes (c : Cursor) (text : List Char) (d : Cursor) : Prop where
  source : d.source = c.source
  slice : c.source.slice? c.offset d.offset = some text
  stepwise : c.nexts text.length = .ok (text.map some, d)
  rest : ∃ rest, d.rest = .ok rest ∧
    c.source.slice? d.offset (Utf8.size c.source.content) = some rest

/-- Both cursors are sound, with the text between them. -/
structure Takes (c : Cursor) (text : List Char) (d : Cursor) : Prop where
  source : d.source = c.source
  between : ∃ before rest, c.position.Between before (text ++ rest) ∧
    d.position.Between (before ++ text) rest

theorem Takes.refl (hs : c.Sound) : c.Takes [] c := by
  obtain ⟨before, rest, hb⟩ := hs
  exact ⟨rfl, before, rest, hb, by simpa using hb⟩

theorem Takes.trans (h : c.Takes text d) (h' : d.Takes more e) : c.Takes (text ++ more) e := by
  obtain ⟨before, _, hc, hd⟩ := h.between
  obtain ⟨_, rest, hd', he⟩ := h'.between
  obtain ⟨rfl, rfl⟩ := hd.unique hd' rfl rfl
  refine ⟨h'.source.trans h.source, before, rest, ?_, ?_⟩
  · rwa [List.append_assoc]
  · rwa [← List.append_assoc]

theorem Takes.sound (h : c.Takes text d) : d.Sound := by
  obtain ⟨_, _, -, hd⟩ := h.between
  exact ⟨_, _, hd⟩

theorem Takes.unique (h : c.Takes text d) (h' : c.Takes text e) : d = e := by
  obtain ⟨_, _, hc, hd⟩ := h.between
  obtain ⟨_, _, hc', he⟩ := h'.between
  obtain ⟨rfl, -⟩ := hc.unique hc' rfl rfl
  exact eq_of_between hd he (h.source.trans h'.source.symm)

theorem Takes.text_unique (h : c.Takes text d) (h' : c.Takes more d) : text = more := by
  obtain ⟨_, _, hc, hd⟩ := h.between
  obtain ⟨_, _, hc', hd'⟩ := h'.between
  obtain ⟨rfl, -⟩ := hc.unique hc' rfl rfl
  exact List.append_cancel_left (hd.unique hd' rfl rfl).1

theorem Takes.consumes (h : c.Takes text d) (hfits : c.source.Fits) : c.Consumes text d := by
  obtain ⟨before, rest, hb, hd⟩ := h.between
  have htext : c.source.content = before ++ text ++ rest := by
    rw [List.append_assoc]
    exact hb.text
  have hc : c.offset = Utf8.size before := hb.offset
  have hd' : d.offset = Utf8.size (before ++ text) := hd.offset
  obtain ⟨e, he, hsource, he'⟩ := nexts_between hb hfits
  obtain rfl := eq_of_between he' hd (hsource.trans h.source.symm)
  refine ⟨h.source, ?_, he, rest, rest_eq hd, ?_⟩
  · rw [hc, hd']
    exact Source.slice?_eq htext
  · have hbehind : c.source.content = before ++ text ++ rest ++ [] := by simpa using htext
    have hslice := Source.slice?_eq hbehind
    rwa [← htext, ← hd'] at hslice

theorem takes_advance (hb : c.position.Between before (text ++ rest)) (hfits : c.source.Fits) :
    ∃ d, c.advance (Utf8.size text) = .ok d ∧ c.Takes text d := by
  obtain ⟨d, hd, hs, hd'⟩ := advance_size_between hb hfits
  exact ⟨d, hd, hs, before, rest, hb, hd'⟩

theorem takes_next (hs : c.Sound) (hfits : c.source.Fits) :
    ∃ ch? d, c.next = .ok (ch?, d) ∧ c.Takes ch?.toList d := by
  obtain ⟨before, rest, hb⟩ := id hs
  cases rest with
  | nil => exact ⟨none, c, next_of_nil hb, .refl hs⟩
  | cons ch rest =>
    obtain ⟨d, hd, hsource, hd'⟩ := next_between hb hfits
    exact ⟨some ch, d, hd, hsource, before, rest, hb, hd'⟩

theorem eat_of_ahead (hb : c.position.Between before (text ++ rest)) (hfits : c.source.Fits) :
    ∃ d, c.eat text = .ok (true, d) ∧ c.Takes text d := by
  obtain ⟨d, hd, htakes⟩ := takes_advance hb hfits
  have hahead : text.isPrefixOf (text ++ rest) = true :=
    List.isPrefixOf_iff_prefix.2 (List.prefix_append text rest)
  refine ⟨d, bind_eq_ok_iff.2 ⟨true, hahead ▸ startsWith_ok text hb, ?_⟩, htakes⟩
  exact bind_eq_ok_iff.2 ⟨d, hd, rfl⟩

theorem eat_of_not_ahead (hb : c.position.Between before rest) (h : ¬text <+: rest) :
    c.eat text = .ok (false, c) := by
  have hahead : text.isPrefixOf rest = false := by
    rwa [← Bool.not_eq_true, List.isPrefixOf_iff_prefix]
  exact bind_eq_ok_iff.2 ⟨false, hahead ▸ startsWith_ok text hb, rfl⟩

theorem takes_eat (hs : c.Sound) (hfits : c.source.Fits) (text : List Char) :
    ∃ taken d, c.eat text = .ok (taken, d) ∧ c.Takes (if taken then text else []) d := by
  obtain ⟨before, rest, hb⟩ := id hs
  by_cases h : text <+: rest
  · obtain ⟨left, rfl⟩ := h
    obtain ⟨d, hd, htakes⟩ := eat_of_ahead hb hfits
    exact ⟨true, d, hd, htakes⟩
  · exact ⟨false, c, eat_of_not_ahead hb h, .refl hs⟩

theorem takes_eatWhile (hb : c.position.Between before rest) (hfits : c.source.Fits)
    (p : Char → Bool) :
    ∃ d, c.eatWhile p = .ok (rest.takeWhile p, d) ∧ c.Takes (rest.takeWhile p) d := by
  have hsplit := List.takeWhile_append_dropWhile (p := p) (l := rest)
  obtain ⟨d, hd, htakes⟩ := takes_advance (hsplit.symm ▸ hb) hfits
  exact ⟨d, bind_eq_ok_iff.2 ⟨rest, rest_eq hb, bind_eq_ok_iff.2 ⟨d, hd, rfl⟩⟩, htakes⟩

theorem takes_eatFound (hs : c.Sound) (hfits : c.source.Fits) (f : Finder) :
    ∃ text? d, c.eatFound f = .ok (text?, d) ∧ c.Takes (text?.getD []) d := by
  obtain ⟨before, rest, hb⟩ := id hs
  cases ht : f.taken? rest with
  | none =>
    refine ⟨none, c, bind_eq_ok_iff.2 ⟨rest, rest_eq hb, ?_⟩, .refl hs⟩
    rw [ht]
    rfl
  | some text =>
    obtain ⟨_, -, htake⟩ := Finder.taken?_eq_some_iff.1 ht
    obtain ⟨left, rfl, -⟩ := Utf8.take?_eq_some_iff.1 htake
    obtain ⟨d, hd, htakes⟩ := takes_advance hb hfits
    refine ⟨some text, d, bind_eq_ok_iff.2 ⟨_, rest_eq hb, ?_⟩, htakes⟩
    rw [ht]
    exact bind_eq_ok_iff.2 ⟨d, hd, rfl⟩

/-- The cursor is before a character of the class. -/
def Before (p : Char → Bool) (c : Cursor) : Prop := ∃ ch, c.peek = .ok (some ch) ∧ p ch

theorem nextWhile_takes (p : Char → Bool) (hb : c.position.Between before rest)
    (hfits : c.source.Fits) :
    ∃ d, NextWhile (Before p) c (rest.takeWhile p) d ∧ c.Takes (rest.takeWhile p) d := by
  induction rest generalizing c before with
  | nil =>
    refine ⟨c, .done ?_, .refl ⟨_, _, hb⟩⟩
    rintro ⟨ch, hpeek, -⟩
    cases (peek_ok hb).symm.trans hpeek
  | cons ch rest ih =>
    by_cases hp : p ch
    · obtain ⟨d, hd, hsource, hd'⟩ := next_between hb hfits
      obtain ⟨e, he, htakes⟩ := ih hd' (hsource ▸ hfits)
      have hfirst : c.Takes [ch] d := ⟨hsource, before, rest, hb, hd'⟩
      rw [List.takeWhile_cons_of_pos hp]
      exact ⟨e, .step ⟨ch, peek_ok hb, hp⟩ hd he, hfirst.trans htakes⟩
    · rw [List.takeWhile_cons_of_neg hp]
      refine ⟨c, .done ?_, .refl ⟨_, _, hb⟩⟩
      rintro ⟨ch', hpeek, hp'⟩
      cases (peek_ok hb).symm.trans hpeek
      exact hp hp'

/-- Taking a run of a class is the loop that takes characters for as long as they are of it. -/
theorem eatWhile_eq_ok_iff (hs : c.Sound) (hfits : c.source.Fits) {p : Char → Bool} :
    c.eatWhile p = .ok (text, d) ↔ NextWhile (Before p) c text d := by
  obtain ⟨before, rest, hb⟩ := hs
  obtain ⟨d', heat, htakes⟩ := takes_eatWhile hb hfits p
  obtain ⟨e, hloop, htakes'⟩ := nextWhile_takes p hb hfits
  obtain rfl := htakes.unique htakes'
  constructor
  · intro h
    cases heat.symm.trans h
    exact hloop
  · intro h
    obtain ⟨rfl, rfl⟩ := h.unique hloop
    exact heat

end Cursor

namespace Intake
open Cursor
variable {c : Cursor}

theorem run_takes (hs : c.Sound) (hfits : c.source.Fits) (i : Intake) :
    ∃ text? d, i.run c = .ok (text?, d) ∧ c.Takes (text?.getD []) d := by
  cases i with
  | next =>
    obtain ⟨ch?, d, hd, htakes⟩ := takes_next hs hfits
    refine ⟨_, d, bind_eq_ok_iff.2 ⟨_, hd, rfl⟩, ?_⟩
    cases ch? <;> exact htakes
  | eat text =>
    obtain ⟨taken, d, hd, htakes⟩ := takes_eat hs hfits text
    refine ⟨_, d, bind_eq_ok_iff.2 ⟨_, hd, rfl⟩, ?_⟩
    cases taken <;> exact htakes
  | eatWhile p =>
    obtain ⟨before, rest, hb⟩ := hs
    obtain ⟨d, hd, htakes⟩ := takes_eatWhile hb hfits p
    exact ⟨_, d, bind_eq_ok_iff.2 ⟨_, hd, rfl⟩, htakes⟩
  | eatRegex r =>
    rw [run, eatRegex_eq_eatFound]
    exact takes_eatFound hs hfits r.finder
  | eatFound f => exact takes_eatFound hs hfits f

theorem runAll_takes (hs : c.Sound) (hfits : c.source.Fits) (is : List Intake) :
    ∃ texts d, runAll c is = .ok (texts, d) ∧
      c.Takes (texts.flatMap fun text? => text?.getD []) d := by
  induction is generalizing c with
  | nil => exact ⟨[], c, rfl, .refl hs⟩
  | cons i is ih =>
    obtain ⟨text?, d, hd, htakes⟩ := run_takes hs hfits i
    obtain ⟨texts, e, he, hmore⟩ := ih htakes.sound (htakes.source ▸ hfits)
    refine ⟨text? :: texts, e, ?_, ?_⟩
    · exact bind_eq_ok_iff.2 ⟨_, hd, bind_eq_ok_iff.2 ⟨_, he, rfl⟩⟩
    · rw [List.flatMap_cons]
      exact htakes.trans hmore

/-- A call takes the text between the cursor before it and the one behind it, or leaves the cursor
where it is; taking a run of a class is the loop over its characters; and what a sequence of calls
takes makes up the text between its two ends. -/
theorem intakes_lose_nothing (hs : c.Sound) (hfits : c.source.Fits) :
    (∀ i : Intake, ∃ text? d, i.run c = .ok (text?, d) ∧
      (∀ text, text? = some text → c.Consumes text d) ∧ (text? = none → d = c)) ∧
    (∀ p text d, c.eatWhile p = .ok (text, d) ↔ NextWhile (Before p) c text d) ∧
    ∀ is : List Intake, ∃ texts d, runAll c is = .ok (texts, d) ∧
      c.Consumes (texts.flatMap fun text? => text?.getD []) d := by
  refine ⟨?_, fun p text d => eatWhile_eq_ok_iff hs hfits, ?_⟩
  · intro i
    obtain ⟨text?, d, hd, htakes⟩ := run_takes hs hfits i
    refine ⟨text?, d, hd, ?_, ?_⟩
    · rintro text rfl
      exact htakes.consumes hfits
    · rintro rfl
      exact htakes.unique (.refl hs)
  · intro is
    obtain ⟨texts, d, hd, htakes⟩ := runAll_takes hs hfits is
    exact ⟨texts, d, hd, htakes.consumes hfits⟩

def wideText : Source := ⟨0, "text", none, "é\nbb/".toList⟩

/-- The third call finds no `c` and leaves the cursor where it is. -/
theorem intakes_lose_nothing_wide :
    (Cursor.atStart wideText).Sound ∧ wideText.Fits ∧
      runAll (.atStart wideText) [.next, .eat "\nb".toList, .eat "c".toList, .eatWhile (· = 'b')] =
        .ok ([some ['é'], some ['\n', 'b'], none, some ['b']], ⟨wideText, 5, 2, 3⟩) ∧
      (Cursor.atStart wideText).Consumes "é\nbb".toList ⟨wideText, 5, 2, 3⟩ := by
  have hfits : wideText.Fits := by
    unfold Source.Fits
    decide
  have hrun : runAll (.atStart wideText)
      [.next, .eat "\nb".toList, .eat "c".toList, .eatWhile (· = 'b')] =
        .ok ([some ['é'], some ['\n', 'b'], none, some ['b']], ⟨wideText, 5, 2, 3⟩) := rfl
  obtain ⟨texts, d, hd, hconsumes⟩ := (intakes_lose_nothing (sound_atStart _) hfits).2.2
    [.next, .eat "\nb".toList, .eat "c".toList, .eatWhile (· = 'b')]
  cases hd.symm.trans hrun
  exact ⟨sound_atStart _, hfits, hrun, hconsumes⟩

end Intake

end Packrat
