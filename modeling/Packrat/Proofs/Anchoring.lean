import Packrat.Proofs.Composition
import Packrat.Proofs.Grouping
import Packrat.Proofs.Joined
import Packrat.Proofs.Preference
import Packrat.Proofs.Skips

/-! Reading a pattern behind a mark for the start of the text, in a group. What is in the group is
read as it is alone, with one more group open below, so it comes to the same expression, two steps
deeper. -/

namespace Packrat
set_option autoImplicit false

namespace Pattern

namespace Reader
variable {lib : Library} {s s' : Reader} {c : Char} {p : Piece} {g : Group}

/-- With a group open below all others. -/
def inside (g : Group) (s : Reader) : Reader := { s with outer := s.outer ++ [g] }

theorem leave?_inside (h : s.outer ≠ []) : (s.inside g).leave? = s.leave?.map (inside g) := by
  obtain ⟨mode, group, outer, numbered, names⟩ := s
  cases outer with
  | nil => exact absurd rfl h
  | cons => rfl

theorem repeat?_inside (mode : Piece → Mode) :
    (s.inside g).repeat? mode = (s.repeat? mode).map (inside g) := by
  obtain ⟨mode', ⟨alternatives, pieces, dotAll, number?⟩, outer, numbered, names⟩ := s
  cases pieces <;> rfl

theorem plainStep_inside (h : c = ')' → s.outer ≠ []) :
    (s.inside g).plainStep c = (s.plainStep c).map (inside g) := by
  -- By the character: a `)`, what repeats, any other than those with a meaning, and the rest.
  fun_cases plainStep s c with
  | case2 => exact leave?_inside (h rfl)
  | case5 | case6 | case7 | case8 => exact repeat?_inside _
  | case13 =>
    rw [plainStep]
    all_goals first | assumption | skip
    rfl
  | _ => rfl

theorem plainStep_inside_of_finish? (hs : c = ')' → s.finish? = none) (hmode : s.mode = .plain) :
    orRefused ((s.inside g).plainStep c) = (orRefused (s.plainStep c)).map (inside g) := by
  rw [← orRefused_map]
  refine congrArg orRefused (plainStep_inside ?_)
  intro hc houter
  have h := hs hc
  rw [finish?, houter, hmode] at h
  cases h

/-- Only a `)` may do else inside a group, which is where all could end. -/
theorem step_inside (h : c = ')' → s.finish? = none) :
    (s.inside g).step lib c = (s.step lib c).map (inside g) := by
  obtain ⟨mode, group, outer, numbered, names⟩ := s
  unfold step
  cases mode with
  | plain => exact plainStep_inside_of_finish? h rfl
  | repeated piece least most? =>
    dsimp only [inside]
    split
    · rfl
    · refine plainStep_inside_of_finish?
        (s := Reader.push ⟨.plain, group, outer, numbered, names⟩ _) ?_ rfl
      intro hc
      cases outer with
      | nil => cases h hc
      | cons => rfl
  | bounds piece text =>
    dsimp only [inside]
    split
    · split <;> rfl
    · rfl
  | escape m =>
    dsimp only [inside]
    rcases m.step lib c with why | m | e
    · rfl
    · rfl
    · cases e <;> rfl
  | bracket b =>
    dsimp only [inside]
    split <;> rfl
  | opened =>
    dsimp only [inside]
    split
    · rfl
    · exact plainStep_inside_of_finish?
        (s := enterNumbered ⟨.plain, group, outer, numbered, names⟩) (fun _ => rfl) rfl
  | marked =>
    dsimp only [inside]
    split_ifs <;> rfl
  | markedDotAll | markedName =>
    dsimp only [inside]
    split <;> rfl
  | name text =>
    dsimp only [inside, enterNamed]
    split_ifs <;> rfl

/-- Where all could end no group is open that a `)` would close. -/
theorem step_of_finish? (h : s.finish? = some p) : s.step lib ')' = .error .refused := by
  obtain ⟨mode, group, outer, numbered, names⟩ := s
  cases outer with
  | cons => cases h
  | nil =>
    cases mode with
    | plain | repeated => rfl
    | _ => cases h

theorem step_inside_of_ok (h : s.step lib c = .ok s') :
    (s.inside g).step lib c = .ok (s'.inside g) := by
  have hfinish : c = ')' → s.finish? = none := by
    intro hc
    subst hc
    cases hp : s.finish? with
    | none => rfl
    | some p => cases (step_of_finish? hp).symm.trans h
  rw [step_inside hfinish, h]
  rfl

theorem foldlM_inside {text : List Char} (h : text.foldlM (step lib) s = .ok s') :
    text.foldlM (step lib) (s.inside g) = .ok (s'.inside g) := by
  induction text generalizing s with
  | nil =>
    cases h
    rfl
  | cons c text ih =>
    rw [List.foldlM_cons] at h ⊢
    obtain ⟨mid, hmid, h⟩ := bind_eq_ok_iff.1 h
    exact bind_eq_ok_iff.2 ⟨_, step_inside_of_ok hmid, ih h⟩

theorem foldlM_append_of_ok {before : List Char} (h : before.foldlM (step lib) s = .ok s')
    (behind : List Char) :
    (before ++ behind).foldlM (step lib) s = behind.foldlM (step lib) s' := by
  rw [List.foldlM_append, h]
  rfl

/-- The group that was open below is closed by a `)` where the pattern ends. -/
theorem step_close (h : s.finish? = some p) : (s.inside g).step lib ')' =
    .ok ⟨.plain, g.push (p.group s.group.number?), [], s.numbered, s.names⟩ := by
  obtain ⟨mode, group, outer, numbered, names⟩ := s
  cases outer with
  | cons => cases h
  | nil =>
    cases mode with
    | plain | repeated =>
      cases h
      rfl
    | _ => cases h

/-- Alternatives that have been read are joined. -/
theorem kept_joined : Kept fun g => ∀ a ∈ g.alternatives, a.regex.Joined where
  push _ _ hg := hg
  rewrite _ _ _ _ _ hg := hg
  nextAlternative _ hg := List.forall_mem_cons.2 ⟨Regex.joined_cat _, hg⟩

theorem joined_of_moves {gs : List Group} (h : Moves start.settled gs) :
    ∀ g ∈ gs, ∀ a ∈ g.alternatives, a.regex.Joined := by
  refine h.all kept_joined (fun _ _ a ha => absurd ha List.not_mem_nil) ?_
  intro g hg a ha
  cases List.mem_singleton.1 hg
  cases ha

/-- The group below all others is a mere pair of parentheses. -/
theorem number?_of_moves {gs : List Group} (h : Moves start.settled gs) :
    ∀ g ∈ gs.getLast?, g.number? = none := by
  have hkept : Kept fun g => g.number? = none :=
    ⟨fun _ _ hg => hg, fun _ _ _ _ _ hg => hg, fun _ hg => hg⟩
  refine h.bottom hkept ?_
  intro g hg
  cases hg
  rfl

theorem joined_content (h : ∀ a ∈ g.alternatives, a.regex.Joined) : g.content.regex.Joined := by
  apply Regex.joined_anyOf
  intro r hr
  obtain ⟨p, hp, rfl⟩ := List.mem_map.1 hr
  rcases List.mem_append.1 hp with hp | hp
  · exact h p (List.mem_reverse.1 hp)
  · rw [List.mem_singleton.1 hp]
    exact Regex.joined_cat _

/-- What has been read from the start is joined where it could end. -/
theorem joined_finish? (hs : Moves start.settled s.settled) (h : s.finish? = some p) :
    p.regex.Joined ∧ s.group.number? = none := by
  obtain ⟨mode, group, outer, numbered, names⟩ := s
  have hjoined := (List.forall_mem_cons.1 (joined_of_moves hs)).1
  cases outer with
  | cons => cases h
  | nil =>
    have hnumber := number?_of_moves hs _ rfl
    refine ⟨?_, hnumber⟩
    cases mode with
    | plain | repeated =>
      cases h
      exact joined_content hjoined
    | _ => cases h

end Reader

variable {lib : Library} {text : List Char} {p : Piece}

theorem piece_eq_ok_iff : piece lib text = .ok p ↔
    ∃ s, text.foldlM (Reader.step lib) Reader.start = .ok s ∧ s.finish? = some p := by
  rw [piece, bind_eq_ok_iff]
  simp only [orRefused_eq_ok_iff]

theorem read_eq_ok_iff {r : Regex} :
    read lib text = .ok r ↔ ∃ p, piece lib text = .ok p ∧ p.Allowed lib ∧ p.regex = r := by
  rw [read, bind_eq_ok_iff]
  refine exists_congr fun p => and_congr_right fun _ => ?_
  by_cases h : p.Allowed lib
  · rw [if_pos h, Except.ok.injEq]
    exact (and_iff_right h).symm
  · rw [if_neg h]
    exact iff_of_false nofun fun hr => h hr.1

theorem read_eq_error_iff {why : Trouble} : read lib text = .error why ↔
    piece lib text = .error why ∨
      why = .refused ∧ ∃ p, piece lib text = .ok p ∧ ¬p.Allowed lib := by
  unfold read
  cases piece lib text with
  | error => simp [bind, Except.bind]
  | ok p => by_cases h : p.Allowed lib <;> simp [h, bind, Except.bind, eq_comm]

theorem joined_of_piece (h : piece lib text = .ok p) : p.regex.Joined := by
  obtain ⟨s, hs, h⟩ := piece_eq_ok_iff.1 h
  exact (Reader.joined_finish? (Reader.moves_foldlM hs) h).1

/-- The group around a text that is anchored. -/
def Group.anchor : Group := ⟨[], [.plain (.edge .start)], false, none⟩

theorem foldlM_anchored (lib : Library) (text : List Char) :
    (anchored text).foldlM (Reader.step lib) Reader.start =
      (text.foldlM (Reader.step lib) (Reader.start.inside .anchor)) >>= fun s => s.step lib ')' := by
  have hopening : "\\A(?:".toList.foldlM (Reader.step lib) Reader.start =
      .ok (Reader.start.inside .anchor) := rfl
  unfold anchored
  generalize "\\A(?:".toList = opening at hopening
  rw [List.foldlM_append, List.foldlM_append, hopening]
  simp only [List.foldlM_cons, List.foldlM_nil, bind_pure]
  rfl

/-- The group of the text makes one step, and the sequence behind the mark another. -/
theorem content_anchor {p : Piece} (h : p.regex.Joined) :
    (Group.anchor.push (p.group none)).content =
      ⟨.cat [.edge .start, p.regex], p.depth + 2⟩ := by
  have hdepth : Piece.depthOf [.plain (.edge .start), p.group none] = p.depth + 1 :=
    Nat.max_eq_right (Nat.zero_le _)
  have hcat : (Group.anchor.push (p.group none)).alternative =
      ⟨.cat [.edge .start, p.regex], p.depth + 2⟩ := by
    rw [Group.alternative, Piece.cat, Piece.joined]
    exact congrArg (Piece.mk _) (congrArg (· + 1) hdepth)
  have hregex := Regex.anyOf_singleton (Regex.branches_cat_edge .start h)
  rw [Group.content, hcat]
  exact congrArg₂ Piece.mk hregex (Nat.max_eq_right (Nat.zero_le _))

theorem piece_anchored (hp : piece lib text = .ok p) :
    piece lib (anchored text) = .ok ⟨.cat [.edge .start, p.regex], p.depth + 2⟩ := by
  obtain ⟨s, hs, h⟩ := piece_eq_ok_iff.1 hp
  have hnumber := (Reader.joined_finish? (Reader.moves_foldlM hs) h).2
  have hclose : (anchored text).foldlM (Reader.step lib) Reader.start =
      .ok ⟨.plain, Group.anchor.push (p.group none), [], s.numbered, s.names⟩ := by
    rw [foldlM_anchored, Reader.foldlM_inside hs, ← hnumber]
    exact Reader.step_close h
  exact piece_eq_ok_iff.2 ⟨_, hclose, congrArg some (content_anchor (joined_of_piece hp))⟩

end Pattern

namespace Regex
variable {r : Regex}

/-- The expression matches this text where `later` is behind it, at the start of both. -/
def Matches (r : Regex) (taken later : List Char) : Prop :=
  r.Takes ⟨none, taken ++ later⟩ ⟨taken.getLast?, later⟩

theorem mem_ways_iff_matches {taken later : List Char} :
    taken.length ∈ r.ways none (taken ++ later) ↔ r.Matches taken later := by
  rw [mem_ways_iff, Option.or_none, Matches]

theorem ways_cat_start (h : r.Joined) (text : List Char) :
    (cat [.edge .start, r]).ways none text = r.ways none text := by
  rcases cat_edge .start h with h | ⟨rfl, h⟩
  · rw [h, ways_start_seq]
  · rw [h, ways_start]

theorem eaten?_eq (r : Regex) (text : List Char) :
    r.eaten? text = (r.ways none text).head?.map text.take := by
  rw [eaten?, length?_eq]

/-- A choice takes what its first alternative takes, and what the second takes if that is nothing. -/
theorem eaten?_alt (a b : Regex) (text : List Char) :
    (alt a b).eaten? text = (a.eaten? text).or (b.eaten? text) := by
  rw [eaten?_eq, eaten?_eq, eaten?_eq, ways_alt, List.head?_append, Option.map_or]

/-- Something is taken if and only if there is a match at the start of the text. -/
theorem isSome_eaten?_iff {text : List Char} : (r.eaten? text).isSome ↔
    ∃ taken later, text = taken ++ later ∧ r.Matches taken later := by
  rw [eaten?_eq, Option.isSome_map, List.isSome_head?]
  constructor
  · intro h
    obtain ⟨n, hn⟩ := List.exists_mem_of_ne_nil _ h
    have hle := le_length_of_mem_ways hn
    refine ⟨text.take n, text.drop n, (List.take_append_drop n text).symm, ?_⟩
    rw [← mem_ways_iff_matches, List.take_append_drop, List.length_take, Nat.min_eq_left hle]
    exact hn
  · rintro ⟨taken, later, rfl, hmatches⟩
    exact List.ne_nil_of_mem (mem_ways_iff_matches.2 hmatches)

/-- What an expression takes at the start of a text: of the matches that begin there, the one it
prefers. -/
structure Eats (r : Regex) (text : List Char) (taken? : Option (List Char)) : Prop where
  /-- It is the leftmost match of the text, unless that one begins later. -/
  search : taken? = match r.search text with
    | some (0, n) => some (text.take n)
    | _ => none
  isSome_iff : taken?.isSome ↔ ∃ taken later, text = taken ++ later ∧ r.Matches taken later
  /-- It is the first in the order of backtracking, where all matches are. -/
  first : taken? = (r.ways none text).head?.map text.take
  mem_ways_iff : ∀ taken later, text = taken ++ later →
    (taken.length ∈ r.ways none text ↔ r.Matches taken later)
  choice : ∀ a b, r = .alt a b → taken? = (a.eaten? text).or (b.eaten? text)

theorem eats_eaten? (r : Regex) (text : List Char) : r.Eats text (r.eaten? text) where
  search := r.eaten?_eq_search text
  isSome_iff := isSome_eaten?_iff
  first := r.eaten?_eq text
  mem_ways_iff := by
    rintro taken later rfl
    exact mem_ways_iff_matches
  choice := by
    rintro a b rfl
    exact eaten?_alt a b text

end Regex

namespace Cursor
variable {c : Cursor} {r r' : Regex}

theorem eatRegex_congr (h : ∀ text, r'.eaten? text = r.eaten? text) (c : Cursor) :
    c.eatRegex r' = c.eatRegex r := by
  unfold eatRegex
  simp only [h]

theorem exists_eatRegex {rest : List Char} (hs : c.Sound) (hfits : c.source.Fits)
    (hrest : c.rest = .ok rest) (r : Regex) : ∃ d, c.eatRegex r = .ok (r.eaten? rest, d) := by
  obtain ⟨⟨taken?, d⟩, h⟩ := eatRegex_ok r hs hfits
  obtain ⟨rest', hrest', hd⟩ := bind_eq_ok_iff.1 h
  obtain rfl := Except.ok.inj (hrest.symm.trans hrest')
  refine ⟨d, h.trans ?_⟩
  split at hd
  next ht =>
    cases hd
    rw [ht]
  next ht =>
    obtain ⟨e, -, hd⟩ := bind_eq_ok_iff.1 hd
    cases hd
    rw [ht]

end Cursor

namespace Pattern

/-- If there is room for an expression, there is with a mark for the start of the text before it,
too. -/
def Library.SparesMark (lib : Library) (r : Regex) : Prop :=
  lib.hasRoom r → lib.hasRoom (.cat [.edge .start, r])

/-- With digits and words of ASCII, and room for all expressions. -/
def Library.ascii : Library where
  digits := .range '0' '9'
  words := .ofRanges [(0x30, 0x39), (0x41, 0x5a), (0x5f, 0x5f), (0x61, 0x7a)]
  hasRoom _ := true

/-- Behind the first character of `abc`. -/
def behindFirst : Cursor := ⟨⟨0, "a.pt", none, "abc".toList⟩, 1, 1, 2⟩

end Pattern

end Packrat
