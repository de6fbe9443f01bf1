import Packrat.Proofs.Anchoring
import Packrat.Proofs.AtStart

/-! Patterns that close the group which anchoring puts around them. Such a pattern is refused alone,
for its `)` has no partner in it, and what it has behind that `)` is read outside the group. No other
patterns escape from the group, and of what these are read as only the alternatives behind the `)`
can match elsewhere than at the start. -/

namespace Packrat.Pattern
set_option autoImplicit false

namespace Bracket
variable {lib : Library} {b : Bracket} {c : Char} {next : Bracket ⊕ Piece}

theorem isLeft_itemStep (hc : c ≠ ']') (b : Bracket) : (b.itemStep c).isLeft := by
  unfold itemStep
  split_ifs <;> rfl

theorem isLeft_leadingStep (hc : c ≠ ']') (b : Bracket) : (b.leadingStep c).isLeft := by
  unfold leadingStep
  split_ifs
  · rfl
  · rfl
  · exact isLeft_itemStep hc b

theorem isLeft_plainStep (hc : c ≠ ']') (h : b.plainStep lib c = .ok next) : next.isLeft := by
  obtain ⟨mode, level, outer⟩ := b
  unfold plainStep at h
  cases mode with
  | opened =>
    cases h
    split_ifs
    · rfl
    · exact isLeft_leadingStep hc _
  | leading =>
    cases h
    exact isLeft_leadingStep hc _
  | between =>
    cases h
    exact isLeft_itemStep hc _
  | behind e bare? =>
    dsimp only at h
    split_ifs at h
    · cases h
      rfl
    split at h
    · cases h
      rfl
    · obtain ⟨b', -, rfl⟩ := Option.map_eq_some_iff.1 (orRefused_eq_ok_iff.1 h)
      exact isLeft_itemStep hc b'
  | dashed e =>
    dsimp only at h
    rw [if_neg hc] at h
    split_ifs at h
    · obtain ⟨b', -, rfl⟩ := Option.map_eq_some_iff.1 (orRefused_eq_ok_iff.1 h)
      rfl
    · cases h
      rfl
    · obtain ⟨b', -, rfl⟩ := Option.map_eq_some_iff.1 (orRefused_eq_ok_iff.1 h)
      rfl
  | escape m first? =>
    dsimp only at h
    split at h
    · cases h
      rfl
    · cases h
      rfl
    · obtain ⟨b', -, rfl⟩ := Option.map_eq_some_iff.1 (orRefused_eq_ok_iff.1 h)
      rfl
    · cases h
  | named => cases h

/-- Only a `]` ends the brackets. -/
theorem isLeft_step (hc : c ≠ ']') (h : b.step lib c = .ok next) : next.isLeft := by
  unfold step at h
  split at h
  · dsimp only at h
    split at h
    · cases h
      rfl
    split_ifs at h
    · cases h
      rfl
    · obtain ⟨b', -, h⟩ := bind_eq_ok_iff.1 h
      exact isLeft_plainStep hc h
  · exact isLeft_plainStep hc h

end Bracket

theorem EscapeMode.step_close {lib : Library} {m : EscapeMode} {next : EscapeMode ⊕ Escaped}
    (h : m.step lib ')' = .ok next) : m = .opened ∧ next = .inr (.char ')') := by
  cases m with
  | opened =>
    cases h
    exact ⟨rfl, rfl⟩
  | hex | hexDigits | hexBraces => cases h

namespace Reader
variable {lib : Library} {s t u : Reader} {p : Piece}

theorem finish?_of_plain (h : s.mode = .plain) :
    s.finish? = some p ↔ s.outer = [] ∧ s.group.content = p := by
  obtain ⟨mode, group, outer, numbered, names⟩ := s
  subst h
  cases outer with
  | nil => simp [finish?]
  | cons => simp [finish?]

theorem finish?_leave? (h : s.leave? = some u) :
    u.finish? = some p ↔ s.outer.length = 1 ∧ u.group.content = p := by
  obtain ⟨mode, group, outer, numbered, names⟩ := s
  cases outer with
  | nil => cases h
  | cons g outer =>
    cases h
    rw [finish?_of_plain rfl]
    simp

/-- A `)` behind it ends all: it closes the one group that is open or has just been opened, or it is
escaped. -/
def EndsAtClose (s : Reader) : Prop :=
  match s.mode with
  | .plain | .repeated _ _ _ => s.outer.length = 1
  | .opened | .escape .opened => s.outer = []
  | _ => False

theorem finish?_step_close (h : s.step lib ')' = .ok u) :
    u.finish? = some p ↔ s.EndsAtClose ∧ u.group.content = p := by
  obtain ⟨mode, group, outer, numbered, names⟩ := s
  unfold step at h
  cases mode with
  | plain => exact finish?_leave? (orRefused_eq_ok_iff.1 h)
  | repeated piece least most? =>
    exact finish?_leave? (s := push ⟨.plain, group, outer, numbered, names⟩ _)
      (orRefused_eq_ok_iff.1 h)
  | bounds | name =>
    cases h
    cases outer <;> exact iff_of_false nofun nofun
  | escape m =>
    dsimp only at h
    cases hm : m.step lib ')' with
    | error =>
      rw [hm] at h
      cases h
    | ok next =>
      obtain ⟨rfl, rfl⟩ := EscapeMode.step_close hm
      cases h
      exact finish?_of_plain rfl
  | bracket b =>
    dsimp only at h
    cases hb : b.step lib ')' with
    | error =>
      rw [hb] at h
      cases h
    | ok next =>
      obtain ⟨b', rfl⟩ := Sum.isLeft_iff.1 (Bracket.isLeft_step (by decide) hb)
      rw [hb] at h
      cases h
      cases outer <;> exact iff_of_false nofun nofun
  | opened =>
    cases h
    exact finish?_of_plain rfl
  | marked | markedDotAll | markedName => cases h

theorem mode_step_close (h : s.step lib ')' = .ok u) (hends : s.EndsAtClose) : u.mode = .plain := by
  obtain ⟨mode, group, outer, numbered, names⟩ := s
  unfold step at h
  cases mode with
  | plain | repeated =>
    cases outer with
    | nil => cases hends
    | cons =>
      cases h
      rfl
  | opened =>
    cases h
    rfl
  | escape m =>
    cases m with
    | opened =>
      cases h
      rfl
    | _ => cases hends
  | _ => cases hends

/-- Where reading ends is the first character that has no meaning, or none that is known. -/
theorem exists_of_foldlM_eq_error {text : List Char} {why : Trouble}
    (h : text.foldlM (step lib) s = .error why) :
    ∃ before c behind t, text = before ++ c :: behind ∧
      before.foldlM (step lib) s = .ok t ∧ t.step lib c = .error why := by
  induction text generalizing s with
  | nil => cases h
  | cons c text ih =>
    rw [List.foldlM_cons] at h
    cases hc : s.step lib c with
    | error why' =>
      rw [hc] at h
      cases h
      exact ⟨[], c, text, s, rfl, rfl, hc⟩
    | ok mid =>
      rw [hc] at h
      obtain ⟨before, d, behind, t, rfl, hbefore, hd⟩ := ih h
      refine ⟨c :: before, d, behind, t, rfl, ?_, hd⟩
      rw [List.foldlM_cons, hc]
      exact hbefore

/-- The reader behind the `)` that closes the group put around a text, which was read as `p` up to
there. -/
def beyond (s : Reader) (p : Piece) : Reader :=
  ⟨.plain, Group.anchor.push (p.group none), [], s.numbered, s.names⟩

theorem finish?_inside (s : Reader) (g : Group) : (s.inside g).finish? = none := by
  obtain ⟨mode, group, outer, numbered, names⟩ := s
  cases outer <;> rfl

theorem step_close_beyond (hs : Moves start.settled s.settled) (h : s.finish? = some p) :
    (s.inside .anchor).step lib ')' = .ok (s.beyond p) := by
  rw [step_close h, (joined_finish? hs h).2]
  rfl

theorem foldlM_beyond {before : List Char} (hs : before.foldlM (step lib) start = .ok s)
    (h : s.finish? = some p) (behind : List Char) :
    (before ++ ')' :: behind).foldlM (step lib) (start.inside .anchor) =
      behind.foldlM (step lib) (s.beyond p) := by
  rw [foldlM_append_of_ok (foldlM_inside hs), List.foldlM_cons,
    step_close_beyond (moves_foldlM hs) h]
  rfl

end Reader

/-- The text is a pattern, a `)` and a text behind it that is read outside the group which the `)`
has closed. With the `)` that anchoring adds `g` is then all that has been read. -/
inductive BreaksOut (lib : Library) : List Char → Group → Prop
  | intro {before behind : List Char} {s t u : Reader} {p : Piece}
    (hbefore : before.foldlM (Reader.step lib) Reader.start = .ok s) (hp : s.finish? = some p)
    (hbehind : behind.foldlM (Reader.step lib) (s.beyond p) = .ok t) (hends : t.EndsAtClose)
    (hclose : t.step lib ')' = .ok u) : BreaksOut lib (before ++ ')' :: behind) u.group

/-- Reading comes to what is unknown behind a `)` that closes the group, or by the `)` that anchoring
adds: `(?s` may go on with that one. -/
inductive RunsOn (lib : Library) : List Char → Prop
  | inside {text : List Char} {s : Reader}
    (htext : text.foldlM (Reader.step lib) Reader.start = .ok s)
    (hclose : s.step lib ')' = .error .unknown) : RunsOn lib text
  | outside {before behind : List Char} {s : Reader} {p : Piece}
    (hbefore : before.foldlM (Reader.step lib) Reader.start = .ok s) (hp : s.finish? = some p)
    (hbehind : (behind ++ [')']).foldlM (Reader.step lib) (s.beyond p) = .error .unknown) :
    RunsOn lib (before ++ ')' :: behind)

section
variable {lib : Library} {text before behind : List Char} {s : Reader} {p : Piece} {g : Group}
  {why : Trouble}

theorem piece_anchored_beyond (hbefore : before.foldlM (Reader.step lib) Reader.start = .ok s)
    (hp : s.finish? = some p) : piece lib (anchored (before ++ ')' :: behind)) =
      (behind ++ [')']).foldlM (Reader.step lib) (s.beyond p) >>= fun u => orRefused u.finish? := by
  rw [piece, foldlM_anchored, Reader.foldlM_beyond hbefore hp, List.foldlM_append]
  simp only [List.foldlM_cons, List.foldlM_nil, bind_pure]

theorem piece_anchored_open (htext : text.foldlM (Reader.step lib) Reader.start = .ok s)
    (h : s.finish? = none) :
    piece lib (anchored text) = s.step lib ')' >>= fun _ => .error .refused := by
  have hrun : (anchored text).foldlM (Reader.step lib) Reader.start =
      (s.step lib ')').map (Reader.inside .anchor) := by
    rw [foldlM_anchored, Reader.foldlM_inside htext]
    exact Reader.step_inside fun _ => h
  rw [piece, hrun]
  cases s.step lib ')' with
  | error => rfl
  | ok u => exact congrArg orRefused (u.finish?_inside _)

/-- A text that is no pattern alone has a `)` where a pattern could end, it ends too early, or it is
stuck at the same place in the group. -/
theorem piece_anchored_cases (h : piece lib text = .error why) :
    (why = .refused ∧ ∃ before behind s p, text = before ++ ')' :: behind ∧
      before.foldlM (Reader.step lib) Reader.start = .ok s ∧ s.finish? = some p) ∨
    (why = .refused ∧ ∃ s, text.foldlM (Reader.step lib) Reader.start = .ok s ∧
      s.finish? = none) ∨
    piece lib (anchored text) = .error why := by
  cases hrun : text.foldlM (Reader.step lib) Reader.start with
  | ok s =>
    rw [piece, hrun] at h
    cases hp : s.finish? with
    | some p => cases (congrArg orRefused hp).symm.trans h
    | none =>
      cases (congrArg orRefused hp).symm.trans h
      exact Or.inr (Or.inl ⟨rfl, s, rfl, hp⟩)
  | error why' =>
    rw [piece, hrun] at h
    cases h
    obtain ⟨before, c, behind, s, rfl, hbefore, hc⟩ := Reader.exists_of_foldlM_eq_error hrun
    by_cases hends : c = ')' → s.finish? = none
    · right
      right
      have hinside : (s.inside .anchor).step lib c = .error why := by
        rw [Reader.step_inside hends, hc]
        rfl
      rw [piece, foldlM_anchored, Reader.foldlM_append_of_ok (Reader.foldlM_inside hbefore),
        List.foldlM_cons, hinside]
      rfl
    · obtain ⟨rfl, hsome⟩ := Classical.not_imp.1 hends
      obtain ⟨q, hq⟩ := Option.ne_none_iff_exists'.1 hsome
      cases (Reader.step_of_finish? hq).symm.trans hc
      exact Or.inl ⟨rfl, before, behind, s, q, rfl, hbefore, hq⟩

theorem BreaksOut.piece_eq_refused (h : BreaksOut lib text g) :
    piece lib text = .error .refused := by
  cases h with
  | intro hbefore hp =>
    rw [piece, Reader.foldlM_append_of_ok hbefore, List.foldlM_cons, Reader.step_of_finish? hp]
    rfl

theorem BreaksOut.mem (h : BreaksOut lib text g) : ')' ∈ text := by
  cases h
  exact List.mem_append_right _ List.mem_cons_self

theorem BreaksOut.piece_anchored (h : BreaksOut lib text g) :
    piece lib (anchored text) = .ok g.content := by
  cases h with
  | intro hbefore hp hbehind hends hclose =>
    rw [piece_anchored_beyond hbefore hp, Reader.foldlM_append_of_ok hbehind, List.foldlM_cons,
      hclose]
    exact congrArg orRefused ((Reader.finish?_step_close hclose).2 ⟨hends, rfl⟩)

/-- A text that is no pattern alone and comes to one behind the mark breaks out. -/
theorem exists_breaksOut (h : piece lib text = .error why)
    (hp : piece lib (anchored text) = .ok p) : ∃ g, BreaksOut lib text g ∧ g.content = p := by
  obtain ⟨-, before, behind, s, q, rfl, hbefore, hq⟩ | ⟨-, s, htext, hs⟩ | hstuck :=
    piece_anchored_cases h
  · rw [piece_anchored_beyond hbefore hq] at hp
    obtain ⟨u, hu, hfinish⟩ := bind_eq_ok_iff.1 hp
    rw [List.foldlM_append] at hu
    obtain ⟨t, ht, hu⟩ := bind_eq_ok_iff.1 hu
    obtain ⟨u', hclose, hu⟩ := bind_eq_ok_iff.1 hu
    cases hu
    obtain ⟨hends, hcontent⟩ :=
      (Reader.finish?_step_close hclose).1 (orRefused_eq_ok_iff.1 hfinish)
    exact ⟨u.group, .intro hbefore hq ht hends hclose, hcontent⟩
  · rw [piece_anchored_open htext hs] at hp
    obtain ⟨u, -, hp⟩ := bind_eq_ok_iff.1 hp
    cases hp
  · cases hstuck.symm.trans hp

theorem RunsOn.piece_anchored (h : RunsOn lib text) :
    piece lib (anchored text) = .error .unknown := by
  cases h with
  | @inside _ s htext hclose =>
    have hs : s.finish? = none := by
      cases hp : s.finish? with
      | none => rfl
      | some p => cases (Reader.step_of_finish? hp).symm.trans hclose
    rw [piece_anchored_open htext hs, hclose]
    rfl
  | outside hbefore hp hbehind =>
    rw [piece_anchored_beyond hbefore hp, hbehind]
    rfl

theorem runsOn_of_piece_anchored (h : piece lib text = .error .refused)
    (hp : piece lib (anchored text) = .error .unknown) : RunsOn lib text := by
  obtain ⟨-, before, behind, s, q, rfl, hbefore, hq⟩ | ⟨-, s, htext, hs⟩ | hstuck :=
    piece_anchored_cases h
  · rw [piece_anchored_beyond hbefore hq] at hp
    cases hrun : (behind ++ [')']).foldlM (Reader.step lib) (s.beyond q) with
    | error why =>
      rw [hrun] at hp
      cases hp
      exact .outside hbefore hq hrun
    | ok u =>
      rw [hrun] at hp
      cases hu : u.finish? <;> cases (congrArg orRefused hu).symm.trans hp
  · rw [piece_anchored_open htext hs] at hp
    cases hclose : s.step lib ')' with
    | error why =>
      rw [hclose] at hp
      cases hp
      exact .inside htext hclose
    | ok u =>
      rw [hclose] at hp
      cases hp
  · cases hstuck.symm.trans hp

/-- What is unknown alone is unknown in the group. -/
theorem piece_anchored_of_unknown (h : piece lib text = .error .unknown) :
    piece lib (anchored text) = .error .unknown := by
  obtain ⟨hwhy, -⟩ | ⟨hwhy, -⟩ | hstuck := piece_anchored_cases h
  · cases hwhy
  · cases hwhy
  · exact hstuck

end

namespace Group
variable {g : Group}

/-- The alternatives, in the order in which they are written. -/
def choices (g : Group) : List Piece := g.alternatives.reverse ++ [g.alternative]

/-- The first alternative begins with the mark for the start, and as long as it is being read there
is more behind the mark. -/
inductive Led : Group → Prop
  | first {pieces : List Piece} (h : pieces ≠ []) (dotAll : Bool) (number? : Option Nat) :
    Led ⟨[], pieces ++ [.plain (.edge .start)], dotAll, number?⟩
  | later (alternatives : List Piece) {a : Piece} (h : a.regex.Marked) (pieces : List Piece)
    (dotAll : Bool) (number? : Option Nat) :
    Led ⟨alternatives ++ [a], pieces, dotAll, number?⟩

theorem marked_alternative (pieces : List Piece) (dotAll : Bool) (number? : Option Nat) :
    (Group.mk [] (pieces ++ [.plain (.edge .start)]) dotAll number?).alternative.regex.Marked := by
  unfold alternative
  rw [List.reverse_append]
  exact Regex.marked_edge_start.cat _

theorem Led.push (h : g.Led) (p : Piece) : (g.push p).Led := by
  cases h with
  | first h => exact .first (List.cons_ne_nil p _) _ _
  | later alternatives h => exact .later alternatives h _ _ _

/-- The mark itself is not the piece that is rewritten. -/
theorem Led.rewrite (h : g.Led) {p : Piece} {pieces : List Piece} (hg : g.pieces = p :: pieces)
    (q : Piece) : Led { g with pieces := q :: pieces } := by
  cases h with
  | first h =>
    obtain ⟨p', rest, rfl⟩ := List.exists_cons_of_ne_nil h
    cases hg
    exact .first (List.cons_ne_nil q rest) _ _
  | later alternatives h => exact .later alternatives h _ _ _

theorem Led.nextAlternative (h : g.Led) : g.nextAlternative.Led := by
  cases h with
  | first => exact .later [] (marked_alternative _ _ _) _ _ _
  | later alternatives h => exact .later (_ :: alternatives) h _ _ _

theorem kept_led : Kept Led :=
  ⟨fun _ p h => h.push p, fun _ _ _ q hg h => h.rewrite hg q, fun _ h => h.nextAlternative⟩

theorem Led.marked_choices (h : g.Led) : ∃ a, g.choices.head? = some a ∧ a.regex.Marked := by
  cases h with
  | first => exact ⟨_, rfl, marked_alternative _ _ _⟩
  | @later _ a h =>
    refine ⟨a, ?_, h⟩
    rw [choices, List.reverse_append]
    rfl

theorem Led.onlyAtStart_content (h : g.Led) :
    g.content.regex.OnlyAtStart ↔ ∀ a ∈ g.choices.tail, a.regex.OnlyAtStart := by
  obtain ⟨a, hhead, hmarked⟩ := h.marked_choices
  obtain ⟨later, hchoices⟩ := List.head?_eq_some_iff.1 hhead
  have hregex : g.content.regex = Regex.anyOf (a.regex :: later.map Piece.regex) :=
    congrArg (fun ps : List Piece => Regex.anyOf (ps.map Piece.regex)) hchoices
  rw [hregex, Regex.onlyAtStart_anyOf hmarked, hchoices]
  exact List.forall_mem_map

end Group

variable {lib : Library} {text : List Char} {g : Group}

theorem BreaksOut.led (h : BreaksOut lib text g) : g.Led := by
  cases h with
  | @intro _ behind s t u p hbefore hp hbehind hends hclose =>
    have hmode := Reader.mode_step_close hclose hends
    have hfinish := (Reader.finish?_step_close hclose).2 ⟨hends, rfl⟩
    obtain ⟨houter, -⟩ := (Reader.finish?_of_plain hmode).1 hfinish
    have hsettled : u.settled = [u.group] := by
      rw [Reader.settled_of_taken?_eq_none (hmode ▸ rfl), Reader.groups, houter]
    have hmoves : Moves (s.beyond p).settled u.settled :=
      (Reader.moves_foldlM hbehind).trans (Reader.moves_step hclose)
    refine hmoves.bottom Group.kept_led ?_ u.group ?_
    · intro g hg
      cases hg
      exact .first (List.cons_ne_nil (p.group none) []) false none
    · rw [hsettled]
      rfl

/-- The pattern is refused because the library has no room for it, and there is room behind the mark:
there is no searching from place to place then, which may take room, too. -/
def OnlyTooLarge (lib : Library) (text : List Char) : Prop :=
  ∃ p, piece lib text = .ok p ∧ p.depth + 2 ≤ Piece.mostDepth ∧ ¬lib.hasRoom p.regex ∧
    lib.hasRoom (.cat [.edge .start, p.regex])

theorem anchored_unknown_iff : read lib (anchored text) = .error .unknown ↔
    read lib text = .error .unknown ∨ RunsOn lib text := by
  simp only [read_eq_error_iff, reduceCtorEq, false_and, or_false]
  constructor
  · intro h
    cases hp : piece lib text with
    | ok p => cases (piece_anchored hp).symm.trans h
    | error why =>
      cases why with
      | refused => exact Or.inr (runsOn_of_piece_anchored hp h)
      | unknown => exact Or.inl rfl
  · intro h
    rcases h with h | h
    · exact piece_anchored_of_unknown h
    · exact h.piece_anchored

theorem exists_read_anchored_iff (h : read lib text = .error .refused) :
    (∃ r, read lib (anchored text) = .ok r) ↔
      (∃ g, BreaksOut lib text g ∧ g.content.Allowed lib) ∨ OnlyTooLarge lib text := by
  constructor
  · intro hread
    obtain ⟨r, hr⟩ := hread
    obtain ⟨q, hq, hallowed, -⟩ := read_eq_ok_iff.1 hr
    cases hp : piece lib text with
    | error why =>
      obtain ⟨g, hg, rfl⟩ := exists_breaksOut hp hq
      exact Or.inl ⟨g, hg, hallowed⟩
    | ok p =>
      obtain rfl := Except.ok.inj ((piece_anchored hp).symm.trans hq)
      obtain ⟨hdepth, hroom⟩ := hallowed
      dsimp only at hdepth
      have hlarge : ¬lib.hasRoom p.regex := by
        intro hroom
        cases (read_eq_ok_iff.2 ⟨p, hp, ⟨by omega, hroom⟩, rfl⟩).symm.trans h
      exact Or.inr ⟨p, hp, hdepth, hlarge, hroom⟩
  · intro hescape
    rcases hescape with ⟨g, hg, hallowed⟩ | ⟨p, hp, hdepth, -, hroom⟩
    · exact ⟨_, read_eq_ok_iff.2 ⟨_, hg.piece_anchored, hallowed, rfl⟩⟩
    · exact ⟨_, read_eq_ok_iff.2 ⟨_, piece_anchored hp, ⟨hdepth, hroom⟩, rfl⟩⟩

theorem anchored_refused_iff (h : read lib text = .error .refused) :
    read lib (anchored text) = .error .refused ↔
      (∀ g, BreaksOut lib text g → ¬g.content.Allowed lib) ∧ ¬OnlyTooLarge lib text ∧
        ¬RunsOn lib text := by
  have hruns : RunsOn lib text ↔ read lib (anchored text) = .error .unknown := by
    rw [anchored_unknown_iff, h]
    simp
  have hnone : (∀ g, BreaksOut lib text g → ¬g.content.Allowed lib) ∧ ¬OnlyTooLarge lib text ↔
      ∀ r, read lib (anchored text) ≠ .ok r := by
    rw [← not_exists, exists_read_anchored_iff h, not_or, not_exists]
    simp only [not_and]
  rw [← and_assoc, hnone, hruns]
  cases read lib (anchored text) with
  | ok r => simp
  | error why => cases why <;> simp

theorem onlyAtStart_anchored_iff {r : Regex} (hr : read lib (anchored text) = .ok r) :
    r.OnlyAtStart ↔
      ∀ g, BreaksOut lib text g → ∀ a ∈ g.choices.tail, a.regex.OnlyAtStart := by
  obtain ⟨q, hq, -, rfl⟩ := read_eq_ok_iff.1 hr
  cases hp : piece lib text with
  | error why =>
    obtain ⟨g, hg, rfl⟩ := exists_breaksOut hp hq
    constructor
    · intro h g' hg'
      obtain hcontent := Except.ok.inj (hq.symm.trans hg'.piece_anchored)
      rw [hcontent] at h
      exact hg'.led.onlyAtStart_content.1 h
    · intro h
      exact hg.led.onlyAtStart_content.2 (h g hg)
  | ok p =>
    obtain rfl := Except.ok.inj ((piece_anchored hp).symm.trans hq)
    refine iff_of_true (Regex.marked_edge_start.cat _).onlyAtStart ?_
    intro g hg
    cases hp.symm.trans hg.piece_eq_refused

/-- A pattern that is refused alone is refused behind the mark, too, unless it breaks out within the
limits, is only too large, or runs into what is unknown; what breaks out is always refused alone.
Nothing else is unknown behind the mark but what is so alone. What is read behind the mark matches at
the start of a text only, if and only if all alternatives do that are written outside the group, which
takes a pattern that breaks out. -/
theorem anchoring_holds_iff (lib : Library) (text : List Char) :
    (read lib text = .error .refused → (read lib (anchored text) = .error .refused ↔
      (∀ g, BreaksOut lib text g → ¬g.content.Allowed lib) ∧ ¬OnlyTooLarge lib text ∧
        ¬RunsOn lib text)) ∧
    (∀ g, BreaksOut lib text g → read lib text = .error .refused) ∧
    (read lib (anchored text) = .error .unknown ↔
      read lib text = .error .unknown ∨ RunsOn lib text) ∧
    ∀ r, read lib (anchored text) = .ok r →
      (r.OnlyAtStart ↔
        ∀ g, BreaksOut lib text g → ∀ a ∈ g.choices.tail, a.regex.OnlyAtStart) ∧
      (r.OnlyAtStart → ∀ haystack start n, r.search haystack = some (start, n) → start = 0) := by
  refine ⟨anchored_refused_iff, ?_, anchored_unknown_iff, ?_⟩
  · intro g hg
    exact read_eq_error_iff.2 (Or.inl hg.piece_eq_refused)
  · intro r hr
    exact ⟨onlyAtStart_anchored_iff hr, fun h haystack start n hfound => h.search hfound⟩

/-- An open group stays one, and a group that is closed and opened anew only goes on behind the
mark. -/
theorem anchoring_holds_iff_reopened :
    read .ascii "(a".toList = .error .refused ∧
    read .ascii (anchored "(a".toList) = .error .refused ∧
    read .ascii "\\d)(b".toList = .error .refused ∧
    ∃ r, read .ascii (anchored "\\d)(b".toList) = .ok r ∧
      ∀ haystack start n, r.search haystack = some (start, n) → start = 0 := by
  have hopen : read .ascii "(a".toList = .error .refused := rfl
  have hshut : read .ascii (anchored "(a".toList) = .error .refused := by
    refine ((anchoring_holds_iff _ _).1 hopen).2 ⟨?_, ?_, ?_⟩
    · intro g hg
      cases (by decide : ')' ∉ "(a".toList) hg.mem
    · intro hlarge
      obtain ⟨p, hp, -⟩ := hlarge
      cases hp
    · intro hruns
      cases (rfl : piece .ascii (anchored "(a".toList) = _).symm.trans hruns.piece_anchored
  have hout : BreaksOut .ascii (['\\', 'd'] ++ ')' :: ['(', 'b']) _ :=
    .intro rfl rfl rfl rfl rfl
  have hr : read .ascii (anchored "\\d)(b".toList) = .ok
      (.seq (.edge .start)
        (.seq (.oneOf Library.ascii.digits) (.group 0 (.literal ['b'])))) := by
    decide +kernel
  exact ⟨hopen, hshut, (anchoring_holds_iff _ _).2.1 _ hout, _, hr,
    ((anchoring_holds_iff _ _).2.2.2 _ hr).2 (Regex.Marked.onlyAtStart rfl)⟩

/-- What is written behind the group is found elsewhere. -/
theorem anchoring_escaped :
    read .ascii "a)|(b".toList = .error .refused ∧
    ∃ r, read .ascii (anchored "a)|(b".toList) = .ok r ∧ r.search "cb".toList = some (1, 1) := by
  have hr : read .ascii (anchored "a)|(b".toList) =
      .ok (.alt (.seq (.edge .start) (.literal ['a'])) (.group 0 (.literal ['b']))) := by
    decide +kernel
  exact ⟨by decide +kernel, _, hr, by decide +kernel⟩

end Packrat.Pattern
