import Mathlib.Logic.Relation
import Packrat.Pattern.Reader
import Packrat.Proofs.Place

/-! What reading does to the groups that are open. A piece that is being repeated has been taken out
of its group; with it put back, all that a character does is made of a few moves, and what these
keep is kept by reading. -/

namespace Packrat.Pattern
set_option autoImplicit false

/-- What is done to groups that are open, the innermost first. -/
inductive Move : List Group → List Group → Prop
  | write (g : Group) (p : Piece) (outer : List Group) : Move (g :: outer) (g.push p :: outer)
  | rewrite {g : Group} {p : Piece} {pieces : List Piece} (h : g.pieces = p :: pieces) (q : Piece)
    (outer : List Group) : Move (g :: outer) ({ g with pieces := q :: pieces } :: outer)
  | alternative (g : Group) (outer : List Group) : Move (g :: outer) (g.nextAlternative :: outer)
  | enter (dotAll : Bool) (number? : Option Nat) (g : Group) (outer : List Group) :
    Move (g :: outer) (.opened dotAll number? :: g :: outer)
  | leave (g h : Group) (outer : List Group) :
    Move (g :: h :: outer) (h.push (g.content.group g.number?) :: outer)

abbrev Moves : List Group → List Group → Prop := Relation.ReflTransGen Move

/-- What writing in a group keeps. -/
structure Kept (P : Group → Prop) : Prop where
  push : ∀ g p, P g → P (g.push p)
  rewrite : ∀ g p pieces q, g.pieces = p :: pieces → P g → P { g with pieces := q :: pieces }
  nextAlternative : ∀ g, P g → P g.nextAlternative

section
variable {P : Group → Prop} {gs hs : List Group}

theorem Move.all (hP : Kept P) (hopened : ∀ dotAll number?, P (.opened dotAll number?))
    (h : Move gs hs) (hall : ∀ g ∈ gs, P g) : ∀ g ∈ hs, P g := by
  cases h with
  | write g p outer =>
    obtain ⟨hg, houter⟩ := List.forall_mem_cons.1 hall
    exact List.forall_mem_cons.2 ⟨hP.push _ _ hg, houter⟩
  | rewrite h q outer =>
    obtain ⟨hg, houter⟩ := List.forall_mem_cons.1 hall
    exact List.forall_mem_cons.2 ⟨hP.rewrite _ _ _ _ h hg, houter⟩
  | alternative g outer =>
    obtain ⟨hg, houter⟩ := List.forall_mem_cons.1 hall
    exact List.forall_mem_cons.2 ⟨hP.nextAlternative _ hg, houter⟩
  | enter dotAll number? g outer => exact List.forall_mem_cons.2 ⟨hopened _ _, hall⟩
  | leave g h outer =>
    obtain ⟨-, hall⟩ := List.forall_mem_cons.1 hall
    obtain ⟨hg, houter⟩ := List.forall_mem_cons.1 hall
    exact List.forall_mem_cons.2 ⟨hP.push _ _ hg, houter⟩

theorem Moves.all (hP : Kept P) (hopened : ∀ dotAll number?, P (.opened dotAll number?))
    (h : Moves gs hs) (hall : ∀ g ∈ gs, P g) : ∀ g ∈ hs, P g := by
  induction h with
  | refl => exact hall
  | tail _ hmove ih => exact hmove.all hP hopened ih

theorem bottom_congr {g h : Group} {outer : List Group} (hgh : P g → P h)
    (hg : ∀ q ∈ (g :: outer).getLast?, P q) : ∀ q ∈ (h :: outer).getLast?, P q := by
  cases outer with
  | nil =>
    intro q hq
    cases hq
    exact hgh (hg g rfl)
  | cons => exact hg

/-- The group below all others is written in and never left. -/
theorem Move.bottom (hP : Kept P) (h : Move gs hs) (hg : ∀ g ∈ gs.getLast?, P g) :
    ∀ g ∈ hs.getLast?, P g := by
  cases h with
  | write g p outer => exact bottom_congr (hP.push g p) hg
  | rewrite h q outer => exact bottom_congr (hP.rewrite _ _ _ q h) hg
  | alternative g outer => exact bottom_congr (hP.nextAlternative g) hg
  | enter => exact hg
  | leave g h outer => exact bottom_congr (g := h) (hP.push h _) hg

theorem Moves.bottom (hP : Kept P) (h : Moves gs hs) (hg : ∀ g ∈ gs.getLast?, P g) :
    ∀ g ∈ hs.getLast?, P g := by
  induction h with
  | refl => exact hg
  | tail _ hmove ih => exact hmove.bottom hP ih

end

/-- The piece that has been taken out of its group to be repeated. -/
def Mode.taken? : Mode → Option Piece
  | .repeated piece _ _ | .bounds piece _ => some piece
  | _ => none

namespace Reader
variable {lib : Library} {s s' : Reader} {c : Char}

def groups (s : Reader) : List Group := s.group :: s.outer

/-- The groups that are open, with the piece put back that has been taken out. -/
def settled (s : Reader) : List Group :=
  { s.group with pieces := s.mode.taken?.toList ++ s.group.pieces } :: s.outer

theorem moves_repeat? {mode : Piece → Mode} (hmode : ∀ p, (mode p).taken? = some p)
    (h : s.repeat? mode = some s') : Moves s.groups s'.settled := by
  unfold repeat? at h
  split at h
  · cases h
  next p pieces hpieces =>
    cases h
    rw [settled, hmode]
    dsimp only [groups, Option.toList_some, List.singleton_append]
    rw [← hpieces]

theorem moves_leave? (h : s.leave? = some s') : Moves s.groups s'.settled := by
  unfold leave? at h
  split at h
  · cases h
  next outer houter =>
    cases h
    rw [groups, houter]
    exact .single (.leave _ _ _)

theorem moves_plainStep (h : s.plainStep c = some s') : Moves s.groups s'.settled := by
  -- By the character: `)`, `|`, what repeats, any other than those with a meaning, and the rest.
  fun_cases plainStep s c with
  | case2 => exact moves_leave? h
  | case3 =>
    cases h
    exact .single (.alternative _ _)
  | case5 | case6 | case7 | case8 => exact moves_repeat? (fun _ => rfl) h
  | case13 =>
    rw [plainStep] at h
    all_goals first | assumption | skip
    cases h
    exact .single (.write _ _ _)
  | case10 | case11 | case12 =>
    cases h
    exact .single (.write _ _ _)
  | _ =>
    cases h
    exact .refl

/-- Only the mode has changed. -/
theorem moves_turn {mode : Mode} (h : mode.taken? = s.mode.taken?) :
    Moves s.settled ({ s with mode } : Reader).settled := by
  rw [settled, settled, h]

theorem settled_of_taken?_eq_none (h : s.mode.taken? = none) : s.settled = s.groups := by
  rw [settled, h]
  rfl

theorem moves_write (h : s.mode.taken? = none) (p : Piece) :
    Moves s.settled (s.push p).groups := by
  rw [settled_of_taken?_eq_none h]
  exact .single (.write _ _ _)

theorem moves_enter (h : s.mode.taken? = none) (dotAll : Bool) (number? : Option Nat) :
    Moves s.settled (.opened dotAll number? :: s.groups) := by
  rw [settled_of_taken?_eq_none h]
  exact .single (.enter _ _ _ _)

/-- In the place of a piece that has been taken out another one is written. -/
theorem moves_rewrite {p : Piece} (h : s.mode.taken? = some p) (q : Piece) :
    Moves s.settled (s.push q).groups := by
  rw [settled, h]
  exact .single (.rewrite rfl q _)

theorem moves_enterNamed {name : List Char} (hs : s.mode.taken? = none)
    (h : s.enterNamed name = .ok s') : Moves s.settled s'.settled := by
  unfold enterNamed at h
  split at h
  · cases h
  split at h
  · cases h
  split at h
  · cases h
  · cases h
    exact moves_enter hs _ _

theorem moves_step (h : s.step lib c = .ok s') : Moves s.settled s'.settled := by
  obtain ⟨mode, group, outer, numbered, names⟩ := s
  unfold step at h
  cases mode with
  | plain => exact moves_plainStep (orRefused_eq_ok_iff.1 h)
  | repeated piece least most? =>
    dsimp only at h
    split at h
    · cases h
      exact moves_rewrite rfl _
    · exact (moves_rewrite rfl _).trans (moves_plainStep (orRefused_eq_ok_iff.1 h))
  | bounds piece text =>
    dsimp only at h
    split at h
    · split at h
      · cases h
        exact moves_turn rfl
      · cases h
        exact moves_rewrite rfl _
      · cases h
    · cases h
      exact moves_turn rfl
  | escape m =>
    dsimp only at h
    split at h
    · cases h
      exact moves_turn rfl
    next e _ =>
      cases h
      cases e <;> exact moves_write rfl _
    · cases h
  | bracket b =>
    dsimp only at h
    split at h
    · cases h
      exact moves_turn rfl
    · cases h
      exact moves_write rfl _
    · cases h
  | opened =>
    dsimp only at h
    split at h
    · cases h
      exact moves_turn rfl
    · exact (moves_enter rfl _ _).trans (moves_plainStep (orRefused_eq_ok_iff.1 h))
  | marked =>
    dsimp only at h
    split at h
    · cases h
      exact moves_enter rfl _ _
    split at h
    · cases h
      exact moves_turn rfl
    split at h
    · cases h
      exact moves_turn rfl
    split at h
    · cases h
      exact moves_turn rfl
    · cases h
  | markedDotAll =>
    dsimp only at h
    split at h
    · cases h
      exact moves_enter rfl _ _
    · cases h
  | markedName =>
    dsimp only at h
    split at h
    · cases h
      exact moves_turn rfl
    · cases h
  | name text =>
    dsimp only at h
    split at h
    · exact moves_enterNamed rfl h
    · cases h
      exact moves_turn rfl

theorem moves_foldlM {text : List Char} (h : text.foldlM (step lib) s = .ok s') :
    Moves s.settled s'.settled := by
  induction text generalizing s with
  | nil =>
    cases h
    exact .refl
  | cons c text ih =>
    rw [List.foldlM_cons] at h
    obtain ⟨mid, hmid, h⟩ := bind_eq_ok_iff.1 h
    exact (moves_step hmid).trans (ih h)

end Reader

end Packrat.Pattern
