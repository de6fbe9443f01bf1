import Packrat.Regex.Net

/-! What nets that are to come begin with. They go on without a character, at a place unless they
only unfold, or they are a thread that waits for one. Whatever goes through nets at a gap of the
text, with marks on places, goes by these shapes. -/

namespace Packrat
set_option autoImplicit false

namespace Marks
variable {m m' m'' : Marks} {place : Nat}

/-- All that has a mark in `m` has one in `m'`. -/
def Within (m m' : Marks) : Prop := ∀ place, m.has place → m'.has place

theorem Within.refl (m : Marks) : m.Within m := fun _ h => h

theorem Within.trans (h : m.Within m') (h' : m'.Within m'') : m.Within m'' :=
  fun place hp => h' place (h place hp)

theorem within_add (m : Marks) (place : Nat) : m.Within (m.add place) := by
  intro other h
  simp [h]

theorem none_within (m : Marks) : none.Within m := by
  intro place h
  simp at h

theorem has_add_self (m : Marks) (place : Nat) : (m.add place).has place := by simp

end Marks

inductive Shape where
  | done
  /-- Nothing but other nets. -/
  | jump (later : List Net)
  | test (place : Nat) (set : CharSet) (later : List Net)
  | edge (place : Nat) (e : Edge) (later : List Net)
  | fork (place : Nat) (first second : List Net)

namespace Shape

def place? : Shape → Option Nat
  | .done | .jump _ => none
  | .test place _ _ | .edge place _ _ | .fork place _ _ => some place

def thread? : Shape → Option Thread
  | .done => some .done
  | .test _ set later => some (.test set later)
  | .jump _ | .edge .. | .fork .. => none

/-- What is to come without a character. -/
def steps (holds : Edge → Bool) : Shape → List (List Net)
  | .done | .test .. => []
  | .jump later => [later]
  | .edge _ e later => if holds e then [later] else []
  | .fork _ first second => [first, second]

def free (s : Shape) (m : Marks) : Bool := s.place?.all fun place => !m.has place

def mark (s : Shape) (m : Marks) : Marks :=
  match s.place? with
  | some place => m.add place
  | none => m

variable {s : Shape} {m : Marks} {place : Nat}

theorem free_iff : s.free m ↔ ∀ place ∈ s.place?, m.has place = false := by
  cases h : s.place? <;> simp [free, h]

theorem has_mark : (s.mark m).has place ↔ s.place? = some place ∨ m.has place := by
  unfold mark
  cases s.place? with
  | none => simp
  | some other => simp [eq_comm (a := place)]

theorem within_mark (s : Shape) (m : Marks) : m.Within (s.mark m) :=
  fun _ h => has_mark.2 (.inr h)

theorem free_of_within {m' : Marks} (hm : m.Within m') (h : s.free m') : s.free m := by
  rw [free_iff] at h ⊢
  intro place hp
  exact Bool.eq_false_iff.2 fun hm' => Bool.eq_false_iff.1 (h place hp) (hm place hm')

theorem mark_within {m' : Marks} (hm : m.Within m') : (s.mark m).Within (s.mark m') :=
  fun place h => has_mark.2 ((has_mark.1 h).imp_right (hm place))

end Shape

namespace Net

def fork (place : Nat) (greedy : Bool) (more less : List Net) : Shape :=
  if greedy then .fork place more less else .fork place less more

def shape : List Net → Shape
  | [] => .done
  | .pass :: behind => .jump behind
  | .test place set :: behind => .test place set behind
  | .edge place e :: behind => .edge place e behind
  | .seq a b :: behind => .jump (a :: b :: behind)
  | .alt place a b :: behind => .fork place (a :: behind) (b :: behind)
  | .opt place a greedy :: behind => fork place greedy (a :: behind) behind
  | .loop place a greedy false :: behind =>
    fork place greedy (a :: .loop place a greedy false :: behind) behind
  | .loop place a greedy true :: behind => .jump (a :: .loop place a greedy false :: behind)

section
variable {holds : Edge → Bool} {place : Nat} {greedy : Bool} {more less later : List Net}

@[simp] theorem place?_fork : (fork place greedy more less).place? = some place := by
  cases greedy <;> rfl

@[simp] theorem thread?_fork : (fork place greedy more less).thread? = none := by
  cases greedy <;> rfl

theorem mem_steps_fork :
    later ∈ (fork place greedy more less).steps holds ↔ later = more ∨ later = less := by
  cases greedy <;> simp [fork, Shape.steps, or_comm]

theorem mem_steps_edge {e : Edge} :
    later ∈ (shape (.edge place e :: more)).steps holds ↔ holds e ∧ later = more := by
  simp [shape, Shape.steps]

theorem mem_steps_alt {a b : Net} : later ∈ (shape (.alt place a b :: more)).steps holds ↔
    later = a :: more ∨ later = b :: more := by
  simp [shape, Shape.steps]

/-- Nets are a thread if nothing is to come, or a test. -/
theorem thread?_shape {ks : List Net} {t : Thread} (h : (shape ks).thread? = some t) :
    ks = [] ∧ t = .done ∨
      ∃ place set behind, ks = .test place set :: behind ∧ t = .test set behind := by
  cases ks with
  | nil =>
    cases h
    exact .inl ⟨rfl, rfl⟩
  | cons net behind =>
    cases net with
    | pass | edge | seq | alt => cases h
    | test place set =>
      cases h
      exact .inr ⟨place, set, behind, rfl, rfl⟩
    | opt => cases thread?_fork.symm.trans h
    | loop place a greedy entered =>
      cases entered with
      | true => cases h
      | false => cases thread?_fork.symm.trans h

end

/-- Marks grow with each place, and nets that come to a place again need not be looked at. -/
theorem shape_induct (holds : Edge → Bool) {motive : List Net → Marks → Prop}
    (h : ∀ ks m, ((shape ks).free m → ∀ later ∈ (shape ks).steps holds,
      ∀ m', ((shape ks).mark m).Within m' → motive later m') → motive ks m)
    (ks : List Net) (m : Marks) : motive ks m := by
  suffices hnet : ∀ (net : Net) (behind : List Net) (m : Marks),
      (∀ m', m.Within m' → motive behind m') → motive (net :: behind) m by
    induction ks generalizing m with
    | nil => exact h [] m fun _ later hlater => by cases hlater
    | cons net behind ih => exact hnet net behind m fun m' _ => ih m'
  intro net
  induction net with
  | pass =>
    intro behind m hbehind
    refine h _ m fun _ later hlater m' hm' => ?_
    obtain rfl := List.mem_singleton.1 hlater
    exact hbehind m' hm'
  | test => exact fun behind m _ => h _ m fun _ later hlater => by cases hlater
  | edge place e =>
    intro behind m hbehind
    refine h _ m fun _ later hlater m' hm' => ?_
    obtain ⟨-, rfl⟩ := mem_steps_edge.1 hlater
    exact hbehind m' (((shape _).within_mark m).trans hm')
  | seq a b iha ihb =>
    intro behind m hbehind
    refine h _ m fun _ later hlater m' hm' => ?_
    obtain rfl := List.mem_singleton.1 hlater
    exact iha _ m' fun l hl => ihb _ l fun l' hl' => hbehind l' (hm'.trans (hl.trans hl'))
  | alt place a b iha ihb =>
    intro behind m hbehind
    refine h _ m fun _ later hlater m' hm' => ?_
    have hmark := ((shape _).within_mark m).trans hm'
    obtain rfl | rfl := mem_steps_alt.1 hlater
    · exact iha _ m' fun l hl => hbehind l (hmark.trans hl)
    · exact ihb _ m' fun l hl => hbehind l (hmark.trans hl)
  | opt place a greedy iha =>
    intro behind m hbehind
    refine h _ m fun _ later hlater m' hm' => ?_
    have hmark := ((shape _).within_mark m).trans hm'
    obtain rfl | rfl := mem_steps_fork.1 hlater
    · exact iha _ m' fun l hl => hbehind l (hmark.trans hl)
    · exact hbehind m' hmark
  | loop place a greedy entered iha =>
    intro behind m hbehind
    have hagain (l : Marks) (hl : m.Within l) : motive (.loop place a greedy false :: behind) l := by
      refine h _ l fun _ later hlater m' hm' => ?_
      have hplace : m'.has place := hm' place (Shape.has_mark.2 (.inl place?_fork))
      obtain rfl | rfl := mem_steps_fork.1 hlater
      · -- A round ends at the loop's own place, which then has its mark.
        refine iha _ m' fun l' hl' => h _ l' fun hfree => ?_
        have hnone := Shape.free_iff.1 hfree place place?_fork
        rw [hl' place hplace] at hnone
        cases hnone
      · exact hbehind m' (hl.trans (((shape _).within_mark l).trans hm'))
    cases entered with
    | false => exact hagain m (.refl m)
    | true =>
      refine h _ m fun _ later hlater m' hm' => ?_
      obtain rfl := List.mem_singleton.1 hlater
      exact iha _ m' fun l hl => hagain l (Marks.Within.trans hm' hl)

end Net

namespace Frontier
variable {f f' f'' : Frontier} {place : Nat}

def mark (f : Frontier) (place : Nat) : Frontier := { f with reached := f.reached.add place }

/-- At the place of the shape, with its thread. -/
def come (f : Frontier) (s : Shape) : Frontier :=
  ⟨s.mark f.reached, s.thread?.toList ++ f.threads⟩

theorem visit_eq (f : Frontier) (place : Nat) (k : Frontier → Frontier) :
    f.visit place k = if f.reached.has place then f else k (f.mark place) := rfl

/-- Of what was reached and what was found nothing is lost. -/
structure Grows (f f' : Frontier) : Prop where
  reached : f.reached.Within f'.reached
  threads : f.threads <:+ f'.threads

theorem Grows.refl (f : Frontier) : f.Grows f := ⟨.refl _, List.suffix_rfl⟩

theorem Grows.trans (h : f.Grows f') (h' : f'.Grows f'') : f.Grows f'' :=
  ⟨h.reached.trans h'.reached, h.threads.trans h'.threads⟩

theorem grows_mark (f : Frontier) (place : Nat) : f.Grows (f.mark place) :=
  ⟨f.reached.within_add place, List.suffix_rfl⟩

theorem grows_push (f : Frontier) (t : Thread) : f.Grows (f.push t) :=
  ⟨.refl _, List.suffix_cons t _⟩

theorem grows_visit (f : Frontier) (place : Nat) {k : Frontier → Frontier}
    (hk : ∀ f : Frontier, f.Grows (k f)) : f.Grows (f.visit place k) := by
  rw [visit_eq]
  split
  · exact .refl f
  · exact (f.grows_mark place).trans (hk _)

theorem visit_congr {k k' : Frontier → Frontier} (h : k (f.mark place) = k' (f.mark place)) :
    f.visit place k = f.visit place k' := by
  rw [visit_eq, visit_eq, h]

end Frontier

namespace Net
variable {holds : Edge → Bool}

theorem enter_again (place : Nat) (a : Net) (greedy : Bool) (behind : List Net)
    (k : Frontier → Frontier) (f : Frontier) :
    (loop place a greedy false).enter holds behind k f = f.visit place fun f =>
      if greedy then k (a.enter holds (.loop place a greedy false :: behind) id f)
      else a.enter holds (.loop place a greedy false :: behind) id (k f) := rfl

theorem enter_entered (place : Nat) (a : Net) (greedy : Bool) (behind : List Net)
    (k : Frontier → Frontier) (f : Frontier) :
    (loop place a greedy true).enter holds behind k f =
      a.enter holds (.loop place a greedy false :: behind)
        ((loop place a greedy false).enter holds behind k) f := rfl

theorem grows_enter (net : Net) (behind : List Net) {k : Frontier → Frontier}
    (hk : ∀ f : Frontier, f.Grows (k f)) (f : Frontier) : f.Grows (net.enter holds behind k f) := by
  induction net generalizing behind k f with
  | pass => exact hk f
  | test => exact f.grows_visit _ fun f => f.grows_push _
  | edge =>
    refine f.grows_visit _ fun f => ?_
    split
    · exact hk f
    · exact .refl f
  | seq a b iha ihb => exact iha _ (fun f => ihb _ hk f) f
  | alt place a b iha ihb =>
    exact f.grows_visit _ fun f => (iha _ hk f).trans (ihb _ hk _)
  | opt place a greedy iha =>
    refine f.grows_visit _ fun f => ?_
    split
    · exact (iha _ hk f).trans (hk _)
    · exact (hk f).trans (iha _ hk _)
  | loop place a greedy entered iha =>
    have hagain (f : Frontier) :
        f.Grows ((loop place a greedy false).enter holds behind k f) := by
      rw [enter_again]
      refine f.grows_visit _ fun f => ?_
      split
      · exact (iha _ Frontier.Grows.refl f).trans (hk _)
      · exact (hk f).trans (iha _ Frontier.Grows.refl _)
    cases entered with
    | false => exact hagain f
    | true => exact iha _ hagain f

theorem grows_enterAll (holds : Edge → Bool) (ks : List Net) (f : Frontier) :
    f.Grows (enterAll holds ks f) := by
  induction ks generalizing f with
  | nil => exact f.grows_push .done
  | cons net behind ih => exact grows_enter net behind ih f

/-- What is behind a net is gone on with from what was reached before, and more. -/
theorem enter_congr (net : Net) (behind : List Net) {k k' : Frontier → Frontier} {f : Frontier}
    (hk : ∀ f : Frontier, f.Grows (k f))
    (h : ∀ f', f.reached.Within f'.reached → k f' = k' f') :
    net.enter holds behind k f = net.enter holds behind k' f := by
  induction net generalizing behind k k' f with
  | pass => exact h f (.refl _)
  | test => rfl
  | edge place e => exact Frontier.visit_congr (by rw [h _ (f.grows_mark place).reached])
  | seq a b iha ihb =>
    refine iha _ (fun f => grows_enter b _ hk f) fun f' hf' => ihb _ hk fun f'' hf'' => ?_
    exact h f'' (hf'.trans hf'')
  | alt place a b iha ihb =>
    refine Frontier.visit_congr ?_
    have hf := (f.grows_mark place).reached
    rw [← iha _ hk fun f' hf' => h f' (hf.trans hf')]
    refine ihb _ hk fun f' hf' => h f' ?_
    exact hf.trans ((grows_enter a _ hk _).reached.trans hf')
  | opt place a greedy iha =>
    refine Frontier.visit_congr ?_
    have hf := (f.grows_mark place).reached
    cases greedy with
    | true =>
      rw [← iha _ hk fun f' hf' => h f' (hf.trans hf')]
      exact h _ (hf.trans (grows_enter a _ hk _).reached)
    | false =>
      rw [← h _ hf]
      exact iha _ hk fun f' hf' => h f' (hf.trans ((hk _).reached.trans hf'))
  | loop place a greedy entered iha =>
    have hagain (f' : Frontier) (hf' : f.reached.Within f'.reached) :
        (loop place a greedy false).enter holds behind k f' =
          (loop place a greedy false).enter holds behind k' f' := by
      rw [enter_again, enter_again]
      refine Frontier.visit_congr ?_
      have hmark := hf'.trans (f'.grows_mark place).reached
      cases greedy with
      | true => exact h _ (hmark.trans (grows_enter a _ Frontier.Grows.refl _).reached)
      | false => exact congrArg (a.enter holds _ id) (h _ hmark)
    cases entered with
    | false => exact hagain f (.refl _)
    | true =>
      rw [enter_entered, enter_entered]
      exact iha _ (grows_enter (.loop place a greedy false) behind hk) hagain

/-- The place of a loop that has been reached ends a round of it. -/
theorem enter_round {place : Nat} {a : Net} {greedy : Bool} {behind : List Net} {f : Frontier}
    (h : f.reached.has place) :
    a.enter holds (.loop place a greedy false :: behind) id f =
      enterAll holds (a :: .loop place a greedy false :: behind) f := by
  refine enter_congr a _ Frontier.Grows.refl fun f' hf' => ?_
  exact (if_pos (hf' place h)).symm

/-- What is entered in turn. -/
def enterEach (holds : Edge → Bool) (beginnings : List (List Net)) (f : Frontier) : Frontier :=
  beginnings.foldl (fun f nets => enterAll holds nets f) f

/-- What is reached from a shape, unless its place has been reached. -/
def enterShape (holds : Edge → Bool) (s : Shape) (f : Frontier) : Frontier :=
  if s.free f.reached then enterEach holds (s.steps holds) (f.come s) else f

theorem visit_eq_enterShape {place : Nat} (s : Shape) (k : Frontier → Frontier) {f : Frontier}
    (hs : s.place? = some place)
    (hk : k (f.mark place) =
      enterEach holds (s.steps holds) ⟨f.reached.add place, s.thread?.toList ++ f.threads⟩) :
    f.visit place k = enterShape holds s f := by
  have hmark : s.mark f.reached = f.reached.add place := by rw [Shape.mark, hs]
  have hfree : s.free f.reached = !f.reached.has place := by
    rw [Shape.free, hs]
    rfl
  rw [Frontier.visit_eq, enterShape, Frontier.come, hk, hmark, hfree]
  cases f.reached.has place <;> rfl

/-- What is reached, by what the nets begin with. -/
theorem enterAll_eq (holds : Edge → Bool) (ks : List Net) (f : Frontier) :
    enterAll holds ks f = enterShape holds (shape ks) f := by
  cases ks with
  | nil => rfl
  | cons net behind =>
    cases net with
    | pass | seq => rfl
    | test place set =>
      exact visit_eq_enterShape (.test place set behind) (fun f => f.push _) rfl rfl
    | alt place a b =>
      exact visit_eq_enterShape (.fork place (a :: behind) (b :: behind))
        (fun f => enterAll holds (b :: behind) (enterAll holds (a :: behind) f)) rfl rfl
    | edge place e =>
      refine visit_eq_enterShape (.edge place e behind)
        (fun f => if holds e then enterAll holds behind f else f) rfl ?_
      dsimp only [Shape.steps]
      by_cases he : holds e
      · rw [if_pos he, if_pos he]
        rfl
      · rw [if_neg he, if_neg he]
        rfl
    | opt place a greedy =>
      refine visit_eq_enterShape (fork place greedy (a :: behind) behind) (fun f =>
        if greedy then enterAll holds behind (enterAll holds (a :: behind) f)
        else enterAll holds (a :: behind) (enterAll holds behind f)) place?_fork ?_
      cases greedy <;> rfl
    | loop place a greedy entered =>
      cases entered with
      | true => rfl
      | false =>
        have hmark : (f.mark place).reached.has place := f.reached.has_add_self place
        refine (enter_again ..).trans (visit_eq_enterShape _ _ place?_fork ?_)
        cases greedy with
        | true =>
          rw [if_pos rfl, enter_round hmark]
          rfl
        | false =>
          have hbehind := (grows_enterAll holds behind (f.mark place)).reached
          rw [if_neg Bool.false_ne_true, enter_round (hbehind place hmark)]
          rfl

end Net

end Packrat
