import Packrat.Proofs.Places

/-! Backtracking. It goes one way after the other and keeps to the order of the choices, and a way
ends where it would come back to a place of its own without a character. -/

namespace Packrat
set_option autoImplicit false

namespace Net

/-- Goes on from a place that this way has not been at. -/
def fresh {α : Type} (m : Marks) (place : Nat) (k : Marks → List α) : List α :=
  if m.has place then [] else k (m.add place)

def ordered {α : Type} (greedy : Bool) (more less : List α) : List α :=
  if greedy then more ++ less else less ++ more

/-- All ways through the net without a character, the preferred ones first, where `behind` is to come
and `k` goes on with it. The end of a round of a loop is the place of the loop, so a round that took
nothing goes nowhere. -/
def walk (holds : Edge → Bool) : Net → List Net → (Marks → List Thread) → Marks → List Thread
  | .pass, _, k, m => k m
  | .test place set, behind, _, m => fresh m place fun _ => [.test set behind]
  | .edge place e, _, k, m => fresh m place fun m => if holds e then k m else []
  | .seq a b, behind, k, m => a.walk holds (b :: behind) (b.walk holds behind k) m
  | .alt place a b, behind, k, m =>
    fresh m place fun m => a.walk holds behind k m ++ b.walk holds behind k m
  | .opt place a greedy, behind, k, m =>
    fresh m place fun m => ordered greedy (a.walk holds behind k m) (k m)
  | .loop place a greedy entered, behind, k, m =>
    let rounds := .loop place a greedy false :: behind
    let again := fun m => fresh m place fun m =>
      ordered greedy (a.walk holds rounds (fun _ => []) m) (k m)
    if entered then a.walk holds rounds again m else again m

def walkAll (holds : Edge → Bool) : List Net → Marks → List Thread
  | [] => fun _ => [.done]
  | net :: behind => net.walk holds behind (walkAll holds behind)

end Net

/-- The lengths that a thread may take of a text, the preferred ones first. -/
def Thread.ways : List Char → Thread → List Nat
  | _, .done => [0]
  | [], .test _ _ => []
  | c :: rest, .test set behind =>
    if set.has c then
      ((Net.walkAll (Edge.holds (some c) rest.head?) behind .none).flatMap (ways rest)).map (· + 1)
    else []

/-- The lengths of the matches that begin the text, the preferred ones first. -/
def Regex.ways (r : Regex) (before? : Option Char) (text : List Char) : List Nat :=
  (Net.walkAll (Edge.holds before? text.head?) [r.net] .none).flatMap (Thread.ways text)

namespace Net
variable {holds : Edge → Bool}

theorem fresh_congr {α : Type} {m : Marks} {place : Nat} {k k' : Marks → List α}
    (h : k (m.add place) = k' (m.add place)) : fresh m place k = fresh m place k' := by
  rw [fresh, fresh, h]

theorem walk_again (place : Nat) (a : Net) (greedy : Bool) (behind : List Net)
    (k : Marks → List Thread) (m : Marks) :
    (loop place a greedy false).walk holds behind k m = fresh m place fun m =>
      ordered greedy (a.walk holds (.loop place a greedy false :: behind) (fun _ => []) m) (k m) :=
  rfl

theorem walk_entered (place : Nat) (a : Net) (greedy : Bool) (behind : List Net)
    (k : Marks → List Thread) (m : Marks) :
    (loop place a greedy true).walk holds behind k m =
      a.walk holds (.loop place a greedy false :: behind)
        ((loop place a greedy false).walk holds behind k) m := rfl

/-- What is behind a net is gone on with on a way that has the marks from before, and more. -/
theorem walk_congr (net : Net) (behind : List Net) {k k' : Marks → List Thread} {m : Marks}
    (h : ∀ m', m.Within m' → k m' = k' m') :
    net.walk holds behind k m = net.walk holds behind k' m := by
  induction net generalizing behind k k' m with
  | pass => exact h m (.refl m)
  | test => rfl
  | edge place e => exact fresh_congr (by rw [h _ (m.within_add place)])
  | seq a b iha ihb => exact iha _ fun m' hm' => ihb _ fun m'' hm'' => h m'' (hm'.trans hm'')
  | alt place a b iha ihb =>
    have h' (m' : Marks) (hm' : (m.add place).Within m') : k m' = k' m' :=
      h m' ((m.within_add place).trans hm')
    exact fresh_congr (by rw [iha _ h', ihb _ h'])
  | opt place a greedy iha =>
    have h' (m' : Marks) (hm' : (m.add place).Within m') : k m' = k' m' :=
      h m' ((m.within_add place).trans hm')
    exact fresh_congr (by rw [iha _ h', h' _ (.refl _)])
  | loop place a greedy entered iha =>
    have hagain (m' : Marks) (hm' : m.Within m') :
        (loop place a greedy false).walk holds behind k m' =
          (loop place a greedy false).walk holds behind k' m' := by
      rw [walk_again, walk_again]
      exact fresh_congr (by rw [h _ (hm'.trans (m'.within_add place))])
    cases entered with
    | false => exact hagain m (.refl m)
    | true =>
      rw [walk_entered, walk_entered]
      exact iha _ hagain

theorem walk_round {place : Nat} {a : Net} {greedy : Bool} {behind : List Net} {m : Marks}
    (h : m.has place) :
    a.walk holds (.loop place a greedy false :: behind) (fun _ => []) m =
      walkAll holds (a :: .loop place a greedy false :: behind) m :=
  walk_congr a _ fun _ hm' => (if_pos (hm' place h)).symm

/-- The ways on from a shape, unless this way has been at its place. -/
def walkShape (holds : Edge → Bool) (s : Shape) (m : Marks) : List Thread :=
  if s.free m then
    s.thread?.toList ++ (s.steps holds).flatMap fun later => walkAll holds later (s.mark m)
  else []

theorem fresh_eq_walkShape {place : Nat} (s : Shape) (k : Marks → List Thread) {m : Marks}
    (hs : s.place? = some place)
    (hk : k (m.add place) =
      s.thread?.toList ++ (s.steps holds).flatMap fun later => walkAll holds later (m.add place)) :
    fresh m place k = walkShape holds s m := by
  have hmark : s.mark m = m.add place := by rw [Shape.mark, hs]
  have hfree : s.free m = !m.has place := by
    rw [Shape.free, hs]
    rfl
  rw [fresh, walkShape, hk, hmark, hfree]
  cases m.has place <;> rfl

/-- The ways on, by what the nets begin with. -/
theorem walkAll_eq (holds : Edge → Bool) (ks : List Net) (m : Marks) :
    walkAll holds ks m = walkShape holds (shape ks) m := by
  have happend (xs ys : List Net) (m : Marks) : walkAll holds xs m ++ walkAll holds ys m =
      [xs, ys].flatMap fun later => walkAll holds later m := by simp
  cases ks with
  | nil => rfl
  | cons net behind =>
    cases net with
    | pass => exact (List.append_nil _).symm
    | seq => exact (List.append_nil _).symm
    | test place set =>
      exact fresh_eq_walkShape (.test place set behind) (fun _ => [.test set behind]) rfl rfl
    | alt place a b =>
      exact fresh_eq_walkShape (.fork place (a :: behind) (b :: behind)) (fun m =>
        walkAll holds (a :: behind) m ++ walkAll holds (b :: behind) m) rfl (happend _ _ _)
    | edge place e =>
      refine fresh_eq_walkShape (.edge place e behind)
        (fun m => if holds e then walkAll holds behind m else []) rfl ?_
      dsimp only [Shape.steps]
      by_cases he : holds e
      · rw [if_pos he, if_pos he]
        exact (List.append_nil _).symm
      · rw [if_neg he, if_neg he]
        rfl
    | opt place a greedy =>
      refine fresh_eq_walkShape (fork place greedy (a :: behind) behind) (fun m =>
        ordered greedy (walkAll holds (a :: behind) m) (walkAll holds behind m)) place?_fork ?_
      cases greedy <;> exact happend _ _ _
    | loop place a greedy entered =>
      cases entered with
      | true => exact (List.append_nil _).symm
      | false =>
        refine (walk_again ..).trans (fresh_eq_walkShape _ _ place?_fork ?_)
        rw [walk_round (m.has_add_self place)]
        cases greedy <;> exact happend _ _ _

/-- A way of at most `n` steps that comes to the thread without a character, and to no place that
has a mark. -/
inductive Leads (holds : Edge → Bool) (m : Marks) : Nat → List Net → Thread → Prop
  | here {n : Nat} {ks : List Net} {t : Thread} (hfree : (shape ks).free m)
    (ht : (shape ks).thread? = some t) : Leads holds m n ks t
  | step {n : Nat} {ks later : List Net} {t : Thread} (hfree : (shape ks).free m)
    (hlater : later ∈ (shape ks).steps holds) (h : Leads holds m n later t) :
    Leads holds m (n + 1) ks t

variable {m m' : Marks} {n place : Nat} {ks later : List Net} {t : Thread}
variable {spots : List (Nat × List Net)}

theorem Leads.succ (h : Leads holds m n ks t) : Leads holds m (n + 1) ks t := by
  induction h with
  | here hfree ht => exact .here hfree ht
  | step hfree hlater _ ih => exact .step hfree hlater ih

theorem Leads.fewer (hm : m.Within m') (h : Leads holds m' n ks t) : Leads holds m n ks t := by
  induction h with
  | here hfree ht => exact .here (Shape.free_of_within hm hfree) ht
  | step hfree hlater _ ih => exact .step (Shape.free_of_within hm hfree) hlater ih

/-- A way avoids a place, or goes on from there. -/
theorem Leads.avoid (place : Nat) (h : Leads holds m n ks t) :
    Leads holds (m.add place) n ks t ∨ ∃ ls, (place, ls) ∈ spotsAll ks ∧ Leads holds m n ls t := by
  have hadd {s : Shape} (hfree : s.free m) (hplace : s.place? ≠ some place) :
      s.free (m.add place) := by
    rw [Shape.free_iff] at hfree ⊢
    intro other hother
    have hne : other ≠ place := fun he => hplace (he ▸ hother)
    simp [hne, hfree other hother]
  induction h with
  | @here n ks t hfree ht =>
    by_cases hplace : (shape ks).place? = some place
    · exact .inr ⟨ks, mem_spotsAll hplace, .here hfree ht⟩
    · exact .inl (.here (hadd hfree hplace) ht)
  | @step n ks later t hfree hlater h ih =>
    by_cases hplace : (shape ks).place? = some place
    · exact .inr ⟨ks, mem_spotsAll hplace, .step hfree hlater h⟩
    · rcases ih with ih | ⟨ls, hls, ih⟩
      · exact .inl (.step (hadd hfree hplace) hlater ih)
      · exact .inr ⟨ls, spotsAll_step hlater hls, ih.succ⟩

theorem mem_walkAll_iff : t ∈ walkAll holds ks m ↔ (shape ks).free m ∧
    ((shape ks).thread? = some t ∨
      ∃ later ∈ (shape ks).steps holds, t ∈ walkAll holds later ((shape ks).mark m)) := by
  rw [walkAll_eq, walkShape]
  split <;> simp [*]

theorem leads_of_mem_walkAll (h : t ∈ walkAll holds ks m) : ∃ n, Leads holds m n ks t := by
  induction ks, m using shape_induct holds with
  | h ks m ih =>
    obtain ⟨hfree, ht | ⟨later, hlater, h⟩⟩ := mem_walkAll_iff.1 h
    · exact ⟨0, .here hfree ht⟩
    · obtain ⟨n, hn⟩ := ih hfree later hlater _ (.refl _) h
      exact ⟨n + 1, .step hfree hlater (hn.fewer ((shape ks).within_mark m))⟩

/-- A way that comes back to a place of its own can be cut short, so backtracking finds all that can
be come to. -/
theorem mem_walkAll_of_leads (hplaced : Placed spots) (hks : spotsAll ks ⊆ spots)
    (h : Leads holds m n ks t) : t ∈ walkAll holds ks m := by
  induction n generalizing ks m with
  | zero =>
    cases h with
    | here hfree ht => exact mem_walkAll_iff.2 ⟨hfree, .inl ht⟩
  | succ n ih =>
    cases h with
    | here hfree ht => exact mem_walkAll_iff.2 ⟨hfree, .inl ht⟩
    | @step _ _ later _ hfree hlater h =>
      have hcut : Leads holds ((shape ks).mark m) n later t ∨ Leads holds m n ks t := by
        cases hplace : (shape ks).place? with
        | none => exact .inl (by rwa [Shape.mark, hplace])
        | some place =>
          rw [Shape.mark, hplace]
          refine (h.avoid place).imp_right ?_
          rintro ⟨ls, hls, h⟩
          rwa [hplaced.unique (hks (mem_spotsAll hplace)) (hks (spotsAll_step hlater hls))]
      rcases hcut with h | h
      · exact mem_walkAll_iff.2 ⟨hfree, .inr ⟨later, hlater,
          ih (List.Subset.trans (spotsAll_step hlater) hks) h⟩⟩
      · exact ih hks h

end Net

end Packrat
