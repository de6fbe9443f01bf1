import Mathlib.Data.List.Nodup
import Packrat.Proofs.Shape

/-! The places of a net. Numbering gives each place to one point of a net, so that at a place one
thing only may be to come. -/

namespace Packrat
set_option autoImplicit false

namespace Net
variable {ks later : List Net} {place : Nat}

/-- The places of a net, with what is to come there. -/
def spots : Net → List Net → List (Nat × List Net)
  | .pass, _ => []
  | .test place set, behind => [(place, .test place set :: behind)]
  | .edge place e, behind => [(place, .edge place e :: behind)]
  | .seq a b, behind => a.spots (b :: behind) ++ b.spots behind
  | .alt place a b, behind =>
    (place, .alt place a b :: behind) :: (a.spots behind ++ b.spots behind)
  | .opt place a greedy, behind => (place, .opt place a greedy :: behind) :: a.spots behind
  | .loop place a greedy _, behind =>
    (place, .loop place a greedy false :: behind) ::
      a.spots (.loop place a greedy false :: behind)

def spotsAll : List Net → List (Nat × List Net)
  | [] => []
  | net :: behind => net.spots behind ++ spotsAll behind

theorem mem_spotsAll (h : (shape ks).place? = some place) : (place, ks) ∈ spotsAll ks := by
  cases ks with
  | nil => cases h
  | cons net behind =>
    cases net with
    | pass | seq => cases h
    | test | edge | alt =>
      cases h
      exact List.mem_append_left _ List.mem_cons_self
    | opt place a greedy =>
      cases place?_fork.symm.trans h
      exact List.mem_append_left _ List.mem_cons_self
    | loop place a greedy entered =>
      cases entered with
      | true => cases h
      | false =>
        cases place?_fork.symm.trans h
        exact List.mem_append_left _ List.mem_cons_self

/-- A round of a loop has the places of the loop. -/
theorem spotsAll_round (place : Nat) (a : Net) (greedy entered : Bool) (behind : List Net) :
    spotsAll (a :: .loop place a greedy false :: behind) ⊆
      spotsAll (.loop place a greedy entered :: behind) := by
  intro spot h
  simp only [spotsAll, spots, List.mem_append, List.mem_cons] at h ⊢
  tauto

/-- Nothing new is to come later. -/
theorem spotsAll_step {holds : Edge → Bool} (h : later ∈ (shape ks).steps holds) :
    spotsAll later ⊆ spotsAll ks := by
  cases ks with
  | nil => cases h
  | cons net behind =>
    cases net with
    | pass =>
      obtain rfl := List.mem_singleton.1 h
      exact List.subset_append_right _ _
    | test => cases h
    | edge place e =>
      obtain ⟨-, rfl⟩ := mem_steps_edge.1 h
      exact List.subset_append_right _ _
    | seq a b =>
      obtain rfl := List.mem_singleton.1 h
      intro spot hspot
      simpa only [spotsAll, spots, List.append_assoc] using hspot
    | alt place a b =>
      intro spot hspot
      obtain rfl | rfl := mem_steps_alt.1 h
      · simp only [spotsAll, spots, List.mem_append, List.mem_cons] at hspot ⊢
        tauto
      · simp only [spotsAll, spots, List.mem_append, List.mem_cons] at hspot ⊢
        tauto
    | opt place a greedy =>
      intro spot hspot
      obtain rfl | rfl := mem_steps_fork.1 h
      · simp only [spotsAll, spots, List.mem_append, List.mem_cons] at hspot ⊢
        tauto
      · exact List.mem_append_right _ hspot
    | loop place a greedy entered =>
      cases entered with
      | true =>
        obtain rfl := List.mem_singleton.1 h
        exact spotsAll_round place a greedy true behind
      | false =>
        obtain rfl | rfl := mem_steps_fork.1 h
        · exact spotsAll_round place a greedy false behind
        · exact List.subset_append_right _ _

theorem spotsAll_test {set : CharSet} (h : (shape ks).thread? = some (.test set later)) :
    spotsAll later ⊆ spotsAll ks := by
  obtain ⟨-, h⟩ | ⟨place, _, _, rfl, h⟩ := thread?_shape h
  · cases h
  · cases h
    exact List.subset_append_right _ _

/-- Nothing new is to come at a place. -/
theorem spotsAll_of_mem {ls : List Net} (h : (place, ls) ∈ spotsAll ks) :
    spotsAll ls ⊆ spotsAll ks := by
  suffices hnet : ∀ (net : Net) (behind : List Net), (place, ls) ∈ net.spots behind →
      spotsAll ls ⊆ spotsAll (net :: behind) by
    induction ks with
    | nil => cases h
    | cons net behind ih =>
      rcases List.mem_append.1 h with h | h
      · exact hnet net behind h
      · exact List.Subset.trans (ih h) (List.subset_append_right _ _)
  intro net
  induction net with
  | pass => exact fun behind h => by cases h
  | test | edge =>
    intro behind h
    cases List.mem_singleton.1 h
    exact List.Subset.refl _
  | seq a b iha ihb =>
    intro behind h
    have hassoc : spotsAll (.seq a b :: behind) = spotsAll (a :: b :: behind) := by
      simp [spotsAll, spots]
    rw [hassoc]
    rcases List.mem_append.1 h with h | h
    · exact iha _ h
    · exact List.Subset.trans (ihb _ h) (List.subset_append_right _ _)
  | alt p a b iha ihb =>
    intro behind h
    rcases List.mem_cons.1 h with h | h
    · cases h
      exact List.Subset.refl _
    · rcases List.mem_append.1 h with h | h
      · have hfirst : (a :: behind) ∈ (shape (.alt p a b :: behind)).steps fun _ => true :=
          mem_steps_alt.2 (.inl rfl)
        exact List.Subset.trans (iha _ h) (spotsAll_step hfirst)
      · have hsecond : (b :: behind) ∈ (shape (.alt p a b :: behind)).steps fun _ => true :=
          mem_steps_alt.2 (.inr rfl)
        exact List.Subset.trans (ihb _ h) (spotsAll_step hsecond)
  | opt p a greedy iha =>
    intro behind h
    rcases List.mem_cons.1 h with h | h
    · cases h
      exact List.Subset.refl _
    · have hmore : (a :: behind) ∈ (shape (.opt p a greedy :: behind)).steps fun _ => true :=
        mem_steps_fork.2 (.inl rfl)
      exact List.Subset.trans (iha _ h) (spotsAll_step hmore)
  | loop p a greedy entered iha =>
    intro behind h
    rcases List.mem_cons.1 h with h | h
    · cases h
      exact List.Subset.refl _
    · exact List.Subset.trans (iha _ h) (spotsAll_round p a greedy entered behind)

/-- At each place one thing only is to come. -/
structure Placed (spots : List (Nat × List Net)) : Prop where
  unique : ∀ {place ks ls}, (place, ks) ∈ spots → (place, ls) ∈ spots → ks = ls
  closed : ∀ {place ks}, (place, ks) ∈ spots → spotsAll ks ⊆ spots

def places : Net → List Nat
  | .pass => []
  | .test place _ | .edge place _ => [place]
  | .seq a b => a.places ++ b.places
  | .alt place a b => place :: (a.places ++ b.places)
  | .opt place a _ | .loop place a _ _ => place :: a.places

theorem map_fst_spots (net : Net) (behind : List Net) :
    (net.spots behind).map Prod.fst = net.places := by
  induction net generalizing behind <;> simp_all [spots, places]

theorem mem_places_of_mem_spotsAll {net : Net} (h : (place, ks) ∈ spotsAll [net]) :
    place ∈ net.places := by
  rw [spotsAll, spotsAll, List.append_nil] at h
  exact map_fst_spots net [] ▸ List.mem_map_of_mem h

theorem placed_of_nodup {net : Net} (h : net.places.Nodup) : Placed (spotsAll [net]) := by
  refine ⟨?_, spotsAll_of_mem⟩
  intro place ks ls hks hls
  rw [spotsAll, spotsAll, List.append_nil] at hks hls
  rw [← map_fst_spots net []] at h
  exact congrArg Prod.snd (List.inj_on_of_nodup_map h hks hls rfl)

end Net

/-- Different numbers, of those from `n` to below `m`. -/
structure Fills (places : List Nat) (n m : Nat) : Prop where
  le : n ≤ m
  nodup : places.Nodup
  bounds : ∀ place ∈ places, n ≤ place ∧ place < m

namespace Fills
variable {ps qs : List Nat} {n m l : Nat}

theorem nil (n : Nat) : Fills [] n n := ⟨Nat.le_refl n, .nil, by simp⟩

theorem append (h : Fills ps n m) (h' : Fills qs m l) : Fills (ps ++ qs) n l := by
  refine ⟨Nat.le_trans h.le h'.le, List.nodup_append.2 ⟨h.nodup, h'.nodup, ?_⟩, ?_⟩
  · intro p hp q hq
    have := (h.bounds p hp).2
    have := (h'.bounds q hq).1
    omega
  · intro p hp
    have := h.le
    have := h'.le
    rcases List.mem_append.1 hp with hp | hp
    · have := h.bounds p hp
      omega
    · have := h'.bounds p hp
      omega

/-- A choice is numbered behind its parts. -/
theorem choice (h : Fills ps n m) : Fills (m :: ps) n (m + 1) := by
  have hle := h.le
  refine ⟨by omega, List.nodup_cons.2 ⟨fun hm => ?_, h.nodup⟩, List.forall_mem_cons.2 ⟨by omega, ?_⟩⟩
  · exact absurd (h.bounds m hm).2 (Nat.lt_irrefl m)
  · intro p hp
    have := h.bounds p hp
    omega

end Fills

namespace Numbering
open Net
variable {a b : Numbering}

/-- It numbers on from where it is told to, and gives no number twice. -/
def Tidy (a : Numbering) : Prop := ∀ n, Fills (a n).1.places n (a n).2

theorem tidy_pass : Tidy pass := .nil

theorem tidy_test (set : CharSet) : Tidy (test set) := fun n => (Fills.nil n).choice

theorem tidy_edge (e : Edge) : Tidy (edge e) := fun n => (Fills.nil n).choice

theorem Tidy.seq (ha : a.Tidy) (hb : b.Tidy) : Tidy (seq a b) := fun n => (ha n).append (hb _)

theorem Tidy.alt (ha : a.Tidy) (hb : b.Tidy) : Tidy (alt a b) :=
  fun n => ((ha n).append (hb _)).choice

theorem Tidy.opt (ha : a.Tidy) (greedy : Bool) : Tidy (opt a greedy) := fun n => (ha n).choice

theorem Tidy.loop (ha : a.Tidy) (greedy entered : Bool) : Tidy (loop a greedy entered) :=
  fun n => (ha n).choice

/-- The numberings of expressions are made of these. -/
theorem induct {motive : Numbering → Prop} (pass : motive pass)
    (test : ∀ set, motive (test set)) (edge : ∀ e, motive (edge e))
    (seq : ∀ {a b}, motive a → motive b → motive (seq a b))
    (alt : ∀ {a b}, motive a → motive b → motive (alt a b))
    (opt : ∀ {a}, motive a → ∀ greedy, motive (opt a greedy))
    (loop : ∀ {a}, motive a → ∀ greedy entered, motive (loop a greedy entered)) (r : Regex) :
    motive r.numbering := by
  have hliteral (text : List Char) : motive (literal text) := by
    induction text with
    | nil => exact pass
    | cons c text ih => exact seq (test _) ih
  have hcopies {a last : Numbering} (ha : motive a) (hlast : motive last) (n : Nat) :
      motive (copies a last n) := by
    induction n with
    | zero => exact hlast
    | succ n ih => exact seq ha ih
  have hupTo {a : Numbering} (ha : motive a) (greedy : Bool) (n : Nat) :
      motive (upTo a greedy n) := by
    induction n with
    | zero => exact pass
    | succ n ih => exact opt (seq ha ih) greedy
  fun_induction Regex.numbering r with
  | case1 text => exact hliteral text
  | case2 set => exact test set
  | case3 e => exact edge e
  | case4 _ a ih => exact ih
  | case5 a b iha ihb => exact seq iha ihb
  | case6 a b iha ihb => exact alt iha ihb
  | case7 a greedy ih =>
    unfold endless
    split
    · exact loop ih greedy false
    · exact opt (loop ih greedy true) greedy
  | case8 a n greedy ih => exact hcopies ih (loop ih greedy true) n
  | case9 a n most greedy ih => exact hcopies ih (hupTo ih greedy _) n

end Numbering

namespace Regex
open Packrat.Numbering

theorem tidy_numbering (r : Regex) : r.numbering.Tidy :=
  Numbering.induct tidy_pass tidy_test tidy_edge Tidy.seq Tidy.alt Tidy.opt Tidy.loop r

theorem placed_net (r : Regex) : Net.Placed (Net.spotsAll [r.net]) :=
  Net.placed_of_nodup (r.tidy_numbering 0).nodup

end Regex

end Packrat
