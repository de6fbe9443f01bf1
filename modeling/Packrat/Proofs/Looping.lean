import Packrat.Proofs.Depth

/-! Rounds of a loop. A loop that goes on as long as its rounds say is no program, since a program has
no path without an end. A run of a loop that ends, though, is the run of all programs that have rounds
enough written out. -/

namespace Packrat
set_option autoImplicit false

namespace Program
variable {N σ τ α : Type}

/-- A number of rounds written out, and `rest` for all that come behind them. A round gives the state
for another one, or the result of the loop. -/
def unroll (round : τ → Program N σ (τ ⊕ α)) (rest : τ → Program N σ α) : Nat → τ → Program N σ α
  | 0, t => rest t
  | count + 1, t => do
    match ← round t with
    | .inl u => unroll round rest count u
    | .inr a => return a

/-- Gives up, for whoever comes there. -/
def stop (why : Fault) : Program N σ α := .call (.halt why) Empty.elim

variable {round : τ → Program N σ (τ ⊕ α)} {rest : τ → Program N σ α}

theorem unroll_add (count extra : Nat) :
    unroll round rest (extra + count) = unroll round (unroll round rest extra) count := by
  induction count with
  | zero => rfl
  | succ count ih =>
    funext t
    change unroll round rest ((extra + count) + 1) t = _
    rw [unroll, unroll, ih]

/-- What every round abides by is what the loop abides by; `inv` is what the states are like. -/
theorem Abides.unroll {may : Call σ → Prop} {told : (c : Call σ) → c.Reply N → Prop}
    {inv : τ → Prop} {gives : α → Prop}
    (hround : ∀ t, inv t → (round t).Abides may told (Sum.elim inv gives))
    (hrest : ∀ t, inv t → (rest t).Abides may told gives) {count : Nat} {t : τ} (ht : inv t) :
    (Program.unroll round rest count t).Abides may told gives := by
  induction count generalizing t with
  | zero => exact hrest t ht
  | succ count ih =>
    apply (hround t ht).bind
    intro outcome houtcome
    cases outcome with
    | inl u => exact ih houtcome
    | inr a => exact houtcome

end Program

namespace Engine
open Packrat.Action
variable {N σ τ α β : Type} {g : Setting N σ} {m n k : Machine σ}

/-- The run of a loop, round by round, ends like that. -/
inductive LoopEnds (g : Setting N σ) (round : τ → Program N σ (τ ⊕ α)) :
    τ → Machine σ → EStateM.Result Halt (Machine σ) α → Prop where
  | last {t : τ} {m n : Machine σ} {a : α} : ComesTo g (round t) m (.inr a) n →
    LoopEnds g round t m (.ok a n)
  | fault {t : τ} {m n : Machine σ} {why : Fault} : EndsIn g (round t) m (.error (.fault why) n) →
    LoopEnds g round t m (.error (.fault why) n)
  | next {t u : τ} {m n : Machine σ} {r : EStateM.Result Halt (Machine σ) α} :
    ComesTo g (round t) m (.inl u) n → LoopEnds g round u n r → LoopEnds g round t m r

variable {round : τ → Program N σ (τ ⊕ α)} {t : τ} {r r' : EStateM.Result Halt (Machine σ) α}

theorem endsIn_done (a : α) : EndsIn g (.done a) m (.ok a m) :=
  endsIn_ok_iff.2 (comesTo_done.2 ⟨rfl, rfl⟩)

theorem endsIn_stop (why : Fault) :
    EndsIn g (.stop why : Program N σ α) m (.error (.fault why) m) := by
  refine ⟨⟨1, rfl⟩, ?_⟩
  intro k hk
  cases hk

theorem LoopEnds.unrolled (h : LoopEnds g round t m r) :
    ∃ count, ∀ rest, EndsIn g (Program.unroll round rest count t) m r := by
  induction h with
  | last hround =>
    refine ⟨1, ?_⟩
    intro rest
    exact EndsIn.bind hround (endsIn_done _)
  | fault hround => exact ⟨1, fun rest => hround.bind_fault⟩
  | next hround _ ih =>
    obtain ⟨count, hcount⟩ := ih
    refine ⟨count + 1, ?_⟩
    intro rest
    exact EndsIn.bind hround (hcount rest)

/-- If what stands behind the rounds makes no difference, no run gets there. -/
theorem loopEnds_of_unrolled {count : Nat}
    (h : ∀ rest, EndsIn g (Program.unroll round rest count t) m r) : LoopEnds g round t m r := by
  induction count generalizing t m with
  | zero =>
    -- Without a round, the end would be that of any program: of one that overflows and of a misuse.
    have hoverflow := (h fun _ => .stop .overflow).unique (endsIn_stop _)
    have hmisuse := (h fun _ => .stop .misuse).unique (endsIn_stop _)
    cases hoverflow.symm.trans hmisuse
  | succ count ih =>
    rcases (h fun _ => .stop .misuse).cases_bind with
      ⟨outcome, n, hround, hend⟩ | ⟨why, n, hround, rfl⟩
    · cases outcome with
      | inl u =>
        refine .next hround (ih ?_)
        intro rest
        rcases (h rest).cases_bind with ⟨outcome', n', hround', hend'⟩ | ⟨why, n', hround', -⟩
        · obtain ⟨heq, rfl⟩ := hround.unique hround'
          cases heq
          exact hend'
        · cases (endsIn_ok_iff.2 hround).unique hround'
      | inr a =>
        have hr := hend.unique (endsIn_done _)
        exact hr ▸ .last hround
    · exact .fault hround

/-- A loop ends like that if it does with rounds enough written out, whatever stands behind them. -/
theorem loopEnds_iff_unrolled : LoopEnds g round t m r ↔
    ∃ count, ∀ rest, EndsIn g (Program.unroll round rest count t) m r := by
  constructor
  · intro h
    exact h.unrolled
  · rintro ⟨count, h⟩
    exact loopEnds_of_unrolled h

/-- Writing out more rounds changes nothing. -/
theorem LoopEnds.eventually (h : LoopEnds g round t m r) (rest : τ → Program N σ α) :
    ∃ count, ∀ more, count ≤ more → EndsIn g (Program.unroll round rest more t) m r := by
  obtain ⟨count, hcount⟩ := h.unrolled
  refine ⟨count, ?_⟩
  intro more hle
  obtain ⟨extra, rfl⟩ := Nat.exists_eq_add_of_le' hle
  rw [Program.unroll_add]
  exact hcount _

theorem LoopEnds.unique (h : LoopEnds g round t m r) (h' : LoopEnds g round t m r') : r = r' := by
  obtain ⟨count, hcount⟩ := h.eventually fun _ => .stop .misuse
  obtain ⟨count', hcount'⟩ := h'.eventually fun _ => .stop .misuse
  have hleft := hcount (max count count') (Nat.le_max_left _ _)
  have hright := hcount' (max count count') (Nat.le_max_right _ _)
  exact hleft.unique hright

/-- What is true of the ends of programs that abide by a condition is true of the ends of a loop whose
rounds abide by it. -/
theorem LoopEnds.of_programs {may : Call σ → Prop} {told : (c : Call σ) → c.Reply N → Prop}
    {inv : τ → Prop} {gives : α → Prop} {Q : EStateM.Result Halt (Machine σ) α → Prop}
    (hQ : ∀ p : Program N σ α, p.Abides may told gives → ∀ r, EndsIn g p m r → Q r)
    (hhalt : may (.halt .misuse))
    (hround : ∀ t, inv t → (round t).Abides may told (Sum.elim inv gives)) (ht : inv t)
    (h : LoopEnds g round t m r) : Q r := by
  obtain ⟨count, hcount⟩ := h.unrolled
  apply hQ (Program.unroll round (fun _ => .stop .misuse) count t)
  · refine Program.Abides.unroll hround ?_ ht
    intro u _
    exact ⟨hhalt, fun reply => reply.elim⟩
  · exact hcount _

end Engine

end Packrat
