import Packrat.Proofs.Endings

/-! A run can be watched: it is cut at the first call that does not meet a condition, wherever in
nested rules that call is. The condition is met throughout a run if the watch changes nothing. -/

namespace Packrat
set_option autoImplicit false

namespace Action
variable {σ α : Type}

open Classical in
/-- Ends with `why` unless the condition is met. -/
noncomputable def guarded (P : Machine σ → Prop) (why : Halt) (x : Action σ α) : Action σ α :=
  fun m => if P m then x m else .error why m

/-- The machine that an action leaves, whether it has an answer or not. -/
def last (x : Action σ α) (m : Machine σ) : Machine σ :=
  match x m with
  | .ok _ n => n
  | .error _ n => n

variable {P : Machine σ → Prop} {why : Halt} {x : Action σ α} {m n : Machine σ} {a : α}
variable {Q : α → Machine σ → Prop} {E : Halt → Machine σ → Prop}

theorem last_of_ok (h : x m = .ok a n) : last x m = n := by
  unfold last
  rw [h]

theorem last_of_error (h : x m = .error why n) : last x m = n := by
  unfold last
  rw [h]

theorem guarded_pos (h : P m) : guarded P why x m = x m := if_pos h

theorem guarded_neg (h : ¬P m) : guarded P why x m = .error why m := if_neg h

theorem ends_guarded (hx : P m → Ends x m Q E) (hwhy : ¬P m → E why m) :
    Ends (guarded P why x) m Q E := by
  by_cases h : P m
  · unfold Ends
    rw [guarded_pos h]
    exact hx h
  · unfold Ends
    rw [guarded_neg h]
    exact hwhy h

end Action

namespace Engine
open Packrat.Action
variable {N σ α : Type}

/-- Runs a program as `run` does, but ends with `why` at the first call that `P` does not allow. -/
noncomputable def runWhile (g : Setting N σ) (P : Call σ → Machine σ → Prop) (why : Halt) :
    Nat → Runner N σ
  | 0, _, _ => throw .tooDeep
  | depth + 1, _, program =>
    program.answer fun c => guarded (P c) why (reply g (runWhile g P why depth) c)

/-- Every call of the run, also of the rules and skippers in it, is made in a state that `P`
allows. -/
def Throughout (g : Setting N σ) (P : Call σ → Machine σ → Prop) (depth : Nat)
    (program : Program N σ α) (m : Machine σ) : Prop :=
  ∀ why, runWhile g P why depth α program m = run g depth α program m

theorem runWhile_of_always {g : Setting N σ} {P : Call σ → Machine σ → Prop} (why : Halt)
    (hP : ∀ c m, P c m) (depth : Nat) : runWhile g P why depth = run g depth := by
  induction depth with
  | zero => rfl
  | succ depth ih =>
    funext α program
    show program.answer _ = program.answer _
    rw [ih]
    congr 1
    funext c m
    exact guarded_pos (hP c m)

variable {g : Setting N σ} {P : Call σ → Machine σ → Prop} {depth : Nat} {m : Machine σ}
variable {c : Call σ} {next : c.Reply N → Program N σ α}

theorem throughout_of_always {program : Program N σ α} (hP : ∀ c m, P c m) :
    Throughout g P depth program m := by
  intro why
  rw [runWhile_of_always why hP]

theorem runWhile_call_neg (h : ¬P c m) (why : Halt) :
    runWhile g P why (depth + 1) α (.call c next) m = .error why m :=
  bind_eq_of_error (guarded_neg h)

theorem Throughout.first (h : Throughout g P (depth + 1) (.call c next) m) : P c m := by
  by_cases hP : P c m
  · exact hP
  · have hdeep := (runWhile_call_neg hP .tooDeep).symm.trans (h .tooDeep)
    have hfault := (runWhile_call_neg hP (.fault .misuse)).symm.trans (h (.fault .misuse))
    cases hdeep.trans hfault.symm

theorem throughout_call (hP : P c m)
    (hreply : ∀ why, reply g (runWhile g P why depth) c m = reply g (run g depth) c m)
    (hnext : ∀ a n, reply g (run g depth) c m = .ok a n → Throughout g P (depth + 1) (next a) n) :
    Throughout g P (depth + 1) (.call c next) m := by
  intro why
  show (guarded (P c) why _ >>= _) m = (reply g (run g depth) c >>= _) m
  have heq : guarded (P c) why (reply g (runWhile g P why depth) c) m = reply g (run g depth) c m :=
    (guarded_pos hP).trans (hreply why)
  cases hx : reply g (run g depth) c m with
  | ok a n =>
    rw [bind_eq_of_ok (heq.trans hx), bind_eq_of_ok hx]
    exact hnext a n hx why
  | error w n =>
    rw [bind_eq_of_error (heq.trans hx), bind_eq_of_error hx]

theorem throughout_done (a : α) : Throughout g P (depth + 1) (.done a) m := fun _ => rfl

end Engine

end Packrat
