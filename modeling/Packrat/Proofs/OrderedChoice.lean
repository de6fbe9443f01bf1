import Packrat.Proofs.Prediction

/-! Ordered choice. The rules are tested in turn, each on the machine that the test before has left,
until one is not refused: what comes of its test comes of them all. The choice of a rule to match
goes the same way and matches the rule that was found. -/

namespace Packrat
set_option autoImplicit false

namespace Engine
open Packrat.Action Program
variable {N σ : Type} {g : Setting N σ} {depth : Nat} {m k n : Machine σ} {id : String}
variable {ids before after : List String}

/-- Each of the rules is tested where the test before has left the machine, and refused. -/
inductive Refuses (g : Setting N σ) (depth : Nat) : List String → Machine σ → Machine σ → Prop
  | none {m : Machine σ} : Refuses g depth [] m m
  | test {id : String} {ids : List String} {m k n : Machine σ}
    (htest : run g (depth + 1) _ (ask (.test id)) m = .ok (.ok false) k)
    (hlater : Refuses g depth ids k n) : Refuses g depth (id :: ids) m n

/-- Of the rules, those before `id` are refused, which leaves `k`. -/
def ComesUp (g : Setting N σ) (depth : Nat) (ids : List String) (m : Machine σ) (id : String)
    (k : Machine σ) : Prop :=
  ∃ before after, ids = before ++ id :: after ∧ Refuses g depth before m k

/-- What a test of `id` makes of a choice, unless the rule is refused. -/
def found? (id : String) : EStateM.Result Halt (Machine σ) (Except Error Bool) →
    Option (EStateM.Result Halt (Machine σ) (Except Error (Option String)))
  | .ok (.ok true) n => some (.ok (.ok (some id)) n)
  | .ok (.ok false) _ => none
  | .ok (.error e) n => some (.ok (.error e) n)
  | .error why n => some (.error why n)

theorem run_testAny_cons (id : String) (ids : List String) (m : Machine σ) :
    run g (depth + 1) _ (testAny (id :: ids)) m =
      match run g (depth + 1) _ (ask (.test id)) m with
      | .ok (.ok true) n => .ok (.ok (some id)) n
      | .ok (.ok false) n => run g (depth + 1) _ (testAny ids) n
      | .ok (.error e) n => .ok (.error e) n
      | .error why n => .error why n := by
  rw [testAny, run_bind]
  cases h : run g (depth + 1) _ (ask (.test id)) m with
  | error why n => exact bind_eq_of_error h
  | ok outcome n =>
    rw [bind_eq_of_ok h]
    rcases outcome with e | _ | _ <;> rfl

/-- The choice goes on behind rules that are refused. -/
theorem Refuses.run_testAny (h : Refuses g depth before m k) (after : List String) :
    run g (depth + 1) _ (testAny (before ++ after)) m = run g (depth + 1) _ (testAny after) k := by
  induction h with
  | none => rfl
  | test htest _ ih =>
    rw [List.cons_append, run_testAny_cons, htest]
    exact ih

theorem ComesUp.run_testAny (h : ComesUp g depth ids m id k) :
    ∃ after, run g (depth + 1) _ (testAny ids) m = run g (depth + 1) _ (testAny (id :: after)) k := by
  obtain ⟨before, after, rfl, hbefore⟩ := h
  exact ⟨after, hbefore.run_testAny (id :: after)⟩

theorem refuses_or_comesUp (g : Setting N σ) (depth : Nat) (ids : List String) (m : Machine σ) :
    (∃ n, Refuses g depth ids m n) ∨ ∃ id k, ComesUp g depth ids m id k ∧
      ∀ n, run g (depth + 1) _ (ask (.test id)) k ≠ .ok (.ok false) n := by
  induction ids generalizing m with
  | nil => exact .inl ⟨m, .none⟩
  | cons id ids ih =>
    by_cases hfalse : ∃ k, run g (depth + 1) _ (ask (.test id)) m = .ok (.ok false) k
    · obtain ⟨k, hk⟩ := hfalse
      rcases ih k with ⟨n, hn⟩ | ⟨found, j, ⟨before, after, rfl, hbefore⟩, htest⟩
      · exact .inl ⟨n, .test hk hn⟩
      · exact .inr ⟨found, j, ⟨id :: before, after, rfl, .test hk hbefore⟩, htest⟩
    · exact .inr ⟨id, m, ⟨[], ids, rfl, .none⟩, fun n hn => hfalse ⟨n, hn⟩⟩

theorem run_testAny_eq_none_iff :
    run g (depth + 1) _ (testAny ids) m = .ok (.ok none) n ↔ Refuses g depth ids m n := by
  constructor
  · intro h
    rcases refuses_or_comesUp g depth ids m with ⟨k, hk⟩ | ⟨id, k, hup, htest⟩
    · have hrun := hk.run_testAny []
      rw [List.append_nil, h] at hrun
      cases hrun
      exact hk
    · obtain ⟨after, hrun⟩ := hup.run_testAny
      rw [h, run_testAny_cons] at hrun
      split at hrun
      · cases hrun
      · exact absurd ‹_› (htest _)
      · cases hrun
      · cases hrun
  · intro h
    have hrun := h.run_testAny []
    rw [List.append_nil] at hrun
    exact hrun

theorem run_testAny_eq_iff {x : EStateM.Result Halt (Machine σ) (Except Error (Option String))}
    (hx : ∀ n, x ≠ .ok (.ok none) n) :
    run g (depth + 1) _ (testAny ids) m = x ↔ ∃ id k, ComesUp g depth ids m id k ∧
      found? id (run g (depth + 1) _ (ask (.test id)) k) = some x := by
  constructor
  · intro h
    rcases refuses_or_comesUp g depth ids m with ⟨n, hn⟩ | ⟨id, k, hup, htest⟩
    · exact absurd (h.symm.trans (run_testAny_eq_none_iff.2 hn)) (hx n)
    · obtain ⟨after, hrun⟩ := hup.run_testAny
      rw [h, run_testAny_cons] at hrun
      refine ⟨id, k, hup, ?_⟩
      generalize run g (depth + 1) _ (ask (.test id)) k = tested at hrun htest
      rcases tested with ⟨e | _ | _, n⟩ | ⟨why, n⟩
      · exact congrArg some hrun.symm
      · exact absurd rfl (htest n)
      · exact congrArg some hrun.symm
      · exact congrArg some hrun.symm
  · rintro ⟨id, k, hup, hfound⟩
    obtain ⟨after, hrun⟩ := hup.run_testAny
    rw [hrun, run_testAny_cons]
    generalize run g (depth + 1) _ (ask (.test id)) k = tested at hfound
    rcases tested with ⟨e | _ | _, n⟩ | ⟨why, n⟩
    · exact Option.some.inj hfound
    · cases hfound
    · exact Option.some.inj hfound
    · exact Option.some.inj hfound

theorem found?_eq_some_iff {found : String} {r : EStateM.Result Halt (Machine σ) (Except Error Bool)} :
    found? id r = some (.ok (.ok (some found)) n) ↔ id = found ∧ r = .ok (.ok true) n := by
  rcases r with ⟨e | _ | _, k⟩ | ⟨why, k⟩ <;> simp [found?]

theorem found?_eq_error_iff {e : Error} {r : EStateM.Result Halt (Machine σ) (Except Error Bool)} :
    found? id r = some (.ok (.error e) n) ↔ r = .ok (.error e) n := by
  rcases r with ⟨e | _ | _, k⟩ | ⟨why, k⟩ <;> simp [found?]

theorem found?_eq_halt_iff {why : Halt} {r : EStateM.Result Halt (Machine σ) (Except Error Bool)} :
    found? id r = some (.error why n) ↔ r = .error why n := by
  rcases r with ⟨e | _ | _, k⟩ | ⟨why, k⟩ <;> simp [found?]

/-- The choice of a rule to match comes to what the test of its rules comes to, and then matches the
rule found or fails at the cursor with all of them. The rule found is the first whose test answers
true, with those before it tested and refused, and none behind it tested; an error or a halt of the
choice is that of the first test that ends so. -/
theorem choice_forms_agree (g : Setting N σ) (depth : Nat) (ids : List String) (m : Machine σ) :
    run g (depth + 1) _ (matchAny ids) m =
        (match run g (depth + 1) _ (testAny ids) m with
        | .ok (.ok (some id)) n => run g (depth + 1) _ (matchRule ⟨id, none⟩) n
        | .ok (.ok none) n => .ok (.error ⟨.expected ids, some n.position⟩) n
        | .ok (.error e) n => .ok (.error e) n
        | .error why n => .error why n) ∧
      (∀ id n, run g (depth + 1) _ (testAny ids) m = .ok (.ok (some id)) n ↔
        ∃ k, ComesUp g depth ids m id k ∧
          run g (depth + 1) _ (ask (.test id)) k = .ok (.ok true) n) ∧
      (∀ n, run g (depth + 1) _ (testAny ids) m = .ok (.ok none) n ↔ Refuses g depth ids m n) ∧
      (∀ e n, run g (depth + 1) _ (testAny ids) m = .ok (.error e) n ↔
        ∃ id k, ComesUp g depth ids m id k ∧
          run g (depth + 1) _ (ask (.test id)) k = .ok (.error e) n) ∧
      ∀ why n, run g (depth + 1) _ (testAny ids) m = .error why n ↔
        ∃ id k, ComesUp g depth ids m id k ∧
          run g (depth + 1) _ (ask (.test id)) k = .error why n := by
  refine ⟨?_, ?_, fun n => run_testAny_eq_none_iff, ?_, ?_⟩
  · rw [matchAny, matchFirst_eq, run_bind]
    cases h : run g (depth + 1) _ (testAny ids) m with
    | error why n => exact bind_eq_of_error h
    | ok answer n =>
      rw [bind_eq_of_ok h]
      rcases answer with e | _ | id <;> rfl
  · intro id n
    simp only [run_testAny_eq_iff (x := .ok (.ok (some id)) n) (by simp), found?_eq_some_iff]
    constructor
    · rintro ⟨_, k, hup, rfl, htest⟩
      exact ⟨k, hup, htest⟩
    · rintro ⟨k, hup, htest⟩
      exact ⟨id, k, hup, rfl, htest⟩
  · intro e n
    rw [run_testAny_eq_iff (by simp)]
    simp [found?_eq_error_iff]
  · intro why n
    rw [run_testAny_eq_iff (by simp)]
    simp [found?_eq_halt_iff]

end Engine

end Packrat
