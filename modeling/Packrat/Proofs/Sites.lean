import Packrat.Proofs.Continuity
import Packrat.Proofs.Depth
import Packrat.Proofs.Fatality

/-! Where a run comes to: the calls that are made in it, by the program itself and by the rules and
skippers that its calls run, with the machine that each is made at. -/

namespace Packrat
set_option autoImplicit false

/-- Tests that are in progress while the call runs something, besides those it is made in. -/
def Call.pends {σ : Type} : Call σ → Nat
  | .test _ => 1
  | _ => 0

/-- A call that is made in a run. -/
structure Site (σ : Type) where
  call : Call σ
  machine : Machine σ
  /-- For the rules and skippers that the call runs. -/
  levels : Nat
  /-- Tests in progress. -/
  pending : Nat

namespace Engine
open Packrat.Action Machine
variable {N σ α β : Type} {g : Setting N σ} {depth i : Nat} {c : Call σ} {m n k : Machine σ}

/-- The run of a program from `m`, with `i` tests in progress, meets the site. -/
inductive Meets (g : Setting N σ) :
    Nat → Nat → {α : Type} → Program N σ α → Machine σ → Site σ → Prop where
  | here {depth i : Nat} {α : Type} {c : Call σ} {next : c.Reply N → Program N σ α}
    {m : Machine σ} : Meets g (depth + 1) i (.call c next) m ⟨c, m, depth, i⟩
  | inside {depth i : Nat} {α β : Type} {c : Call σ} {next : c.Reply N → Program N σ α}
    {p : Program N σ (Except Error β)} {m n : Machine σ} {s : Site σ}
    (hc : Enters g depth c m p n) (hp : Meets g depth (i + c.pends) p n s) :
    Meets g (depth + 1) i (.call c next) m s
  | later {depth i : Nat} {α : Type} {c : Call σ} {next : c.Reply N → Program N σ α}
    {a : c.Reply N} {m n : Machine σ} {s : Site σ} (hc : reply g (run g depth) c m = .ok a n)
    (hnext : Meets g (depth + 1) i (next a) n s) : Meets g (depth + 1) i (.call c next) m s

/-- Sites in the sessions of parsers for included files too. -/
inductive Reaches (g : Setting N σ) :
    Nat → {α : Type} → Program N σ α → Machine σ → Site σ → Prop where
  | met {depth : Nat} {α : Type} {p : Program N σ α} {m : Machine σ} {s : Site σ}
    (hs : Meets g depth 0 p m s) : Reaches g depth p m s
  | beneath {depth : Nat} {α : Type} {p : Program N σ α} {q : Program N σ (Except Error N)}
    {m : Machine σ} {s t : Site σ} (hs : Meets g depth 0 p m s) (hq : s.call.below? = some q)
    (ht : Reaches g s.levels q s.machine.sub t) : Reaches g depth p m t

theorem Meets.levels_lt {p : Program N σ α} {s : Site σ} (h : Meets g depth i p m s) :
    s.levels < depth := by
  induction h with
  | here => exact Nat.lt_succ_self _
  | inside _ _ ih => exact Nat.lt_succ_of_lt ih
  | later _ _ ih => exact ih

theorem continues_resolve {id : String} {r : Resolved} (h : resolve g id m = .ok r n) :
    m.Continues n :=
  (continuing_resolve g id m).ok h

theorem continues_enters (hg : g.KeepsSessions) {p : Program N σ (Except Error α)}
    (hc : Enters g depth c m p n) : m.Continues n := by
  have hrun := runsGrow_run hg depth
  cases hc with
  | invoke => exact .refl m
  | matchWith href hr => exact (continues_count m _).trans (continues_resolve hr)
  | install href hid hs => exact (continues_count m _).trans (continues_installing _ _)
  | installed href hset hr =>
    have hmatching : m.Continues m.matching := continues_count m _
    have hinstalled := (continuing_setSkipper hg hrun _ _).ok hset
    exact (hmatching.trans hinstalled).trans (continues_resolve hr)
  | test hm hr => exact (continues_testing m).trans (continues_resolve hr)
  | testAll hbefore hr =>
    exact ((continuing_runAll hg hrun _ m).ok hbefore).trans (continues_resolve hr)
  | skip hid hs => exact .refl m
  | runSkipper hs => exact .refl m
  | setSkipper hid hs => exact continues_installing m _
  | @start rule r _ _ hr =>
    have hstarted : m.Continues (m.emit (.started m.position.source.name rule)) :=
      continues_emit_of_quiet rfl
    exact (hstarted.trans (continues_count _ _)).trans (continues_resolve hr)

theorem Meets.grows (hg : g.KeepsSessions) {p : Program N σ α} {s : Site σ}
    (h : Meets g depth i p m s) : m.Grows s.machine := by
  induction h with
  | here => exact .refl _
  | inside hc _ ih => exact (continues_enters hg hc).toGrows.trans ih
  | later hc _ ih => exact ((grows_reply g _ _ _).ok hc).trans ih

theorem tokens_tested (n : Machine σ) (start : Snapshot) (rule : String)
    (outcome : Except Error Bool) :
    (n.tested start rule outcome).shared.tokens = n.shared.tokens := by
  cases outcome <;> rfl

/-- A call that is answered is so behind all that it ran. -/
theorem Enters.completes (hg : g.KeepsSessions) {p : Program N σ (Except Error α)}
    {a : c.Reply N} (hc : Enters g depth c m p n) (hx : reply g (run g depth) c m = .ok a k) :
    ∃ outcome l, run g depth _ p n = .ok outcome l ∧
      l.shared.tokens.Within k.shared.tokens := by
  have hrun := runsGrow_run hg depth
  have hinvoke := continuing_resolveAndInvoke hg hrun
  suffices h : Ends (reply g (run g depth) c) m
      (fun _ k => ∃ outcome l, run g depth _ p n = .ok outcome l ∧
        l.shared.tokens.Within k.shared.tokens) fun _ _ => True from h.ok hx
  cases hc with
  | invoke =>
    rw [reply_invoke]
    apply ends_of_ok
    intro outcome l hl
    exact ⟨outcome, l, hl, .refl _⟩
  | matchWith href hr =>
    apply ends_matchWith.2
    rw [href]
    apply (ends_resolveAndInvoke_of_resolve hr).2
    apply ends_of_ok
    intro outcome l hl
    exact ⟨outcome, l, hl, .refl _⟩
  | @install ref params id skipper _ href hid hs =>
    apply ends_matchWith.2
    rw [href]
    apply (ends_setSkipper_of_skipper hid hs).2
    apply ends_of_ok
    intro outcome l hl
    -- Behind the skip the rule is run.
    have hmatched (j : Machine σ) (hj : l.Continues j) (previous? : Option String) :
        Ends (resolveAndInvoke g (run g depth) ref.id params) j
          (fun _ k => ∃ outcome l, run g depth _ skipper (m.matching.installing id) =
            .ok outcome l ∧ l.shared.tokens.Within (k.withSkipper previous?).shared.tokens)
          fun _ _ => True := by
      apply ends_of_ok
      intro _ k hk
      exact ⟨outcome, l, hl, (((hinvoke ref.id params).after hj).ok hk).tokens⟩
    cases outcome with
    | ok skipped => exact hmatched l (.refl l) _
    | error e =>
      dsimp only
      split
      · exact ⟨_, l, hl, .refl _⟩
      · exact hmatched _ (continues_restore l _) _
  | installed href hset hr =>
    apply ends_matchWith.2
    rw [href]
    apply (ends_of_eq_ok hset).2
    apply (ends_resolveAndInvoke_of_resolve hr).2
    apply ends_of_ok
    intro outcome l hl
    exact ⟨outcome, l, hl, .refl _⟩
  | test hm hr =>
    apply (ends_test_of_miss hm).2
    apply (ends_resolveAndInvoke_of_resolve hr).2
    apply ends_of_ok
    intro outcome l hl
    refine ⟨outcome, l, hl, ?_⟩
    rw [tokens_tested]
    exact .refl _
  | testAll hbefore hr =>
    apply ends_testAll.2
    apply (ends_runAll_append hbefore).2
    apply ends_runAll_cons.2
    apply (ends_resolveAndInvoke_of_resolve hr).2
    apply ends_of_ok
    intro outcome l hl
    cases outcome with
    | ok node =>
      apply ends_of_ok
      intro _ k hk
      exact ⟨_, l, hl, ((continuing_runAll hg hrun _ l).ok hk).tokens⟩
    | error e => exact ⟨_, l, hl, .refl _⟩
  | skip hid hs =>
    apply (ends_skip_of_skipper hid hs).2
    apply ends_of_ok
    intro outcome l hl
    cases outcome with
    | ok skipped => exact ⟨_, l, hl, .refl _⟩
    | error e =>
      dsimp only
      split <;> exact ⟨_, l, hl, .refl _⟩
  | runSkipper hs =>
    apply ends_runSkipper.2
    rw [hs]
    apply ends_of_ok
    intro outcome l hl
    exact ⟨outcome, l, hl, .refl _⟩
  | setSkipper hid hs =>
    apply (ends_setSkipper_of_skipper hid hs).2
    apply ends_of_ok
    intro outcome l hl
    cases outcome with
    | ok skipped => exact ⟨_, l, hl, .refl _⟩
    | error e =>
      dsimp only
      split <;> exact ⟨_, l, hl, .refl _⟩
  | start hr =>
    apply ends_start.2
    apply ends_matchWith.2
    apply (ends_resolveAndInvoke_of_resolve hr).2
    apply ends_of_ok
    intro outcome l hl
    cases outcome <;> exact ⟨_, l, hl, .refl _⟩

theorem exists_of_run_call {next : c.Reply N → Program N σ α} {a : α}
    (h : run g (depth + 1) α (.call c next) m = .ok a n) :
    ∃ o l, reply g (run g depth) c m = .ok o l ∧ run g (depth + 1) α (next o) l = .ok a n :=
  exists_of_bind_eq_ok h

/-- So is every call on the way to the end of a run. -/
theorem Meets.completes (hg : g.KeepsSessions) {p : Program N σ α} {s : Site σ}
    (h : Meets g depth i p m s) {a : α} (hx : run g depth α p m = .ok a n) :
    ∃ o l, reply g (run g s.levels) s.call s.machine = .ok o l ∧
      l.shared.tokens.Within n.shared.tokens := by
  induction h generalizing n with
  | here =>
    obtain ⟨o, l, hl, hnext⟩ := exists_of_run_call hx
    exact ⟨o, l, hl, ((grows_run g _ _ l).ok hnext).tokens⟩
  | inside hc _ ih =>
    obtain ⟨o, l, hl, hnext⟩ := exists_of_run_call hx
    obtain ⟨outcome, j, hj, hjl⟩ := hc.completes hg hl
    obtain ⟨o', l', hl', hj'⟩ := ih hj
    have hend := ((grows_run g _ _ l).ok hnext).tokens
    exact ⟨o', l', hl', (hj'.trans hjl).trans hend⟩
  | later hc _ ih =>
    obtain ⟨o, l, hl, hnext⟩ := exists_of_run_call hx
    cases hc.symm.trans hl
    exact ih hnext

theorem Meets.within_end (hg : g.KeepsSessions) {p : Program N σ α} {s : Site σ}
    (h : Meets g depth i p m s) {a : α} (hx : run g depth α p m = .ok a n) :
    s.machine.shared.tokens.Within n.shared.tokens := by
  obtain ⟨o, l, hl, hln⟩ := h.completes hg hx
  have hsl := (grows_reply g _ _ _).ok hl
  exact hsl.tokens.trans hln

end Engine

end Packrat
