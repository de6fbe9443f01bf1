import Packrat.Proofs.Agreement

/-! More levels never change an end, so a program comes to one answer at most. -/

namespace Packrat
set_option autoImplicit false

/-- No positions can be read off. -/
def View.blind (N σ : Type) : View N σ := ⟨fun _ _ => False, fun _ _ => False⟩

theorem Setting.respects_blind {N σ : Type} (g : Setting N σ) :
    g.Respects (.blind N σ) fun _ => True :=
  g.respects_of_always _ fun _ => trivial

def Invariant.always {N σ : Type} (g : Setting N σ) (P : Call σ → Machine σ → Prop) :
    Invariant g (.blind N σ) P where
  known _ := True
  holds _ := True
  faults _ _ := True
  respects := g.respects_blind
  knows _ := trivial
  outside _ _ _ := trivial
  parser _ _ _ := trivial
  emit _ _ := trivial
  tokens _ _ := trivial
  consult _ _ := trivial
  reads _ _ := trivial
  moves _ _ _ := trivial
  hit _ _ := trivial
  putsBack _ _ _ _ := trivial
  read _ _ _ _ := trivial
  readText _ _ := trivial
  sub _ := trivial
  back _ _ _ := trivial
  reading _ _ _ _ := trivial
  halt _ _ := trivial
  tooDeep _ := trivial

namespace Engine
open Packrat.Action
variable {N σ α β : Type} {g : Setting N σ} {view : View N σ} {m n k : Machine σ}

theorem concord_run (I : Invariant g view fun _ _ => True) {depth depth' : Nat}
    (hle : depth ≤ depth') : Concord I .deepEnough (run g depth) (run g depth') where
  watched := ⟨.tooDeep, depth, (runWhile_of_always _ (fun _ _ => trivial) depth).symm⟩
  agrees := by
    intro β p gives m hp hm
    have h := agrees_runWhile (s := .deepEnough) (R := fun _ _ => True) .tooDeep .tooDeep
      (fun _ _ _ _ _ _ _ => trivial) (fun _ _ _ h _ => h trivial) hle
      (fun _ h => absurd rfl h) hp hm
    rwa [runWhile_of_always _ fun _ _ => trivial, runWhile_of_always _ fun _ _ => trivial] at h

theorem agrees_run (g : Setting N σ) {depth depth' : Nat} (hle : depth ≤ depth')
    (p : Program N σ α) (m : Machine σ) :
    Scope.deepEnough.Agrees (run g depth α p) (run g depth' α p) m (fun _ _ => True)
      fun _ _ => True := by
  have hp : p.Abides (View.Names (.blind N σ) _) (View.Tells (.blind N σ) _) fun _ => True :=
    p.abides_of_always (.blind N σ) (fun _ => trivial : ∀ q, (Invariant.always g _).known q)
  apply ((concord_run (.always g _) hle).agrees hp trivial).imp
  intro a n _
  trivial

/-- An answer stays when there are more levels. -/
theorem run_ok_mono {depth depth' : Nat} (hle : depth ≤ depth')
    {p : Program N σ α} {a : α} (h : run g depth α p m = .ok a n) :
    run g depth' α p m = .ok a n := by
  have hagrees := agrees_run g hle p m
  exact (hagrees.ok h trivial).1

theorem run_fault_mono {depth depth' : Nat} (hle : depth ≤ depth')
    {p : Program N σ α} {why : Fault} (h : run g depth α p m = .error (.fault why) n) :
    run g depth' α p m = .error (.fault why) n := by
  have hagrees := agrees_run g hle p m
  apply And.left
  apply hagrees.error h
  intro hdeep
  cases hdeep

theorem run_mono {depth depth' : Nat} (hle : depth ≤ depth') {p : Program N σ α}
    {r : EStateM.Result Halt (Machine σ) α} (h : run g depth α p m = r)
    (hr : ∀ k, r ≠ .error .tooDeep k) : run g depth' α p m = r := by
  cases r with
  | ok a n => exact run_ok_mono hle h
  | error why n =>
    cases why with
    | fault why => exact run_fault_mono hle h
    | tooDeep => exact absurd rfl (hr n)

/-- With levels enough, the run of the program ends like that. -/
def EndsIn (g : Setting N σ) (p : Program N σ α) (m : Machine σ)
    (r : EStateM.Result Halt (Machine σ) α) : Prop :=
  (∃ depth, run g depth α p m = r) ∧ ∀ k, r ≠ .error .tooDeep k

/-- With levels enough, the program gives that answer. -/
def ComesTo (g : Setting N σ) (p : Program N σ α) (m : Machine σ) (a : α) (n : Machine σ) : Prop :=
  ∃ depth, run g depth α p m = .ok a n

section
variable {p : Program N σ α} {f : α → Program N σ β} {a b : α} {why : Fault}
variable {r r' : EStateM.Result Halt (Machine σ) α} {e : EStateM.Result Halt (Machine σ) β}

theorem endsIn_ok_iff : EndsIn g p m (.ok a n) ↔ ComesTo g p m a n := by
  constructor
  · intro h
    exact h.1
  · intro h
    refine ⟨h, ?_⟩
    intro k hk
    cases hk

theorem EndsIn.unique (h : EndsIn g p m r) (h' : EndsIn g p m r') : r = r' := by
  obtain ⟨⟨d, hd⟩, hr⟩ := h
  obtain ⟨⟨d', hd'⟩, hr'⟩ := h'
  have hleft := run_mono (Nat.le_max_left d d') hd hr
  have hright := run_mono (Nat.le_max_right d d') hd' hr'
  exact hleft.symm.trans hright

theorem EndsIn.bind (h : ComesTo g p m a n) (hf : EndsIn g (f a) n e) :
    EndsIn g (p >>= f) m e := by
  obtain ⟨d, hd⟩ := h
  obtain ⟨⟨d', hd'⟩, hr⟩ := hf
  have hp : run g (max d d' + 1) α p m = .ok a n := run_ok_mono (by omega) hd
  have hrest : run g (max d d' + 1) β (f a) n = e := run_mono (by omega) hd' hr
  refine ⟨⟨max d d' + 1, ?_⟩, hr⟩
  rw [run_bind]
  exact (bind_eq_of_ok hp).trans hrest

theorem EndsIn.bind_fault (h : EndsIn g p m (.error (.fault why) n)) :
    EndsIn g (p >>= f) m (.error (.fault why) n) := by
  obtain ⟨⟨d, hd⟩, -⟩ := h
  refine ⟨⟨d + 1, ?_⟩, ?_⟩
  · rw [run_bind]
    exact bind_eq_of_error (run_fault_mono (Nat.le_succ d) hd)
  · intro k hk
    cases hk

/-- If a sequence ends, its first part does. -/
theorem EndsIn.cases_bind (h : EndsIn g (p >>= f) m e) :
    (∃ a n, ComesTo g p m a n ∧ EndsIn g (f a) n e) ∨
    ∃ why n, EndsIn g p m (.error (.fault why) n) ∧ e = .error (.fault why) n := by
  obtain ⟨⟨depth, hd⟩, hr⟩ := h
  cases depth with
  | zero => exact absurd hd.symm (hr m)
  | succ depth =>
    rw [run_bind] at hd
    cases hp : run g (depth + 1) α p m with
    | ok a n => exact .inl ⟨a, n, ⟨_, hp⟩, ⟨_, (bind_eq_of_ok hp).symm.trans hd⟩, hr⟩
    | error why n =>
      have heq := (bind_eq_of_error hp).symm.trans hd
      cases why with
      | fault why =>
        refine .inr ⟨why, n, ⟨⟨_, hp⟩, ?_⟩, heq.symm⟩
        intro k hk
        cases hk
      | tooDeep => exact absurd heq.symm (hr n)

theorem ComesTo.unique (h : ComesTo g p m a n) (h' : ComesTo g p m b k) : a = b ∧ n = k := by
  cases (endsIn_ok_iff.2 h).unique (endsIn_ok_iff.2 h')
  exact ⟨rfl, rfl⟩

theorem comesTo_done : ComesTo g (.done a) m b n ↔ b = a ∧ n = m := by
  constructor
  · rintro ⟨depth, h⟩
    cases depth <;> cases h
    exact ⟨rfl, rfl⟩
  · rintro ⟨rfl, rfl⟩
    exact ⟨1, rfl⟩

theorem comesTo_bind {b : β} :
    ComesTo g (p >>= f) m b k ↔ ∃ a n, ComesTo g p m a n ∧ ComesTo g (f a) n b k := by
  constructor
  · intro h
    rcases (endsIn_ok_iff.2 h).cases_bind with ⟨a, n, hp, hf⟩ | ⟨why, n, -, heq⟩
    · exact ⟨a, n, hp, endsIn_ok_iff.1 hf⟩
    · cases heq
  · rintro ⟨a, n, hp, hf⟩
    exact endsIn_ok_iff.1 (EndsIn.bind hp (endsIn_ok_iff.2 hf))

end

theorem comesTo_ask {c : Call σ} {a : c.Reply N} :
    ComesTo g (Program.ask c) m a n ↔ ∃ depth, reply g (run g depth) c m = .ok a n := by
  constructor
  · rintro ⟨depth, h⟩
    cases depth with
    | zero => cases h
    | succ depth => exact ⟨depth, (congrFun (run_ask depth c) m).symm.trans h⟩
  · rintro ⟨depth, h⟩
    exact ⟨depth + 1, (congrFun (run_ask depth c) m).trans h⟩

theorem ComesTo.within {p : Program N σ α} {a : α}
    (h : ComesTo g p m a n) : m.shared.tokens.Within n.shared.tokens := by
  obtain ⟨d, hd⟩ := h
  exact ((grows_run g d p m).ok hd).tokens

end Engine

end Packrat
