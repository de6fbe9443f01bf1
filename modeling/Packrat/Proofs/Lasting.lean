import Packrat.Proofs.History
import Packrat.Proofs.Work

/-! Conditions on what parsers share that nothing undoes, whatever is called. Where such a condition
holds at some call of a run, it holds from there on: behind the call, behind the run, and when all work
is done. -/

namespace Packrat
set_option autoImplicit false

structure Lasts {σ : Type} (Q : Shared σ → Prop) : Prop where
  emit : ∀ {s e}, Q s → e.registration? = none → Q { s with events := e :: s.events }
  load : ∀ {s}, Q s → Q { s with nextSerial := s.nextSerial + 1 }
  register : ∀ {s id} literal, Q s → s.tokens.literal? id = none →
    Q { s with events := .registered id literal :: s.events, tokens := s.tokens.add id literal }
  consult : ∀ {s} outside, Q s → Q { s with outside }

/-- However `x` ends from `m`, what parsers share is then as `Q` says. -/
def Action.EndsSharing {σ α : Type} (x : Action σ α) (m : Machine σ) (Q : Shared σ → Prop) : Prop :=
  x.Ends m (fun _ n => Q n.shared) fun _ n => Q n.shared

namespace Action.EndsSharing
open Engine
variable {N σ : Type} {g : Setting N σ} {Q : Shared σ → Prop} {run : Runner N σ}
variable {skipper : Skipper N σ} {id : String} {m : Machine σ}

theorem skip {id? : Option String} (h : EndsSharing (run _ skipper) m Q)
    (hid : id?.or m.parser.skipper? = some id) (hs : g.grammar.skippers[id]? = some skipper) :
    EndsSharing (skip g run id?) m Q := by
  apply (ends_skip_of_skipper hid hs).2
  apply h.imp_ok
  intro outcome n hn
  cases outcome with
  | ok skipped => exact hn
  | error e =>
    dsimp only
    split <;> exact hn

theorem setSkipper (h : EndsSharing (run _ skipper) (m.installing id) Q) (hid : id ≠ "")
    (hs : g.grammar.skippers[id]? = some skipper) :
    EndsSharing (setSkipper g run (some id)) m Q := by
  have hcontains : g.grammar.skippers.contains id := contains_iff_exists_skipper.2 ⟨skipper, hs⟩
  apply (ends_setSkipper hid).2
  rw [if_pos hcontains]
  apply (h.skip rfl hs).imp_ok
  intro outcome n hn
  cases outcome <;> exact hn

end Action.EndsSharing

namespace Lasts
open Packrat.Action Engine
variable {N σ α : Type} {g : Setting N σ} {Q : Shared σ → Prop} {depth i : Nat}
variable {m n : Machine σ}

/-- As terms for all parsers, which hold of any program. -/
def common (h : Lasts Q) (g : Setting N σ) : Common g where
  shared := Q
  may _ := True
  lore := .blank
  basic _ _ := trivial
  grammar := by
    constructor
    · intro id rule params _
      exact .of_always (fun _ => trivial) (fun _ _ _ => trivial) _
    · intro id skipper _
      exact .of_always (fun _ => trivial) (fun _ => trivial) _
  make _ _ := trivial
  inactive := trivial
  install _ _ := trivial
  restore _ := trivial
  outside _ := trivial
  emit := h.emit
  load := h.load
  register := h.register
  consult hs _ := h.consult _ hs

def standing (h : Lasts Q) (g : Setting N σ) : Standing g := (h.common g).standing

theorem sustains_run (h : Lasts Q) (depth : Nat) : (h.standing g).Sustains (run g depth) :=
  (h.standing g).sustains_run depth

theorem holds (h : Lasts Q) (hm : Q m.shared) : (h.standing g).holds m := ⟨trivial, hm⟩

theorem ends_run (h : Lasts Q) (depth : Nat) (p : Program N σ α) (hm : Q m.shared) :
    EndsSharing (run g depth _ p) m Q := by
  have hp : p.Abides (h.standing g).may (h.standing g).lore.Tells fun _ => True :=
    .of_always (fun _ => trivial) (fun _ => trivial) p
  exact (h.sustains_run depth hp (h.holds hm)).imp (fun _ _ hn => hn.2.2) fun _ _ hn => hn.2

theorem ends_resolveAndInvoke (h : Lasts Q) (depth : Nat) (id : String) (params : Params)
    (hm : Q m.shared) : EndsSharing (resolveAndInvoke g (run g depth) id params) m Q :=
  ((h.standing g).ends_resolveAndInvoke (h.sustains_run depth) (h.holds hm) id params).imp
    (fun _ _ hn => hn.2.2) fun _ _ hn => hn.2

theorem ends_runAll (h : Lasts Q) (depth : Nat) (ids : List String) (hm : Q m.shared) :
    EndsSharing (runAll g (run g depth) ids) m Q :=
  ((h.standing g).ends_runAll (h.sustains_run depth) (h.holds hm) ids).imp
    (fun _ _ hn => hn.2) fun _ _ hn => hn.2

theorem ends_reply (h : Lasts Q) (depth : Nat) (c : Call σ) (hm : Q m.shared) :
    EndsSharing (reply g (run g depth) c) m Q :=
  ((h.standing g).ends_reply (h.sustains_run depth) (h.holds hm) (c := c) trivial).imp
    (fun _ _ hn => hn.2.2) fun _ _ hn => hn.2

/-- What holds behind a rule or skipper that a call has run holds behind the call. -/
theorem ends_of_enters (h : Lasts Q) {c : Call σ} {p : Program N σ (Except Error α)}
    (hc : Enters g depth c m p n)
    (hp : EndsSharing (run g depth _ p) n Q) :
    EndsSharing (reply g (run g depth) c) m Q := by
  cases hc with
  | invoke =>
    rw [reply_invoke]
    exact hp
  | matchWith href hr =>
    apply ends_matchWith.2
    rw [href]
    exact (ends_resolveAndInvoke_of_resolve hr).2 hp
  | @install ref params id skipper _ href hid hs =>
    apply ends_matchWith.2
    rw [href]
    apply (hp.setSkipper hid hs).imp_ok
    intro installed l hl
    cases installed with
    | ok previous? => exact h.ends_resolveAndInvoke depth ref.id params hl
    | error e => exact hl
  | installed href hset hr =>
    apply ends_matchWith.2
    rw [href]
    apply (ends_of_eq_ok hset).2
    exact (ends_resolveAndInvoke_of_resolve hr).2 hp
  | test hm hr =>
    apply (ends_test_of_miss hm).2
    apply (ends_resolveAndInvoke_of_resolve hr).2
    apply hp.imp_ok
    intro outcome l hl
    cases verdict outcome with
    | ok matched => exact h.emit hl rfl
    | error e => exact hl
  | testAll hbefore hr =>
    apply ends_testAll.2
    apply (ends_runAll_append hbefore).2
    apply ends_runAll_cons.2
    apply (ends_resolveAndInvoke_of_resolve hr).2
    apply hp.imp_ok
    intro outcome l hl
    cases outcome with
    | ok node => exact h.ends_runAll depth _ hl
    | error e => exact hl
  | skip hid hs => exact hp.skip hid hs
  | runSkipper hs =>
    apply ends_runSkipper.2
    rw [hs]
    exact hp
  | setSkipper hid hs => exact hp.setSkipper hid hs
  | start hr =>
    apply ends_start.2
    apply ends_matchWith.2
    apply (ends_resolveAndInvoke_of_resolve hr).2
    apply hp.imp_ok
    intro outcome l hl
    cases outcome <;> exact h.emit hl rfl

theorem ends_of_reply (h : Lasts Q) {c : Call σ} {next : c.Reply N → Program N σ α}
    (hc : EndsSharing (reply g (run g depth) c) m Q) :
    EndsSharing (run g (depth + 1) _ (.call c next)) m Q := by
  apply ends_bind.2
  apply hc.imp_ok
  intro a n hn
  exact h.ends_run (depth + 1) (next a) hn

/-- What holds behind the call of a site holds behind the run that meets it. -/
theorem ends_of_meets (h : Lasts Q) {p : Program N σ α} {s : Site σ} (hs : Meets g depth i p m s)
    (hsite : EndsSharing (reply g (run g s.levels) s.call) s.machine Q) :
    EndsSharing (run g depth _ p) m Q := by
  induction hs with
  | here => exact h.ends_of_reply hsite
  | inside hc _ ih => exact h.ends_of_reply (h.ends_of_enters hc (ih hsite))
  | later hc _ ih =>
    apply ends_bind.2
    exact (ends_of_eq_ok hc).2 (ih hsite)

theorem ends_of_below {c : Call σ} {q : Program N σ (Except Error N)}
    (hq : c.below? = some q)
    (hp : EndsSharing (run g depth _ q) m.sub Q) :
    EndsSharing (reply g (run g depth) c) m Q := by
  cases c <;> cases hq
  all_goals exact ends_below.2 hp

theorem ends_of_reaches (h : Lasts Q) {p : Program N σ α} {s : Site σ} (hs : Reaches g depth p m s)
    (hsite : EndsSharing (reply g (run g s.levels) s.call) s.machine Q) :
    EndsSharing (run g depth _ p) m Q := by
  induction hs with
  | met hs => exact h.ends_of_meets hs hsite
  | beneath hs hq _ ih => exact h.ends_of_meets hs (ends_of_below hq (ih hsite))

theorem of_reaches (h : Lasts Q) {p : Program N σ α} {s : Site σ} (hs : Reaches g depth p m s)
    (hm : Q m.shared) : Q s.machine.shared := by
  have hp : p.Abides (h.common g).may (h.common g).lore.Tells fun _ => True :=
    .of_always (fun _ => trivial) (fun _ => trivial) p
  exact ((h.common g).holds_of_reaches hs ⟨_, hp⟩ (h.holds hm)).2.2

theorem work_run (h : Lasts Q) {w : Workspace σ} (work : Work N σ) (depth : Nat) (hw : Q w.shared) :
    Q (work.run g depth w).shared := by
  have hkeeps : w.Keeps (h.common g) := ⟨fun _ _ => trivial, hw⟩
  exact (Work.keeps_run depth (work.abides_of_always fun _ => trivial) hkeeps).shared

theorem work_of_meets (h : Lasts Q) {w : Workspace σ} {work : Work N σ} {s : Site σ}
    (hs : work.Meets g depth w s)
    (hsite : EndsSharing (reply g (run g s.levels) s.call) s.machine Q) :
    Q (work.run g depth w).shared := by
  induction hs with
  | @here _ _ next _ _ hs =>
    exact h.work_run (next _) depth (Workspace.shared_act (h.ends_of_reaches hs hsite))
  | later _ ih => exact ih hsite
  | newParser _ ih => exact ih hsite
  | subparser _ ih => exact ih hsite
  | use _ ih => exact ih hsite

theorem of_work_meets (h : Lasts Q) {w : Workspace σ} {work : Work N σ} {s : Site σ}
    (hs : work.Meets g depth w s) (hw : Q w.shared) : Q s.machine.shared := by
  have hkeeps : w.Keeps (h.common g) := ⟨fun _ _ => trivial, hw⟩
  exact (Work.holds_of_meets hs (work.abides_of_always fun _ => trivial) hkeeps).2.2

end Lasts

end Packrat
