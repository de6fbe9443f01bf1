import Packrat.Proofs.Common

/-! What is done to the parsers of a grammar from outside: programs are run on one of them after the
other, whatever they end with, and further parsers are made. What is done next may depend on all that
programs have given before. -/

namespace Packrat
set_option autoImplicit false

inductive Work (N σ : Type) : Type 1 where
  | rest
  /-- Runs a program on the current parser. -/
  | act {α : Type} (p : Program N σ α) (next : Except Halt α → Work N σ)
  | newParser (directory : String) (next : Work N σ)
  | subparser (next : Work N σ)
  | use (i : Nat) (next : Work N σ)

namespace Work
open Packrat.Engine
variable {N σ : Type}

def run (g : Setting N σ) (depth : Nat) : Work N σ → Workspace σ → Workspace σ
  | .rest, w => w
  | .act p next, w =>
    (next (w.act (Engine.run g depth _ p)).1).run g depth (w.act (Engine.run g depth _ p)).2
  | .newParser directory next, w => next.run g depth (w.addBy (Engine.newParser directory))
  | .subparser next, w => next.run g depth (w.addBy Engine.subparser)
  | .use i next, w => next.run g depth (w.use i)

/-- As long as replies are as `told` says, the calls of all programs are as `may` says. -/
def Abides (may : Call σ → Prop) (told : (c : Call σ) → c.Reply N → Prop) : Work N σ → Prop
  | .rest => True
  | .act (α := α) p next => ∃ gives : α → Prop, p.Abides may told gives ∧
      ∀ outcome, (∀ a, outcome = .ok a → gives a) → (next outcome).Abides may told
  | .newParser _ next | .subparser next | .use _ next => next.Abides may told

/-- The work comes to the site, in a session of any parser. -/
inductive Meets (g : Setting N σ) (depth : Nat) : Work N σ → Workspace σ → Site σ → Prop where
  | here {α : Type} {p : Program N σ α} {next : Except Halt α → Work N σ} {w : Workspace σ}
    {s : Site σ} (hs : Reaches g depth p w.machine s) : Meets g depth (.act p next) w s
  | later {α : Type} {p : Program N σ α} {next : Except Halt α → Work N σ} {w : Workspace σ}
    {s : Site σ} (hs : Meets g depth (next (w.act (Engine.run g depth _ p)).1)
      (w.act (Engine.run g depth _ p)).2 s) : Meets g depth (.act p next) w s
  | newParser {directory : String} {next : Work N σ} {w : Workspace σ} {s : Site σ}
    (hs : Meets g depth next (w.addBy (Engine.newParser directory)) s) :
    Meets g depth (.newParser directory next) w s
  | subparser {next : Work N σ} {w : Workspace σ} {s : Site σ}
    (hs : Meets g depth next (w.addBy Engine.subparser) s) : Meets g depth (.subparser next) w s
  | use {i : Nat} {next : Work N σ} {w : Workspace σ} {s : Site σ}
    (hs : Meets g depth next (w.use i) s) : Meets g depth (.use i next) w s

variable {g : Setting N σ} {C : Common g} {w : Workspace σ}

theorem keeps_act {α : Type} {p : Program N σ α} {gives : α → Prop} (depth : Nat)
    (hp : p.Abides C.may C.lore.Tells gives) (h : w.Keeps C) :
    (∀ a, (w.act (Engine.run g depth _ p)).1 = .ok a → gives a) ∧
      (w.act (Engine.run g depth _ p)).2.Keeps C :=
  h.act (C.standing.sustains_run depth hp h.holds)

theorem keeps_run {work : Work N σ} (depth : Nat) (hwork : work.Abides C.may C.lore.Tells)
    (h : w.Keeps C) : (work.run g depth w).Keeps C := by
  induction work generalizing w with
  | rest => exact h
  | act p next ih =>
    obtain ⟨gives, hp, hnext⟩ := hwork
    obtain ⟨ha, h⟩ := keeps_act depth hp h
    exact ih _ (hnext _ ha) h
  | newParser directory next ih => exact ih hwork (h.newParser directory)
  | subparser next ih => exact ih hwork h.subparser
  | use i next ih => exact ih hwork (h.use i)

theorem holds_of_meets {work : Work N σ} {depth : Nat} {s : Site σ}
    (hs : work.Meets g depth w s) (hwork : work.Abides C.may C.lore.Tells) (h : w.Keeps C) :
    C.may s.call ∧ C.holds s.machine := by
  induction hs with
  | here hs =>
    obtain ⟨gives, hp, -⟩ := hwork
    exact C.holds_of_reaches hs ⟨gives, hp⟩ h.holds
  | later _ ih =>
    obtain ⟨gives, hp, hnext⟩ := hwork
    obtain ⟨ha, h⟩ := keeps_act depth hp h
    exact ih (hnext _ ha) h
  | newParser _ ih => exact ih hwork (h.newParser _)
  | subparser _ ih => exact ih hwork h.subparser
  | use _ ih => exact ih hwork (h.use _)

theorem abides_of_always {may : Call σ → Prop} {told : (c : Call σ) → c.Reply N → Prop}
    (hmay : ∀ c, may c) (work : Work N σ) : work.Abides may told := by
  induction work with
  | rest => trivial
  | act p next ih =>
    refine ⟨fun _ => True, .of_always hmay (fun _ => trivial) p, ?_⟩
    intro outcome _
    exact ih outcome
  | newParser _ next ih => exact ih
  | subparser next ih => exact ih
  | use _ next ih => exact ih

end Work

end Packrat
