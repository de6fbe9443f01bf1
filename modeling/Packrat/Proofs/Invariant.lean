import Packrat.Proofs.Upkeep

/-! Two runs of one program, watched or not, are the same to the end as long as they differ in
nothing that is reached. An invariant tells what is reached: it is a condition on machines that
comes with a law for each step of the engine. -/

namespace Packrat
set_option autoImplicit false

open Packrat.Action

/-- The ends of runs that are looked at. If an end is, so are the machines on the way to it, whose
logs it continues. -/
structure Scope (σ : Type) where
  answers : Machine σ → Prop
  halts : Halt → Machine σ → Prop
  of_log : ∀ {m n}, m.shared.events <:+ n.shared.events → answers n → answers m
  of_halts : ∀ {why n}, halts why n → answers n

def Scope.Counts {σ α : Type} (s : Scope σ) : EStateM.Result Halt (Machine σ) α → Prop
  | .ok _ n => s.answers n
  | .error why n => s.halts why n

namespace Scope
variable {σ α β : Type} {s : Scope σ} {x y : Action σ α} {m n : Machine σ} {a : α} {why : Halt}
variable {Q Q' : α → Machine σ → Prop} {F : Halt → Machine σ → Prop}

/-- The end of `x` is the end of `y`, an answer as `Q` says or a halt as `F` says. -/
def Agrees (s : Scope σ) (x y : Action σ α) (m : Machine σ) (Q : α → Machine σ → Prop)
    (F : Halt → Machine σ → Prop) : Prop :=
  Ends x m (fun a n => s.answers n → y m = .ok a n ∧ Q a n)
    fun why n => s.halts why n → y m = .error why n ∧ F why n

theorem Agrees.imp (h : s.Agrees x y m Q F) (hQ : ∀ a n, Q a n → Q' a n) :
    s.Agrees x y m Q' F := by
  apply Ends.imp_ok h
  intro a n hn hcounts
  obtain ⟨hy, ha⟩ := hn hcounts
  exact ⟨hy, hQ a n ha⟩

theorem Agrees.eqn (h : s.Agrees x y m Q F) :
    s.Agrees x y m (fun a n => Q a n ∧ x m = .ok a n) F := by
  apply ends_iff.2
  constructor
  · intro a n hx hcounts
    obtain ⟨hy, ha⟩ := h.ok hx hcounts
    exact ⟨hy, ha, hx⟩
  · intro why n hx
    exact h.error hx

/-- An action that runs no program agrees with itself. -/
theorem Agrees.self (h : Ends x m Q F) : s.Agrees x x m Q F := by
  apply ends_iff.2
  constructor
  · intro a n hx _
    exact ⟨hx, h.ok hx⟩
  · intro why n hx _
    exact ⟨hx, h.error hx⟩

/-- Both go on in the same way. -/
theorem Agrees.bind {f f' : α → Action σ β} {R : β → Machine σ → Prop} (h : s.Agrees x y m Q F)
    (hlog : ∀ a n, Ends (f a) n (fun _ k => n.Grows k) fun _ k => n.Grows k)
    (hf : ∀ a n, Q a n → s.Agrees (f a) (f' a) n R F) :
    s.Agrees (x >>= f) (y >>= f') m R F := by
  apply ends_bind.2
  apply ends_iff.2
  constructor
  · intro a n hx
    have hgrows := hlog a n
    apply ends_iff.2
    constructor
    · intro b k hk hcounts
      obtain ⟨hy, hQ⟩ := h.ok hx (s.of_log (hgrows.ok hk).events hcounts)
      rw [bind_eq_of_ok hy]
      exact (hf a n hQ).ok hk hcounts
    · intro why k hk hcounts
      obtain ⟨hy, hQ⟩ := h.ok hx (s.of_log (hgrows.error hk).events (s.of_halts hcounts))
      rw [bind_eq_of_ok hy]
      exact (hf a n hQ).error hk hcounts
  · intro why n hx hcounts
    obtain ⟨hy, hF⟩ := h.error hx hcounts
    exact ⟨bind_eq_of_error hy, hF⟩

/-- Both begin with the same step. -/
theorem Agrees.pre {z : Action σ α} {f f' : α → Action σ β} {R : β → Machine σ → Prop}
    (hz : z m = .ok a n) (h : s.Agrees (f a) (f' a) n R F) :
    s.Agrees (z >>= f) (z >>= f') m R F := by
  unfold Agrees Ends at h ⊢
  rw [bind_eq_of_ok hz, bind_eq_of_ok hz]
  exact h

/-- Both finish with the same steps. -/
theorem Agrees.post {f : α → Action σ β} {R : β → Machine σ → Prop} (h : s.Agrees x y m Q F)
    (hf : ∀ a n, Ends (f a) n
      (fun b k => n.shared.events <:+ k.shared.events ∧ (Q a n → R b k)) fun _ _ => False) :
    s.Agrees (x >>= f) (y >>= f) m R F := by
  apply ends_bind.2
  apply ends_iff.2
  constructor
  · intro a n hx
    apply ends_iff.2
    constructor
    · intro b k hk hcounts
      obtain ⟨hlog, hR⟩ := (hf a n).ok hk
      obtain ⟨hy, hQ⟩ := h.ok hx (s.of_log hlog hcounts)
      rw [bind_eq_of_ok hy]
      exact ⟨hk, hR hQ⟩
    · intro why k hk
      exact ((hf a n).error hk).elim
  · intro why n hx hcounts
    obtain ⟨hy, hF⟩ := h.error hx hcounts
    exact ⟨bind_eq_of_error hy, hF⟩

/-- The ends whose logs are the beginning of a log, but for one halt. -/
def upTo (log : List Event) (but : Halt) : Scope σ where
  answers n := n.shared.events <:+ log
  halts why n := n.shared.events <:+ log ∧ why ≠ but
  of_log h h' := h.trans h'
  of_halts h := h.1

def deepEnough : Scope σ where
  answers _ := True
  halts why _ := why ≠ .tooDeep
  of_log _ _ := trivial
  of_halts _ := trivial

end Scope

namespace Machine
variable {σ : Type}

def withOutside (m : Machine σ) (outside : σ) : Machine σ :=
  m.withShared { m.shared with outside }

def withTokens (m : Machine σ) (tokens : Tokens) : Machine σ :=
  m.withShared { m.shared with tokens }

end Machine

/-- A condition on machines that every step keeps, if calls meet `P` and name known positions
only. -/
structure Invariant {N σ : Type} (g : Setting N σ) (view : View N σ)
    (P : Call σ → Machine σ → Prop) where
  known : Position → Prop
  holds : Machine σ → Prop
  faults : Halt → Machine σ → Prop
  respects : g.Respects view known
  knows : ∀ {m}, holds m → known m.position
  outside : ∀ {m}, holds m → view.Outside known m.shared.outside
  parser : ∀ {m p}, holds m → p.cursor = m.parser.cursor → p.memo = m.parser.memo →
    holds (m.withParser p)
  emit : ∀ {m e}, holds m → e.testSource? = none → holds (m.emit e)
  tokens : ∀ {m} t, holds m → holds (m.withTokens t)
  consult : ∀ {m s}, holds m → view.Outside known s → holds (m.withOutside s)
  reads : ∀ {m d}, holds m → m.parser.cursor.Reads d → holds (m.withCursor d)
  moves : ∀ {m p}, holds m → known p →
    (P (.moveTo p) m ∨ ∃ skipper?, P (.restore ⟨p, skipper?⟩) m) →
    holds (m.withCursor (m.parser.cursor.moveTo p))
  hit : ∀ {m rule matched}, holds m → g.recall? m rule = some matched →
    holds (m.emit (.tested true rule m.position matched))
  putsBack : ∀ {c m l n why depth}, holds m → holds l → P c m →
    Engine.PutsBack g (Engine.runWhile g P why depth) c m l n → holds n
  read : ∀ {m path text} name path?, holds m → g.disk.read path = .ok text →
    holds (m.session name path? text)
  readText : ∀ {m name content}, holds m → P (.readText name content) m →
    holds (m.session name none content.toList)
  sub : ∀ {m}, holds m → holds m.sub
  back : ∀ {m n}, holds m → holds n → m.sub.Grows n → holds (n.withParser m.parser)
  reading : ∀ {m why} {c : Call σ} {u : Cursor → Except Fault (c.Reply N × Cursor)}, holds m →
    P c m → c.reading? = some u → u m.parser.cursor = .error why → faults (.fault why) m
  halt : ∀ {m why}, holds m → P (.halt why) m → faults (.fault why) m
  tooDeep : ∀ {m}, holds m → faults .tooDeep m

namespace Invariant
variable {N σ : Type} {g : Setting N σ} {view : View N σ} {P : Call σ → Machine σ → Prop}
variable (I : Invariant g view P) {m n : Machine σ}

theorem count (h : I.holds m) (f : Stats → Stats) : I.holds (m.count f) := I.parser h rfl rfl

theorem withSkipper (h : I.holds m) (skipper? : Option String) : I.holds (m.withSkipper skipper?) :=
  I.parser h rfl rfl

theorem register (h : I.holds m) (id literal : String) : I.holds (m.register id literal) :=
  I.tokens _ (I.emit h rfl)

theorem ends_addToken (h : I.holds m) (id literal : String) :
    Ends (Engine.addToken id literal) m (fun _ n => I.holds n) I.faults := by
  rw [Engine.ends_addToken]
  split
  · exact h
  · exact I.register h id literal

theorem ends_resolve (h : I.holds m) (id : String) :
    Ends (Engine.resolve g id) m (fun _ n => I.holds n) I.faults := by
  rw [Engine.ends_resolve]
  split
  · exact h
  · exact I.ends_addToken h id id

end Invariant

end Packrat
