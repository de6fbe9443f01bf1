import Packrat.Proofs.Work

/-! The active skipper is one of the grammar. It is written when a skipper is made the active one,
when a state or the skipper before is put back, and when a session or a parser begins; and the states
that programs put back are those that they were given. -/

namespace Packrat
set_option autoImplicit false

/-- There is no skipper, or one that the grammar has, with a name. -/
def Setting.Registered {N σ : Type} (g : Setting N σ) (skipper? : Option String) : Prop :=
  ∀ id, skipper? = some id → id ≠ "" ∧ g.grammar.skippers.contains id

/-- The skippers of the states that nodes and the outside state keep. -/
structure Keeping (N σ : Type) where
  node : N → Option String → Prop
  outside : σ → Option String → Prop

namespace Keeping
variable {N σ : Type} (keeping : Keeping N σ) (known : Option String → Prop)

/-- All skippers that are told of are known. -/
def lore : Lore N σ where
  node a := ∀ skipper?, keeping.node a skipper? → known skipper?
  outside s := ∀ skipper?, keeping.outside s skipper? → known skipper?
  skipper := known

/-- The call puts no state back but one with a known skipper, and has no other kept. -/
def Recalls : Call σ → Prop
  | .restore s => known s.skipper?
  | .consult f => ∀ s, (keeping.lore known).outside s → (keeping.lore known).outside (f s)
  | _ => True

end Keeping

/-- No rule or skipper makes up a state, and no new node keeps one: whatever is true of all skippers
that programs are told of is true of those in the states that they put back. -/
structure Setting.Recalls {N σ : Type} (g : Setting N σ) (keeping : Keeping N σ) : Prop where
  grammar : ∀ known, g.grammar.All
    (Program.Abides (keeping.Recalls known) (keeping.lore known).Tells
      (Yields (keeping.lore known).node))
    (Program.Abides (keeping.Recalls known) (keeping.lore known).Tells fun _ => True)
  make : ∀ kind p skipper?, ¬keeping.node (g.make kind p) skipper?

/-- Nor do the programs that are run from outside. -/
def Work.Recalls {N σ : Type} (work : Work N σ) (keeping : Keeping N σ) : Prop :=
  ∀ known, work.Abides (keeping.Recalls known) (keeping.lore known).Tells

namespace Engine
open Packrat.Action Machine Program
variable {N σ : Type} {g : Setting N σ} {keeping : Keeping N σ}

def registered (hg : g.Recalls keeping) : Common g where
  shared s := (keeping.lore g.Registered).outside s.outside
  may := keeping.Recalls g.Registered
  lore := keeping.lore g.Registered
  basic := by
    intro c hc
    cases c <;> trivial
  grammar := hg.grammar g.Registered
  make kind p skipper? h := absurd h (hg.make kind p skipper?)
  inactive := by
    intro id h
    cases h
  install := by
    intro id hid hs
    rintro _ ⟨⟩
    exact ⟨hid, hs⟩
  restore hs := hs
  outside hs := hs
  emit hs _ := hs
  load hs := hs
  register _ hs _ := hs
  consult hs hf := hf _ hs

theorem not_raises_skip {m n : Machine σ} {e : Error} (hm : g.Registered m.parser.skipper?) :
    ¬Raises g (.skip none) m e n := by
  intro h
  cases h with
  | skip hid hs =>
    obtain ⟨-, hc⟩ := hm _ hid
    obtain ⟨skipper, hskipper⟩ := contains_iff_exists_skipper.1 hc
    cases hs.symm.trans hskipper

/-- Where no state is made up, the skipper of each parser is one of the grammar at any time: at each
call that is made, at any depth and for any parser, behind its answer, and when work is done, after
errors and halts too. So is the one of a state to be put back, and the one that was active before;
and to skip under the active skipper never raises that there is no such skipper. -/
theorem active_skipper_is_registered (hg : g.Recalls keeping) {work : Work N σ}
    (hwork : work.Recalls keeping) {outside : σ}
    (houtside : ∀ skipper?, ¬keeping.outside outside skipper?) (directory : String) (depth : Nat) :
    (∀ p ∈ (work.run g depth (.new directory outside)).parsers, g.Registered p.skipper?) ∧
    ∀ s, work.Meets g depth (.new directory outside) s →
      g.Registered s.machine.parser.skipper? ∧
      (∀ state, s.call = .restore state → g.Registered state.skipper?) ∧
      (∀ e n, ¬Raises g (.skip none) s.machine e n) ∧
      (∀ id? previous? n, setSkipper g (run g s.levels) id? s.machine = .ok (.ok previous?) n →
        g.Registered previous?) ∧
      ∀ a n, reply g (run g s.levels) s.call s.machine = .ok a n → g.Registered n.parser.skipper? := by
  let S := (registered hg).standing
  have hnew : (Workspace.new directory outside).Keeps (registered hg) := by
    constructor
    · intro p hp
      obtain rfl := List.mem_singleton.1 hp
      exact (registered hg).inactive
    · intro skipper? h
      exact absurd h (houtside skipper?)
  have hwork := hwork g.Registered
  refine ⟨(Work.keeps_run depth hwork hnew).parsers, ?_⟩
  intro s hs
  obtain ⟨hcall, hm⟩ := Work.holds_of_meets hs hwork hnew
  have hrun : S.Sustains (run g s.levels) := S.sustains_run s.levels
  refine ⟨hm.1, ?_, fun _ _ => not_raises_skip hm.1, ?_, ?_⟩
  · intro state h
    rw [h] at hcall
    exact hcall
  · intro id? previous? n hx
    obtain ⟨hprevious, -⟩ := (S.ends_setSkipper hrun hm id?).ok hx
    rw [yields_ok_iff.1 hprevious]
    exact hm.1
  · intro a n hx
    obtain ⟨-, hn⟩ := (S.ends_reply hrun hm hcall).ok hx
    exact hn.1

/-- Keeps the state of the parser for later. -/
def saveState : Program Unit (List Snapshot) (Except Error Unit) := do
  let s ← snapshot
  let _ ← ask (.consult (s :: ·))
  return .ok ()

/-- Puts back the last state that was kept. -/
def loadState : Program Unit (List Snapshot) (Except Error Unit) := do
  match ← ask (.consult id) with
  | [] => return .error backtrack
  | s :: _ =>
    ask (.restore s)
    return .ok ()

def savingSetting : Setting Unit (List Snapshot) where
  grammar := ((Grammar.empty.skipper "blank" (.done (.ok false))).rule "save"
    fun _ => saveState).rule "load" fun _ => loadState
  make _ _ := ()
  disk := .empty
  memoizes := true

def savedStates : Keeping Unit (List Snapshot) where
  node _ _ := False
  outside states skipper? := ∃ s ∈ states, s.skipper? = skipper?

theorem recalls_saving : savingSetting.Recalls savedStates where
  grammar := by
    intro known
    apply Grammar.All.insert_rule
    · apply Grammar.All.insert_rule
      · exact .insert_skipper .empty trivial
      · intro params
        refine ⟨trivial, fun place _ => ⟨trivial, fun skipper? hskipper => ⟨?_, ?_⟩⟩⟩
        · rintro states hstates _ ⟨s, hs, rfl⟩
          rcases List.mem_cons.1 hs with rfl | hs
          · exact hskipper
          · exact hstates _ ⟨s, hs, rfl⟩
        · intro _ _
          exact yields_ok_iff.2 fun _ h => h.elim
    · intro params
      refine ⟨fun _ h => h, ?_⟩
      intro states hstates
      cases states with
      | nil => exact yields_error _
      | cons s states =>
        refine ⟨hstates _ ⟨s, List.mem_cons_self, rfl⟩, ?_⟩
        intro _ _
        exact yields_ok_iff.2 fun _ h => h.elim
  make _ _ _ := id

/-- A parser gets the state of another one. -/
def handOver : Work Unit (List Snapshot) :=
  .act (ask (.setSkipper (some "blank"))) fun _ => .act (matchRule ⟨"save", none⟩) fun _ =>
    .newParser "" (.act (matchRule ⟨"load", none⟩) fun _ => .rest)

theorem recalls_handOver : handOver.Recalls savedStates := by
  intro known
  have hrule (id : String) : (matchRule ⟨id, none⟩).Abides (savedStates.Recalls known)
      (savedStates.lore known).Tells fun _ => True := ⟨trivial, fun _ _ => trivial⟩
  exact ⟨fun _ => True, ⟨trivial, fun _ _ => trivial⟩, fun _ _ =>
    ⟨_, hrule "save", fun _ _ => ⟨_, hrule "load", fun _ _ => trivial⟩⟩⟩

theorem active_skipper_is_registered_handOver :
    ((handOver.run savingSetting 3 (.new "" [])).parsers.map Parser.skipper?) =
        [some "blank", some "blank"] ∧
      ∀ p ∈ (handOver.run savingSetting 3 (.new "" [])).parsers,
        savingSetting.Registered p.skipper? := by
  constructor
  · decide +kernel
  · refine (active_skipper_is_registered recalls_saving recalls_handOver ?_ "" 3).1
    rintro skipper? ⟨s, hs, -⟩
    cases hs

end Engine

end Packrat
