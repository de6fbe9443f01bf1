import Packrat.Proofs.Lockstep
import Packrat.Workspace

/-! A parse of a text comes to the same whatever its parser and the others of its grammar did before.
Of all that they did only the serials of sources and the tokens in use remain, and nothing depends
on these. -/

namespace Packrat
set_option autoImplicit false

/-- Serials from `b` on stand for those from `a` on. -/
def Serials.shift (a b : Nat) : Serials := fun s s' => ∃ i, s = a + i ∧ s' = b + i

theorem Serials.paired_shift (a b : Nat) : (shift a b).Paired where
  biunique := by
    constructor
    · rintro s t u ⟨i, hs, hu⟩ ⟨j, ht, hu'⟩
      omega
    · rintro s t u ⟨i, hs, ht⟩ ⟨j, hs', hu⟩
      omega
  succ := by
    rintro s t ⟨i, rfl, rfl⟩
    exact ⟨i + 1, rfl, rfl⟩

namespace Workspace
variable {N σ α : Type}

/-- The workspace has come about by calls to its parsers, with rules run to an end or not. -/
inductive Reached (g : Setting N σ) : Workspace σ → Prop where
  | new (directory : String) (outside : σ) : Reached g (.new directory outside)
  | act {w : Workspace σ} {α : Type} {p : Program N σ α} (depth : Nat)
    (hp : p.Only Call.Plain) (h : Reached g w) : Reached g (w.act (Engine.run g depth α p)).2
  | newParser {w : Workspace σ} (directory : String) (h : Reached g w) :
    Reached g (w.addBy (Engine.newParser directory))
  | subparser {w : Workspace σ} (h : Reached g w) : Reached g (w.addBy Engine.subparser)
  | use {w : Workspace σ} (i : Nat) (h : Reached g w) : Reached g (w.use i)
  | forgetEvents {w : Workspace σ} (h : Reached g w) : Reached g w.forgetEvents

variable {w : Workspace σ} {x : Action σ α} {Q : Shared σ → Prop}

theorem shared_act (h : x.Ends w.machine (fun _ n => Q n.shared) fun _ n => Q n.shared) :
    Q (w.act x).2.shared := by
  unfold act
  cases hx : x.run w.machine with
  | ok a n => exact h.ok hx
  | error why n => exact h.error hx

theorem shared_addBy {x : Action σ Parser}
    (h : x.Ends w.machine (fun _ n => Q n.shared) fun _ n => Q n.shared) :
    Q (w.addBy x).shared := by
  have hact := shared_act h
  unfold addBy
  generalize w.act x = r at hact
  obtain ⟨p | why, w'⟩ := r
  · exact hact
  · exact hact

end Workspace

namespace Engine
open Packrat.Action Machine Program
variable {N σ α : Type} {g : Setting N σ}

/-- Tokens stand for themselves as long as they are registered so. -/
def plainness (g : Setting N σ) : Upkeep g Call.Plain fun _ _ => True where
  keeps m n := m.shared.tokens.Plain → n.shared.tokens.Plain
  basic := plain_basic
  refl _ := id
  trans h h' := h' ∘ h
  emit _ _ _ := id
  count _ _ := id
  install _ _ := id
  register m id literal h := by
    obtain rfl : id = literal := h.elim (fun h => h) fun h => h
    intro hplain
    exact hplain.add id
  consult _ _ := id
  reads _ := id
  moveTo _ := id
  restore _ := id
  hit _ := id
  session _ _ _ _ := id
  sub _ := id
  back h := h
  putsBack := by
    intro c m l n why depth _ hl hback hm
    cases hback with
    | @test _ outcome =>
      cases verdict outcome <;> exact hl hm
    | _ => exact hl hm

theorem plain_run (hg : g.grammar.All (Only Call.Plain) (Only Call.Plain)) (depth : Nat)
    {p : Program N σ α} (hp : p.Only Call.Plain) {m : Machine σ} (hm : m.shared.tokens.Plain) :
    Ends (run g depth α p) m (fun _ n => n.shared.tokens.Plain) fun _ n => n.shared.tokens.Plain := by
  have hwatch : Throughout g (fun _ _ => True) depth p m := by
    intro why
    rw [runWhile_of_always why fun _ _ => trivial]
  have hends := (throughout_of_upkeep (plainness g) hg (R := fun _ _ => True)
    (fun _ _ _ _ => trivial) hp hwatch).2
  apply hends.imp
  · intro a n hn
    exact hn hm
  · intro why n hn
    exact hn hm

theorem plain_empty : Tokens.empty.Plain := by
  intro id text h
  cases (Tokens.literal?_empty id).symm.trans h

theorem plain_of_reached (hg : g.grammar.All (Only Call.Plain) (Only Call.Plain))
    {w : Workspace σ} (hw : w.Reached g) : w.shared.tokens.Plain := by
  induction hw with
  | new directory outside => exact plain_empty
  | act depth hp h ih =>
    exact Workspace.shared_act (Q := fun s => s.tokens.Plain) (plain_run hg depth hp ih)
  | newParser directory h ih =>
    exact Workspace.shared_addBy (Q := fun s => s.tokens.Plain) ih
  | subparser h ih => exact Workspace.shared_addBy (Q := fun s => s.tokens.Plain) ih
  | @use w i h ih =>
    unfold Workspace.use
    split
    · exact ih
    · exact ih
  | forgetEvents h ih => exact ih

/-- A parser with any history, whose grammar has any number of tokens in use, parses a text as a new
one in the same directory does: both come to the same node or the same error, with the same place,
skipper, memo and counts behind, or both halt in the same way. -/
theorem history_independence {like : Serials → N → N → Prop} (hg : g.Oblivious like)
    (hplain : g.grammar.All (Only Call.Plain) (Only Call.Plain)) {w : Workspace σ}
    (hw : w.Reached g) (outside : σ) (depth : Nat) (name content rule : String) :
    InStep (.shift w.shared.nextSerial 1)
      (Outcome.Alike (.shift w.shared.nextSerial 1) (like (.shift w.shared.nextSerial 1)))
      (run g (depth + 1) _ (parseText name content rule))
      (run g (depth + 1) _ (parseText name content rule)) w.machine
      (Workspace.new w.parser.directory outside).machine := by
  have hρ := Serials.paired_shift w.shared.nextSerial 1
  have R := runsInStep_run hρ hplain (hg.grammar _ hρ.biunique) (hg.make _ hρ.biunique) (depth + 1)
  have hnew : (w.machine.session name none content.toList).Alike (.shift w.shared.nextSerial 1)
      ((Workspace.new w.parser.directory outside).machine.session name none content.toList) := by
    apply alike_session hρ
    · rfl
    · exact ⟨0, rfl, rfl⟩
    · exact plain_of_reached hplain hw
    · exact plain_empty
  exact .pre rfl rfl (R.steps (alike_start rule) ⟨trivial, fun _ _ => trivial⟩ hnew)

/-- A word, or another if there are blanks before it. -/
def wordHere : Rule Node Unit := fun _ => do
  let start ← ask .position
  let _ ← ask (.skip (some "whitespace"))
  let here ← ask .position
  if start == here then matchAny ["ab", "cd"] else matchAny ["cd", "ab"]

def wordHereSetting : Setting Node Unit where
  grammar := Grammar.withStock.rule "word" wordHere
  make := Node.leaf
  disk := .empty
  memoizes := true

theorem oblivious_wordHere : wordHereSetting.Oblivious fun ρ => Node.Alike ρ where
  grammar := by
    intro ρ hρ
    refine .insert_rule (.withStock alike_skipRegex) ?_
    intro params
    refine .call trivial ?_
    intro start start' hstart
    refine .call trivial ?_
    intro _ _ _
    refine .call trivial ?_
    intro here here' hhere
    simp only [Program.bind, Position.Alike.beq_eq hρ hstart hhere]
    split
    · exact alike_matchFirst _ _
    · exact alike_matchFirst _ _
  make := by
    intro ρ hρ kind p p' hp
    exact Node.alike_leaf kind hp

theorem plain_matchFirst (all ids : List String) :
    (matchFirst all ids : Program N σ (Except Error N)).Only Call.Plain := by
  induction ids with
  | nil => exact ⟨trivial, fun _ _ => trivial⟩
  | cons id ids ih =>
    refine ⟨trivial, ?_⟩
    intro outcome _
    match outcome with
    | .error e => trivial
    | .ok true => exact ⟨trivial, fun _ _ => trivial⟩
    | .ok false => exact ih

theorem plain_wordHere :
    wordHereSetting.grammar.All (Only Call.Plain) (Only Call.Plain) := by
  apply Grammar.All.insert_rule
  · apply Grammar.All.withStock
    intro r
    refine ⟨trivial, ?_⟩
    intro text? _
    cases text? <;> trivial
  · intro params
    refine ⟨trivial, fun start _ => ⟨trivial, fun _ _ => ⟨trivial, fun here _ => ?_⟩⟩⟩
    simp only [Program.bind]
    split
    · exact plain_matchFirst _ _
    · exact plain_matchFirst _ _

/-- A parser that has parsed another text, for which two tokens came into use. -/
def usedWorkspace : Workspace Unit :=
  ((Workspace.new "" ()).act (run wordHereSetting 4 _ (parseText "old" " ab" "word"))).2

theorem history_independence_wordHere :
    usedWorkspace.shared.tokens.literal? "cd" = some "cd" ∧
    InStep (.shift usedWorkspace.shared.nextSerial 1)
      (Outcome.Alike (.shift usedWorkspace.shared.nextSerial 1)
        (Node.Alike (.shift usedWorkspace.shared.nextSerial 1)))
      (run wordHereSetting 4 _ (parseText "new" "cd" "word"))
      (run wordHereSetting 4 _ (parseText "new" "cd" "word")) usedWorkspace.machine
      (Workspace.new usedWorkspace.parser.directory ()).machine := by
  have hreached : usedWorkspace.Reached wordHereSetting :=
    .act 4 (only_parseText plain_basic "old" " ab" "word") (.new "" ())
  constructor
  · decide +kernel
  · exact history_independence oblivious_wordHere plain_wordHere hreached () 3 "new" "cd" "word"

end Engine

end Packrat
