import Packrat.Proofs.Common

/-! Reading goes forward. The engine itself moves a cursor back behind a test and behind a skipper
that fails, but never to before the place where that call began. -/

namespace Packrat
set_option autoImplicit false

/-- The call goes to no place by its name and replaces no session. -/
def Call.Forward {σ : Type} (disk : Disk) : Call σ → Prop
  | .moveTo _ | .restore _ | .readText .. => False
  | .read file => ∀ directory text, disk.read (Path.join directory file) ≠ .ok text
  | _ => True

/-- The later cursor is in the same source, where the earlier one is or beyond it. -/
structure Cursor.Onward (c d : Cursor) : Prop where
  source : d.source = c.source
  offset : c.offset ≤ d.offset

namespace Cursor
variable {c d e : Cursor}

theorem Onward.refl (c : Cursor) : c.Onward c := ⟨rfl, Nat.le_refl _⟩

theorem Onward.trans (h : c.Onward d) (h' : d.Onward e) : c.Onward e where
  source := h'.source.trans h.source
  offset := Nat.le_trans h.offset h'.offset

theorem onward_past {ch : Char} (h : c.past ch = .ok d) : c.Onward d := by
  by_cases hc : ch = '\n'
  · subst hc
    obtain ⟨-, rfl⟩ := past_newline_eq_ok_iff.1 h
    exact ⟨rfl, Nat.le_add_right _ _⟩
  · obtain ⟨-, rfl⟩ := (past_eq_ok_iff hc).1 h
    exact ⟨rfl, Nat.le_add_right _ _⟩

theorem onward_pastAll {text : List Char} (h : c.pastAll text = .ok d) : c.Onward d := by
  induction text generalizing c with
  | nil =>
    cases h
    exact .refl _
  | cons ch text ih =>
    obtain ⟨e, he, h⟩ := bind_eq_ok_iff.1 h
    exact (onward_past he).trans (ih h)

theorem onward_advance {n : Nat} (h : c.advance n = .ok d) : c.Onward d := by
  obtain ⟨_, -, h⟩ := bind_eq_ok_iff.1 h
  obtain ⟨ahead, -, h⟩ := bind_eq_ok_iff.1 h
  exact onward_pastAll h

end Cursor

/-- The parser of the later machine is in the same session text, at the same place or beyond it. -/
def Machine.Onward {σ : Type} (m n : Machine σ) : Prop := m.parser.cursor.Onward n.parser.cursor

namespace Program
variable {N σ : Type} (disk : Disk)

theorem forward_literal (text : String) :
    (literal text : Program N σ (Except Error N)).Only (Call.Forward disk) :=
  ⟨trivial, fun _ _ => ⟨trivial, fun _ _ => trivial⟩⟩

theorem forward_testAny (ids : List String) :
    (testAny ids : Program N σ (Except Error (Option String))).Only (Call.Forward disk) := by
  induction ids with
  | nil => trivial
  | cons id ids ih =>
    refine ⟨trivial, ?_⟩
    intro outcome _
    match outcome with
    | .error e => trivial
    | .ok true => trivial
    | .ok false => exact ih

theorem forward_matchFirst (all ids : List String) :
    (matchFirst all ids : Program N σ (Except Error N)).Only (Call.Forward disk) := by
  induction ids with
  | nil => exact ⟨trivial, fun _ _ => trivial⟩
  | cons id ids ih =>
    refine ⟨trivial, ?_⟩
    intro outcome _
    match outcome with
    | .error e => trivial
    | .ok true => exact ⟨trivial, fun _ _ => trivial⟩
    | .ok false => exact ih

end Program

namespace Engine
open Packrat.Action Machine Program
variable {N σ α : Type} {g : Setting N σ}

/-- Terms of a parser that only goes on from `start`. Whatever a test or a skipper puts back is not
before `start`, since the test or the skipper was not begun before it either. -/
def onward (hg : g.grammar.All (Only (Call.Forward g.disk)) (Only (Call.Forward g.disk)))
    (start : Cursor) : Local g where
  parser p := start.Onward p.cursor
  may := Call.Forward g.disk
  spells := by
    intro c hc
    cases c <;> trivial
  grammar := hg
  same := by
    intro p q hp _ hcursor
    rw [hcursor]
    exact hp
  advance hp hd := hp.trans (Cursor.onward_advance hd)
  moveTo _ hc := hc.elim
  restore _ hc := hc.elim
  rollback hp hq := ⟨hq.source, hp.offset⟩
  read _ _ hc htext := (hc _ _ htext).elim
  readText _ _ hc := hc.elim

/-- In a run whose rules and skippers go to no place by its name and replace no session, no call that
is answered leaves the cursor before the place where it was made, in rules of any depth, whether it
succeeds or fails; and all of them leave it in the same source. -/
theorem consumption_goes_forward
    (hg : g.grammar.All (Only (Call.Forward g.disk)) (Only (Call.Forward g.disk))) (depth : Nat) :
    (∀ (c : Call σ) m a n, c.Forward g.disk → reply g (run g depth) c m = .ok a n → m.Onward n) ∧
    (∀ (α : Type) (p : Program N σ α) m, p.Only (Call.Forward g.disk) →
      (∀ a n, run g depth _ p m = .ok a n → m.Onward n) ∧
      ∀ i s, Meets g depth i p m s → m.Onward s.machine ∧ s.call.Forward g.disk ∧
        ∀ a n, reply g (run g s.levels) s.call s.machine = .ok a n → s.machine.Onward n) ∧
    (∀ text, (literal text : Program N σ (Except Error N)).Only (Call.Forward g.disk)) ∧
    (∀ ids, (matchAny ids : Program N σ (Except Error N)).Only (Call.Forward g.disk)) ∧
    ∀ ids, (testAny ids : Program N σ (Except Error (Option String))).Only (Call.Forward g.disk) := by
  have hcall (levels : Nat) (c : Call σ) (m : Machine σ) (a : c.Reply N) (n : Machine σ)
      (hc : c.Forward g.disk) (hx : reply g (run g levels) c m = .ok a n) : m.Onward n := by
    let S := (onward hg m.parser.cursor).standing
    have hm : S.holds m := .refl _
    have hrun : S.Sustains (run g levels) := S.sustains_run levels
    exact ((S.ends_reply hrun hm hc).ok hx).2
  refine ⟨hcall depth, ?_, forward_literal g.disk, fun ids => forward_matchFirst g.disk ids ids,
    forward_testAny g.disk⟩
  intro α p m hp
  let L := onward hg m.parser.cursor
  have hstart : L.standing.holds m := .refl _
  constructor
  · intro a n hx
    exact ((L.standing.sustains_run depth (L.abides hp) hstart).ok hx).2
  · intro i s hs
    obtain ⟨hc, hm⟩ := L.standing.holds_of_meets hs (L.abides hp) hstart
    exact ⟨hm, hc, fun a n hx => hcall s.levels s.call s.machine a n hc hx⟩

/-- A skipper that takes a blank and then fails. -/
def fickle : Program Unit Unit (Except Error Bool) := do
  let _ ← ask (.eat " ")
  return .error backtrack

def fickleSetting : Setting Unit Unit where
  grammar := (Grammar.empty.skipper "blank" fickle).rule "word" fun _ => do
    let _ ← ask (.skip none)
    token " a"
  make _ _ := ()
  disk := .empty
  memoizes := true

theorem forward_fickle :
    fickleSetting.grammar.All (Only (Call.Forward fickleSetting.disk))
      (Only (Call.Forward fickleSetting.disk)) := by
  apply Grammar.All.insert_rule
  · apply Grammar.All.insert_skipper .empty
    exact ⟨trivial, fun _ _ => trivial⟩
  · intro params
    refine ⟨trivial, fun _ _ => ⟨trivial, fun _ _ => ⟨trivial, ?_⟩⟩⟩
    intro taken _
    cases taken with
    | true => exact ⟨trivial, fun _ _ => trivial⟩
    | false => exact ⟨trivial, fun _ _ => trivial⟩

theorem consumption_goes_forward_fickle :
    ∃ n, run fickleSetting 3 _ (matchRule ⟨"word", some "blank"⟩) (beginning " ab") =
        .ok (.ok ()) n ∧ (beginning " ab").Onward n := by
  obtain ⟨n, hn⟩ : ∃ n, run fickleSetting 3 _ (matchRule ⟨"word", some "blank"⟩)
      (beginning " ab") = .ok (.ok ()) n := ⟨_, rfl⟩
  have hp : (matchRule ⟨"word", some "blank"⟩ : Program Unit Unit (Except Error Unit)).Only
      (Call.Forward fickleSetting.disk) := ⟨trivial, fun _ _ => trivial⟩
  exact ⟨n, hn, ((consumption_goes_forward forward_fickle 3).2.1 _ _ _ hp).1 _ _ hn⟩

end Engine

end Packrat
