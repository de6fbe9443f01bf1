import Packrat.Proofs.Continuity

/-! Tests leave the parser where it was, however they end. So does a choice that finds no
alternative, and its error tells of all of them. -/

namespace Packrat
set_option autoImplicit false

namespace Engine
open Packrat.Action Machine Program
variable {N σ : Type} {g : Setting N σ}

theorem ends_testAny_cons {depth : Nat} {id : String} {ids : List String} {m : Machine σ}
    {Q : Except Error (Option String) → Machine σ → Prop} {E : Halt → Machine σ → Prop} :
    Ends (run g (depth + 1) _ (testAny (id :: ids))) m Q E ↔
      Ends (test g (run g depth) id) m
        (fun outcome n =>
          match outcome with
          | .error e => Q (.error e) n
          | .ok true => Q (.ok (some id)) n
          | .ok false => Ends (run g (depth + 1) _ (testAny ids)) n Q E) E := by
  rw [testAny, run_bind, ends_bind, run_ask]
  refine ends_congr fun outcome n => ?_
  split <;> rfl

theorem untouched_testAny (hg : g.KeepsSessions) (depth : Nat) (ids : List String)
    (m : Machine σ) :
    Ends (run g (depth + 1) _ (testAny ids)) m (fun _ n => m.Untouched n) fun _ n => m.Grows n := by
  induction ids generalizing m with
  | nil => exact Untouched.refl m
  | cons id ids ih =>
    rw [ends_testAny_cons]
    apply (untouched_test hg (runsGrow_run hg depth) id m).imp_ok
    intro outcome n hn
    split
    · exact hn
    · exact hn
    · apply (ih n).imp
      · intro outcome k hk
        exact hn.trans hk
      · intro why k hk
        exact hn.toGrows.trans hk

/-- Where no test is passed, the choice fails behind the last of them. -/
theorem matchFirst_of_testAny {depth : Nat} {all ids : List String} {m n : Machine σ}
    (h : run g (depth + 1) _ (testAny ids) m = .ok (.ok none) n) :
    run g (depth + 1) _ (matchFirst all ids) m =
      .ok (.error ⟨.expected all, some n.position⟩) n := by
  induction ids generalizing m with
  | nil =>
    cases h
    rfl
  | cons id ids ih =>
    rw [testAny, run_bind, run_ask] at h
    obtain ⟨outcome, k, hk, h⟩ := exists_of_bind_eq_ok h
    rw [matchFirst, run_bind, run_ask, bind_eq_of_ok hk]
    split at h
    · cases h
    · cases h
    · exact ih h

/-- Tests, alone or in a row, take back all they do to the parser, whatever they answer. Of its own
data only counters and memo may differ, and memo and tokens lose nothing. A test of rules in a row
leaves the memo that these rules leave. Where no alternative is found, the same holds of the choice,
which fails at the cursor with all alternatives in order. -/
theorem speculation_leaves_no_trace (hg : g.KeepsSessions) (depth : Nat) (m : Machine σ) :
    (∀ id outcome n, run g (depth + 1) _ (ask (.test id)) m = .ok outcome n → m.Untouched n) ∧
    (∀ ids outcome n, run g (depth + 1) _ (testAny ids) m = .ok outcome n → m.Untouched n) ∧
    (∀ ids outcome n, run g (depth + 1) _ (ask (.testAll ids)) m = .ok outcome n →
      m.Untouched n ∧ ∃ ruled k, runAll g (run g depth) ids m = .ok ruled k ∧
        n.parser.memo = k.parser.memo) ∧
    ∀ ids n, run g (depth + 1) _ (testAny ids) m = .ok (.ok none) n →
      run g (depth + 1) _ (matchAny ids) m = .ok (.error ⟨.expected ids, some m.position⟩) n ∧
        m.Untouched n := by
  have hrun := runsGrow_run hg depth
  refine ⟨?_, ?_, ?_, ?_⟩
  · intro id outcome n h
    rw [run_ask] at h
    exact (untouched_test hg hrun id m).ok h
  · intro ids outcome n h
    exact (untouched_testAny hg depth ids m).ok h
  · intro ids outcome n h
    rw [run_ask] at h
    refine ⟨(untouched_testAll hg hrun ids m).ok h, ?_⟩
    obtain ⟨before, m', hm', h⟩ := exists_of_bind_eq_ok (x := snapshot) h
    cases hm'
    obtain ⟨ruled, k, hk, h⟩ := exists_of_bind_eq_ok h
    cases h
    exact ⟨ruled, k, hk, rfl⟩
  · intro ids n h
    have hn := (untouched_testAny hg depth ids m).ok h
    have hposition : m.position = n.position := congrArg Cursor.position hn.cursor.symm
    rw [hposition]
    exact ⟨matchFirst_of_testAny h, hn⟩

/-- A word that may stand behind blanks. -/
def blankWord : Rule Unit Unit := fun _ => do
  let _ ← ask (.setSkipper (some "whitespace"))
  token "ab"

def blankSetting : Setting Unit Unit where
  grammar := Grammar.withStock.rule "word" blankWord
  make _ _ := ()
  disk := .empty
  memoizes := true

theorem keepsSessions_blank : blankSetting.KeepsSessions := by
  apply Grammar.All.insert_rule
  · apply Grammar.All.withStock
    intro r
    apply Program.Only.call trivial
    intro text?
    cases text? <;> trivial
  · intro params
    apply Program.Only.call trivial
    intro outcome
    exact Setting.KeepsSessions.token blankSetting "ab"

theorem speculation_leaves_no_trace_blank :
    ∃ n, run blankSetting 3 _ (ask (.test "word")) (beginning " ab") = .ok (.ok true) n ∧
      (beginning " ab").Untouched n :=
  ⟨_, rfl, (speculation_leaves_no_trace keepsSessions_blank 2 (beginning " ab")).1 "word" _ _ rfl⟩

end Engine

end Packrat
