import Packrat.Proofs.Replies

/-! A rule that runs under a skipper of its own leaves the active skipper as it was. There is one
way out on which it does not: a fatal error of the skip that comes with installing the skipper. -/

namespace Packrat
set_option autoImplicit false

namespace Engine
open Packrat.Action Machine Program
variable {N σ : Type} {g : Setting N σ} {depth : Nat} {m n k : Machine σ} {id : String}
variable {e e' : Error}

/-- The skip that comes with installing the skipper ends with a fatal error. -/
structure InstallFails (g : Setting N σ) (depth : Nat) (id : String) (m : Machine σ) (e : Error)
    (n : Machine σ) : Prop where
  named : id ≠ ""
  skips : ∃ skipper, g.grammar.skippers[id]? = some skipper ∧
    run g depth _ skipper (m.installing id) = .ok (.error e) n
  fatal : e.isFatal

theorem InstallFails.unique (h : InstallFails g depth id m e n)
    (h' : InstallFails g depth id m e' k) : e = e' ∧ n = k := by
  obtain ⟨skipper, hs, hrun⟩ := h.skips
  obtain ⟨skipper', hs', hrun'⟩ := h'.skips
  obtain rfl : skipper = skipper' := Option.some.inj (hs.symm.trans hs')
  cases hrun.symm.trans hrun'
  exact ⟨rfl, rfl⟩

/-- Installing a skipper gives the one before. If it fails, the skip that comes with it has failed,
or nothing was done. -/
theorem ends_install (g : Setting N σ) (depth : Nat) (id : String) (m : Machine σ) :
    Ends (setSkipper g (run g depth) (some id)) m
      (fun installed n => (∃ e, installed = .error e ∧ InstallFails g depth id m e n) ∨
        (∀ e k, ¬InstallFails g depth id m e k) ∧
          (installed = .ok m.parser.skipper? ∨ ∃ e, installed = .error e ∧ n = m))
      fun _ _ => True := by
  by_cases hid : id = ""
  · subst hid
    rw [ends_setSkipper_of_empty (.inr rfl)]
    exact .inr ⟨fun e k h => h.named rfl, .inl rfl⟩
  cases hs : g.grammar.skippers[id]? with
  | none =>
    rw [ends_setSkipper_of_unknown hid hs]
    refine .inr ⟨?_, .inr ⟨_, rfl, rfl⟩⟩
    intro e k h
    obtain ⟨skipper, hs', -⟩ := h.skips
    cases hs.symm.trans hs'
  | some skipper =>
    rw [ends_setSkipper_of_skipper hid hs]
    apply ends_iff.2
    refine ⟨?_, fun _ _ _ => trivial⟩
    intro outcome n hx
    have hfails (e : Error) (k : Machine σ) (h : InstallFails g depth id m e k) :
        outcome = .error e ∧ e.isFatal := by
      obtain ⟨skipper', hs', hx'⟩ := h.skips
      obtain rfl : skipper = skipper' := Option.some.inj (hs.symm.trans hs')
      cases hx.symm.trans hx'
      exact ⟨rfl, h.fatal⟩
    cases outcome with
    | ok skipped =>
      refine .inr ⟨fun e k h => ?_, .inl rfl⟩
      cases (hfails e k h).1
    | error e =>
      dsimp only
      split
      · next hfatal => exact .inl ⟨e, rfl, hid, ⟨skipper, hs, hx⟩, hfatal⟩
      · next hfatal =>
        refine .inr ⟨fun e' k h => ?_, .inl rfl⟩
        obtain ⟨heq, hfatal'⟩ := hfails e' k h
        cases heq
        exact hfatal hfatal'

/-- Whatever a rule under a skipper of its own comes to, and whatever it does to the active skipper,
the one before is active afterwards just if no installation has failed with another one active. If one
has, its error is that of the call and its skipper stays. -/
theorem scoped_skipper_is_put_back_iff (params : Params) {ref : RuleRef}
    (href : ref.skipper? = some id) {outcome : Except Error N}
    (h : run g (depth + 1) _ (ask (.matchWith ref params)) m = .ok outcome n) :
    (n.parser.skipper? = m.parser.skipper? ↔
      ∀ e k, InstallFails g depth id m.matching e k → k.parser.skipper? = m.parser.skipper?) ∧
    ∀ e k, InstallFails g depth id m.matching e k → outcome = .error e ∧ n = k := by
  have hends : Ends (matchWith g (run g depth) ref params) m
      (fun outcome n => (∃ e, outcome = .error e ∧ InstallFails g depth id m.matching e n) ∨
        (∀ e k, ¬InstallFails g depth id m.matching e k) ∧
          n.parser.skipper? = m.parser.skipper?)
      fun _ _ => True := by
    rw [ends_matchWith, href]
    apply (ends_install g depth id m.matching).imp_ok
    rintro installed k (⟨e, rfl, hfails⟩ | ⟨hfree, rfl | ⟨e, rfl, rfl⟩⟩)
    · exact .inl ⟨e, rfl, hfails⟩
    · apply ends_iff.2
      exact ⟨fun _ _ _ => .inr ⟨hfree, rfl⟩, fun _ _ _ => trivial⟩
    · exact .inr ⟨hfree, rfl⟩
  rw [run_ask] at h
  rcases hends.ok h with ⟨e, rfl, hfails⟩ | ⟨hfree, hback⟩
  · constructor
    · constructor
      · intro hback e' k h'
        obtain ⟨rfl, rfl⟩ := hfails.unique h'
        exact hback
      · intro hfree
        exact hfree e n hfails
    · intro e' k h'
      obtain ⟨rfl, rfl⟩ := hfails.unique h'
      exact ⟨rfl, rfl⟩
  · constructor
    · constructor
      · intro _ e k h'
        exact absurd h' (hfree e k)
      · intro _
        exact hback
    · intro e k h'
      exact absurd h' (hfree e k)

/-- A skipper that can only fail, and one that gives up softly. -/
def strictSetting : Setting Unit Unit where
  grammar := ((Grammar.empty.skipper "strict" (ask (.skip (some "missing")))).skipper "gives up"
    (.done (.error backtrack))).rule "word" fun _ => token "ab"
  make _ _ := ()
  disk := .empty
  memoizes := true

theorem scoped_skipper_is_put_back_word : ∃ n,
    run strictSetting 3 _ (matchRule ⟨"word", some "gives up"⟩) (beginning "ab") = .ok (.ok ()) n ∧
      n.parser.skipper? = none := by
  obtain ⟨n, hn⟩ : ∃ n, run strictSetting 3 _ (matchRule ⟨"word", some "gives up"⟩)
      (beginning "ab") = .ok (.ok ()) n := ⟨_, rfl⟩
  refine ⟨n, hn, (scoped_skipper_is_put_back_iff [] rfl hn).1.2 ?_⟩
  intro e k h
  obtain ⟨skipper, hs, hrun⟩ := h.skips
  cases hs
  cases hrun
  cases h.fatal

/-- A skip that fails with a fatal error leaves its skipper active. -/
theorem strict_skipper_stays : ∃ e n,
    run strictSetting 3 _ (matchRule ⟨"word", some "strict"⟩) (beginning "ab") = .ok (.error e) n ∧
      e.isFatal ∧ (beginning "ab").parser.skipper? = none ∧ n.parser.skipper? = some "strict" :=
  ⟨_, _, rfl, rfl, rfl, rfl⟩

end Engine

end Packrat
