import Packrat.Proofs.Intake
import Packrat.Proofs.Invariant
import Packrat.Proofs.Skipping

/-! Skipping is all or nothing. A skipper that fails softly has skipped nothing, whatever it has done
to the cursor and the active skipper; one that reads what a search finds never fails, and says whether
it has gone anywhere. -/

namespace Packrat
set_option autoImplicit false

/-- Anything that is taken moves the cursor. -/
theorem Cursor.Takes.ne_nil_iff {c d : Cursor} {text : List Char} (h : c.Takes text d) :
    text ≠ [] ↔ c.offset < d.offset := by
  obtain ⟨before, rest, hc, hd⟩ := h.between
  have hstart : c.offset = Utf8.size before := hc.offset
  have hend : d.offset = Utf8.size (before ++ text) := hd.offset
  rw [Utf8.size_append] at hend
  constructor
  · intro hsome
    have hlength := Utf8.length_le_size text
    have hpos := List.length_pos_of_ne_nil hsome
    omega
  · rintro hlt rfl
    rw [Utf8.size_nil] at hend
    omega

theorem Machine.restore_snapshot {σ : Type} {m n : Machine σ} (h : n.source = m.source) :
    n.restore m.snapshot = (n.withCursor m.parser.cursor).withSkipper m.parser.skipper? :=
  congrArg (fun c => (n.withCursor c).withSkipper m.parser.skipper?) (Cursor.moveTo_position h)

namespace Engine
open Packrat.Action Program
variable {N σ : Type} {g : Setting N σ} {m : Machine σ}

theorem run_skip_of_soft {id? : Option String} {id : String} {skipper : Skipper N σ} {depth : Nat}
    {e : Error} {n : Machine σ} (hid : id?.or m.parser.skipper? = some id)
    (hs : g.grammar.skippers[id]? = some skipper) (h : run g depth _ skipper m = .ok (.error e) n)
    (he : e.isFatal = false) :
    run g (depth + 1) _ (ask (.skip id?)) m = .ok (.ok false) (n.restore m.snapshot) := by
  rw [run_ask, eq_ok_iff_ends]
  refine (ends_skip_of_skipper hid hs).2 ?_
  rw [ends_of_eq_ok h]
  simp [he]

/-- Reads what the search finds at the cursor; says whether that was anything. -/
def skipFound (f : Finder) : Action σ (Except Error Bool) := do
  let text? ← move fun c => c.eatFound f
  return .ok (text?.getD [] ≠ [])

/-- A skipper that is made of an expression reads what the search for it finds. -/
theorem run_skipRegex_eq (r : Regex) (depth : Nat) :
    run g (depth + 1) _ (skipRegex r) = (skipFound r.finder : Action σ _) := by
  have hfound : (fun c : Cursor => c.eatFound r.finder) = fun c => c.eatRegex r :=
    funext fun c => (c.eatRegex_eq_eatFound r).symm
  have hempty (text : List Char) : (String.ofList text ≠ "") ↔ text ≠ [] := by simp
  rw [skipRegex, run_bind, run_ask, skipFound, hfound]
  show (move (fun c => c.eatRegex r) >>= fun text? => pure (text?.map String.ofList)) >>= _ = _
  rw [LawfulMonad.bind_assoc]
  congr 1
  funext text?
  cases text? with
  | none => rfl
  | some text =>
    exact congrArg (fun skipped : Bool => (pure (.ok skipped) : Action σ (Except Error Bool)))
      (decide_eq_decide.2 (hempty text))

theorem run_skip_of_found {f : Finder} {id? : Option String} {id : String} {skipper : Skipper N σ}
    (hid : id?.or m.parser.skipper? = some id) (hs : g.grammar.skippers[id]? = some skipper)
    (hfound : ∀ depth, run g (depth + 1) _ skipper m = skipFound f m)
    (hsound : m.parser.cursor.Sound) (hfits : m.parser.cursor.source.Fits) :
    ∃ skipped k,
      (∀ depth, run g (depth + 2) _ (ask (.skip id?)) m = .ok (.ok skipped) k) ∧
        (skipped = true ↔ m.parser.cursor.offset < k.parser.cursor.offset) ∧
        (skipped = false → k = m) := by
  obtain ⟨text?, d, hread, htakes⟩ := Cursor.takes_eatFound hsound hfits f
  have hskip : skipFound f m = .ok (.ok (decide (text?.getD [] ≠ []))) (m.withCursor d) := by
    apply eq_ok_iff_ends.2
    apply ends_bind.2
    apply ends_move.2
    rw [hread]
    exact ⟨rfl, rfl⟩
  refine ⟨_, m.withCursor d, fun depth => run_skip hid hs ((hfound depth).trans hskip), ?_, ?_⟩
  · exact decide_eq_true_iff.trans htakes.ne_nil_iff
  · intro h
    have hnil : text?.getD [] = [] := by simpa using h
    rw [hnil] at htakes
    rw [htakes.unique (.refl hsound)]
    rfl

/-- A skip with a registered skipper, named or active, that fails softly has not moved and leaves the
active skipper as it was; with one that reads what a search finds it always has an answer, which is
that the offset has grown, and has else changed nothing. A skipper that is made of an expression is
one of those. -/
theorem skipping_is_all_or_nothing {id? : Option String} {id : String} {skipper : Skipper N σ}
    (hid : id?.or m.parser.skipper? = some id) (hs : g.grammar.skippers[id]? = some skipper) :
    (∀ depth e n, run g depth _ skipper m = .ok (.error e) n → e.isFatal = false →
      n.source = m.source →
      ∃ k, run g (depth + 1) _ (ask (.skip id?)) m = .ok (.ok false) k ∧
        k.parser.cursor = m.parser.cursor ∧ k.parser.skipper? = m.parser.skipper?) ∧
    (∀ f : Finder, (∀ depth, run g (depth + 1) _ skipper m = skipFound f m) →
      m.parser.cursor.Sound → m.parser.cursor.source.Fits →
      ∃ skipped k,
        (∀ depth, run g (depth + 2) _ (ask (.skip id?)) m = .ok (.ok skipped) k) ∧
          (skipped = true ↔ m.parser.cursor.offset < k.parser.cursor.offset) ∧
          (skipped = false → k = m)) ∧
    ∀ r, skipper = skipRegex r → m.parser.cursor.Sound → m.parser.cursor.source.Fits →
      ∃ skipped k,
        (∀ depth, run g (depth + 2) _ (ask (.skip id?)) m = .ok (.ok skipped) k) ∧
          (skipped = true ↔ m.parser.cursor.offset < k.parser.cursor.offset) ∧
          (skipped = false → k = m) := by
  refine ⟨?_, fun f => run_skip_of_found hid hs, ?_⟩
  · intro depth e n h he hsource
    refine ⟨_, run_skip_of_soft hid hs h he, ?_⟩
    rw [Machine.restore_snapshot hsource]
    exact ⟨rfl, rfl⟩
  · rintro r rfl
    exact run_skip_of_found hid hs fun depth => congrFun (run_skipRegex_eq r depth) m

/-- Takes an `a` and makes another skipper the active one before it fails. -/
def greedy : Program Unit Unit (Except Error Bool) := do
  let _ ← ask (.eat "a")
  let _ ← ask (.setSkipper (some "whitespace"))
  return .error (← customError "no")

def greedySetting : Setting Unit Unit where
  grammar := Grammar.withStock.skipper "greedy" greedy
  make _ _ := ()
  disk := .empty
  memoizes := true

/-- The one skipper by its name, the other as the active one. -/
theorem skipping_is_all_or_nothing_greedy :
    (∃ e n, run greedySetting 3 _ greedy (beginning "a b") = .ok (.error e) n ∧
        n.parser.cursor.offset = 2 ∧ n.parser.skipper? = some "whitespace" ∧
        ∃ k, run greedySetting 4 _ (ask (.skip (some "greedy"))) (beginning "a b") =
            .ok (.ok false) k ∧
          k.parser.cursor = (beginning "a b").parser.cursor ∧ k.parser.skipper? = none) ∧
      ∃ skipped k, run greedySetting 2 _ (ask (.skip none))
            ((beginning " b").withSkipper (some "whitespace")) = .ok (.ok skipped) k ∧
          (skipped = true ↔ 0 < k.parser.cursor.offset) := by
  constructor
  · have hs : greedySetting.grammar.skippers["greedy"]? = some greedy := rfl
    have hid : (some "greedy").or (beginning "a b").parser.skipper? = some "greedy" := rfl
    exact ⟨_, _, rfl, rfl, rfl, (skipping_is_all_or_nothing hid hs).1 3 _ _ rfl rfl rfl⟩
  · have hs : greedySetting.grammar.skippers["whitespace"]? = some (skipRegex _) := rfl
    have hfits : ((beginning " b").withSkipper (some "whitespace")).parser.cursor.source.Fits := by
      unfold Source.Fits
      decide
    have hid : none.or ((beginning " b").withSkipper (some "whitespace")).parser.skipper? =
      some "whitespace" := rfl
    obtain ⟨skipped, k, hrun, hskipped, -⟩ :=
      (skipping_is_all_or_nothing hid hs).2.1 _
        (fun depth => congrFun (run_skipRegex_eq _ depth) _) (Cursor.sound_atStart _) hfits
    exact ⟨skipped, k, hrun 0, hskipped⟩

end Engine

end Packrat
