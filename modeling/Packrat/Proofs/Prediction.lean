import Packrat.Proofs.Dwelling
import Packrat.Proofs.Speculation

/-! A test says what a match from the same place does. Between the two, counters, memo and tokens
differ; the run without a memo, which both are followed by, does not depend on them. -/

namespace Packrat
set_option autoImplicit false

namespace Program
variable {N σ : Type}

/-- Runs whatever the name stands for, as it is. -/
def attempt (id : String) : Program N σ (Except Error N) := do
  ask (.invoke (← ask (.resolve id)) [])

/-- Runs rules one after another, each in the given way, to the first error. -/
def inOrder (rule : String → Program N σ (Except Error N)) :
    List String → Program N σ (Except Error Unit)
  | [] => return .ok ()
  | id :: ids => do
    match ← rule id with
    | .error e => return .error e
    | .ok _ => inOrder rule ids

def matchAll (ids : List String) : Program N σ (Except Error Unit) :=
  inOrder (fun id => matchRule ⟨id, none⟩) ids

end Program

namespace Engine
open Packrat.Action Machine Program
variable {N σ α β : Type} {g : Setting N σ} {view : View N σ} {sc : Scene}
variable {depth : Nat} {m m' n n' k : Machine σ} {id : String}

/-- The program comes to an outcome with that verdict. -/
def Answers (g : Setting N σ) (p : Program N σ (Except Error α)) (m : Machine σ)
    (answer : Except Error Bool) : Prop :=
  ∃ outcome n, ComesTo g p m outcome n ∧ verdict outcome = answer

/-! Rules as they are run by tests and by matches. -/

theorem run_attempt (id : String) :
    run g (depth + 1) _ (attempt id) = resolveAndInvoke g (run g depth) id [] := by
  rw [attempt, run_bind, run_ask]
  exact congrArg (resolve g id >>= ·) (funext fun r => run_ask depth (.invoke r []))

theorem comesTo_attempt {outcome : Except Error N} : ComesTo g (attempt id) m outcome n ↔
    ∃ depth, resolveAndInvoke g (run g depth) id [] m = .ok outcome n := by
  constructor
  · rintro ⟨depth, h⟩
    cases depth with
    | zero => cases h
    | succ depth => exact ⟨depth, (congrFun (run_attempt id) m).symm.trans h⟩
  · rintro ⟨depth, h⟩
    exact ⟨depth + 1, (congrFun (run_attempt id) m).trans h⟩

theorem comesTo_matchRule {outcome : Except Error N} :
    ComesTo g (matchRule ⟨id, none⟩) m outcome n ↔ ComesTo g (attempt id) m.matching outcome n :=
  comesTo_ask.trans comesTo_attempt.symm

theorem comesTo_test_of_recall {matched : Bool} (h : g.recall? m id = some matched)
    {answer : Except Error Bool} :
    ComesTo g (ask (.test id)) m answer n ↔ answer = .ok matched ∧ n = m.hit id matched := by
  rw [comesTo_ask]
  constructor
  · rintro ⟨depth, hx⟩
    cases (test_of_recall h).symm.trans hx
    exact ⟨rfl, rfl⟩
  · rintro ⟨rfl, rfl⟩
    exact ⟨0, test_of_recall h⟩

theorem comesTo_test_of_miss (h : g.recall? m id = none) {answer : Except Error Bool} :
    ComesTo g (ask (.test id)) m answer n ↔ ∃ outcome l, ComesTo g (attempt id) m.testing outcome l ∧
      verdict outcome = answer ∧ n = l.tested m.snapshot id answer := by
  rw [comesTo_ask]
  simp only [comesTo_attempt]
  constructor
  · rintro ⟨depth, hx⟩
    cases hl : resolveAndInvoke g (run g depth) id [] m.testing with
    | ok outcome l =>
      cases (test_of_miss h hl).symm.trans hx
      exact ⟨outcome, l, ⟨depth, hl⟩, rfl, rfl⟩
    | error why l => cases (test_of_miss_error h hl).symm.trans hx
  · rintro ⟨outcome, l, ⟨depth, hl⟩, rfl, rfl⟩
    exact ⟨depth, test_of_miss h hl⟩

theorem run_inOrder_attempt (ids : List String) :
    run g (depth + 1) _ (inOrder attempt ids) = runAll g (run g depth) ids := by
  induction ids with
  | nil => rfl
  | cons id ids ih =>
    rw [inOrder, run_bind, run_attempt, runAll]
    refine congrArg (resolveAndInvoke g (run g depth) id [] >>= ·) (funext fun outcome => ?_)
    cases outcome with
    | error e => rfl
    | ok node => exact ih

theorem comesTo_testAll {ids : List String} {answer : Except Error Bool} :
    (∃ n, ComesTo g (ask (.testAll ids)) m answer n) ↔
      Answers g (inOrder attempt ids) m answer := by
  constructor
  · rintro ⟨n, h⟩
    obtain ⟨depth, hx⟩ := comesTo_ask.1 h
    have hends : Ends (testAll g (run g depth) ids) m
        (fun answer _ => ∃ outcome l, runAll g (run g depth) ids m = .ok outcome l ∧
          verdict outcome = answer) fun _ _ => True := by
      apply ends_testAll.2
      apply ends_of_ok
      intro outcome l hl
      exact ⟨outcome, l, hl, rfl⟩
    obtain ⟨outcome, l, hl, hverdict⟩ := hends.ok hx
    exact ⟨outcome, l, ⟨depth + 1, (congrFun (run_inOrder_attempt ids) m).trans hl⟩, hverdict⟩
  · rintro ⟨outcome, l, ⟨depth, hl⟩, rfl⟩
    cases depth with
    | zero => cases hl
    | succ depth =>
      have hall := (congrFun (run_inOrder_attempt ids) m).symm.trans hl
      have htest : testAll g (run g depth) ids m = .ok (verdict outcome) (l.restore m.snapshot) :=
        eq_ok_iff_ends.2 (ends_testAll.2 ((ends_of_eq_ok hall).2 ⟨rfl, rfl⟩))
      exact ⟨_, comesTo_ask.2 ⟨depth, htest⟩⟩

/-! Without a memo, a run does not depend on counters, and comes to what it comes to with one. -/

/-- Machines at the same place, with the same tokens. -/
structure Twins (sc : Scene) (m m' : Machine σ) : Prop where
  left : m.In sc
  right : m'.In sc
  cursor : m'.parser.cursor = m.parser.cursor
  tokens : m.shared.tokens.Within m'.shared.tokens
  back : m'.shared.tokens.Within m.shared.tokens

theorem Twins.count (hm : m.In sc) (f : Stats → Stats) : Twins sc m (m.count f) :=
  ⟨hm, hm.count f, rfl, .refl _, .refl _⟩

theorem Twins.refl (hm : m.In sc) : Twins sc m m := .count hm fun s => s

theorem Twins.symm (h : Twins sc m m') : Twins sc m' m :=
  ⟨h.right, h.left, h.cursor.symm, h.back, h.tokens⟩

theorem Twins.trans (h : Twins sc m m') (h' : Twins sc m' k) : Twins sc m k :=
  ⟨h.left, h'.right, h'.cursor.trans h.cursor, h.tokens.trans h'.tokens, h'.back.trans h.back⟩

theorem Twins.related (h : Twins sc m m') {b : Bool} (hvalid : b → Valid g sc m') :
    Related g sc false b m m' where
  left := h.left
  right := h.right
  cursor := h.cursor
  tokens := h.tokens
  back _ := h.back
  validLeft hb := by simp at hb
  validRight := hvalid

section
variable (hg : g.Steady view sc.skipper?) {p : Program N σ α} {gives : α → Prop} {a : α}
variable (hp : p.Stays view sc.skipper? sc.Known gives)
include hg hp

/-- Without a memo, a program that has an answer gives it too. -/
theorem plain_comesTo (hm : Lives g sc m) (h : ComesTo g p m a n) :
    ∃ n', ComesTo (g.memoized false) p m a n' ∧ Related g sc g.memoizes false n n' := by
  have hagree := h.within.agree.symm
  obtain ⟨d, hd⟩ := h
  obtain ⟨-, n', ⟨d', hd'⟩, hn, -⟩ :=
    (followed hg (fun _ => replayed hg) (by simp) d hp hm.related).ok hd hagree
  exact ⟨n', ⟨d', hd' d' (Nat.le_refl d')⟩, hn⟩

/-- So it does with a memo that can be trusted. -/
theorem comesTo_of_plain {b : Bool} (h : Related g sc false b m m')
    (hx : ComesTo (g.memoized false) p m a n)
    (hagree : m'.shared.tokens.Agree n.shared.tokens) :
    ∃ n', ComesTo (g.memoized b) p m' a n' ∧ Related g sc false b n n' ∧
      n'.shared.tokens.InEither m'.shared.tokens n.shared.tokens := by
  obtain ⟨d, hd⟩ := hx
  obtain ⟨-, n', ⟨d', hd'⟩, hn, hin⟩ :=
    (followed hg (fun _ => replayed hg) (by simp) d hp h).ok hd hagree
  exact ⟨n', ⟨d', hd' d' (Nat.le_refl d')⟩, hn, hin⟩

theorem comesTo_iff_plain (hm : Lives g sc m) :
    (∃ n, ComesTo g p m a n) ↔ ∃ n, ComesTo (g.memoized false) p m a n := by
  constructor
  · rintro ⟨n, hx⟩
    obtain ⟨n', hn', -⟩ := plain_comesTo hg hp hm hx
    exact ⟨n', hn'⟩
  · rintro ⟨n, hx⟩
    have hrelated := (Twins.refl hm.scene).related (b := g.memoizes) fun _ => hm.valid
    have hagree := hx.within.agree.symm
    obtain ⟨n', hn', -⟩ := comesTo_of_plain hg hp hrelated hx hagree
    exact ⟨n', hn'⟩

theorem comesTo_twin (h : Twins sc m m') (hx : ComesTo (g.memoized false) p m a n) :
    ∃ n', ComesTo (g.memoized false) p m' a n' ∧ Twins sc n n' := by
  have hwithin := h.back.trans hx.within
  have hrelated : Related g sc false false m m' := h.related fun hb => by simp at hb
  obtain ⟨n', hn', hn, hin⟩ := comesTo_of_plain hg hp hrelated hx hwithin.agree.symm
  exact ⟨n', hn', hn.left, hn.right, hn.cursor, hn.tokens, hin.symm.within hwithin⟩

end

theorem answers_iff_plain (hg : g.Steady view sc.skipper?) {p : Program N σ (Except Error α)}
    {gives : Except Error α → Prop} (hp : p.Stays view sc.skipper? sc.Known gives)
    (hm : Lives g sc m) (answer : Except Error Bool) :
    Answers g p m answer ↔ Answers (g.memoized false) p m answer := by
  refine exists_congr fun outcome => ?_
  rw [exists_and_right, exists_and_right, comesTo_iff_plain hg hp hm]

theorem stays_attempt (view : View N σ) (sc : Scene) (id : String) :
    (attempt id).Stays view sc.skipper? sc.Known (Outcome sc.Known (view.Node sc.Known)) :=
  ⟨⟨trivial, trivial⟩, fun _ _ => ⟨⟨trivial, trivial⟩, fun _ houtcome => houtcome.2⟩⟩

theorem stays_matchRule (view : View N σ) (sc : Scene) (id : String) :
    (matchRule ⟨id, none⟩).Stays view sc.skipper? sc.Known
      (Outcome sc.Known (view.Node sc.Known)) :=
  ⟨⟨rfl, trivial⟩, fun _ houtcome => houtcome.2⟩

theorem stays_testAny (view : View N σ) (sc : Scene) (ids : List String) :
    (testAny ids).Stays view sc.skipper? sc.Known (Outcome sc.Known fun _ => True) := by
  induction ids with
  | nil => exact trivial
  | cons id ids ih =>
    refine ⟨⟨trivial, trivial⟩, ?_⟩
    rintro found ⟨-, hfound⟩
    match found with
    | .error e => exact hfound
    | .ok true => exact trivial
    | .ok false => exact ih

theorem stays_inOrder {rule : String → Program N σ (Except Error N)}
    (hrule : ∀ id, (rule id).Stays view sc.skipper? sc.Known
      (Outcome sc.Known (view.Node sc.Known))) (ids : List String) :
    (inOrder rule ids).Stays view sc.skipper? sc.Known (Outcome sc.Known fun _ => True) := by
  induction ids with
  | nil => exact trivial
  | cons id ids ih =>
    apply (hrule id).bind
    intro outcome houtcome
    cases outcome with
    | error e => exact houtcome
    | ok node => exact ih

section
variable (hg : g.Steady view sc.skipper?)
include hg

/-- Rules in order are followed if each of them is. -/
theorem comesTo_inOrder {first second : String → Program N σ (Except Error N)}
    (hstep : ∀ id m m' outcome n, Twins sc m m' → ComesTo (g.memoized false) (first id) m outcome n →
      ∃ n', ComesTo (g.memoized false) (second id) m' outcome n' ∧ Twins sc n n')
    {ids : List String} (h : Twins sc m m') {outcome : Except Error Unit}
    (hx : ComesTo (g.memoized false) (inOrder first ids) m outcome n) :
    ∃ n', ComesTo (g.memoized false) (inOrder second ids) m' outcome n' ∧ Twins sc n n' := by
  have hkeeps := hg.keeps.memoized false
  induction ids generalizing m m' with
  | nil =>
    obtain ⟨rfl, rfl⟩ := comesTo_done.1 hx
    exact ⟨m', comesTo_done.2 ⟨rfl, rfl⟩, h⟩
  | cons id ids ih =>
    obtain ⟨reached, k, hk, hx⟩ := (comesTo_bind).1 hx
    obtain ⟨k', hk', hkk⟩ := hstep id m m' reached k h hk
    cases reached with
    | error e =>
      obtain ⟨rfl, rfl⟩ := comesTo_done.1 hx
      exact ⟨k', (comesTo_bind).2 ⟨_, k', hk', comesTo_done.2 ⟨rfl, rfl⟩⟩, hkk⟩
    | ok node =>
      obtain ⟨n', hn', hnn⟩ := ih hkk hx
      exact ⟨n', (comesTo_bind).2 ⟨_, k', hk', hn'⟩, hnn⟩

theorem matchRule_of_attempt {outcome : Except Error N} (h : Twins sc m m')
    (hx : ComesTo (g.memoized false) (attempt id) m outcome n) :
    ∃ n', ComesTo (g.memoized false) (matchRule ⟨id, none⟩) m' outcome n' ∧ Twins sc n n' := by
  have hmatching := h.trans (.count h.right fun s => { s with runs := s.runs + 1 })
  obtain ⟨n', hn', hnn⟩ := comesTo_twin hg (stays_attempt view sc id) hmatching hx
  exact ⟨n', comesTo_matchRule.2 hn', hnn⟩

theorem attempt_of_matchRule {outcome : Except Error N} (h : Twins sc m m')
    (hx : ComesTo (g.memoized false) (matchRule ⟨id, none⟩) m outcome n) :
    ∃ n', ComesTo (g.memoized false) (attempt id) m' outcome n' ∧ Twins sc n n' := by
  have hmatching := (Twins.count h.left fun s => { s with runs := s.runs + 1 }).symm.trans h
  exact comesTo_twin hg (stays_attempt view sc id) hmatching (comesTo_matchRule.1 hx)

/-- What a test says, a match does, whether the memo has the answer or not. -/
theorem test_iff_match (hm : Lives g sc m) (id : String) (answer : Except Error Bool) :
    (∃ n, ComesTo g (ask (.test id)) m answer n) ↔ Answers g (matchRule ⟨id, none⟩) m answer := by
  rw [comesTo_iff_plain hg (stays_test view sc id) hm,
    answers_iff_plain hg (stays_matchRule view sc id) hm]
  have htesting : Twins sc m m.testing := .count hm.scene _
  constructor
  · rintro ⟨n, hx⟩
    obtain ⟨outcome, l, hl, hverdict, -⟩ := (comesTo_test_of_miss rfl).1 hx
    obtain ⟨n', hn', -⟩ := matchRule_of_attempt hg htesting.symm hl
    exact ⟨outcome, n', hn', hverdict⟩
  · rintro ⟨outcome, n, hx, hverdict⟩
    obtain ⟨l, hl, -⟩ := attempt_of_matchRule hg htesting hx
    exact ⟨_, (comesTo_test_of_miss rfl).2 ⟨outcome, l, hl, hverdict, rfl⟩⟩

theorem testAll_iff_matchAll (hm : Lives g sc m) (ids : List String) (answer : Except Error Bool) :
    (∃ n, ComesTo g (ask (.testAll ids)) m answer n) ↔ Answers g (matchAll ids) m answer := by
  rw [comesTo_testAll, matchAll, answers_iff_plain hg (stays_inOrder (stays_attempt view sc) ids) hm,
    answers_iff_plain hg (stays_inOrder (stays_matchRule view sc) ids) hm]
  have hself : Twins sc m m := .refl hm.scene
  constructor
  · rintro ⟨outcome, n, hx, hverdict⟩
    obtain ⟨n', hn', -⟩ := comesTo_inOrder hg
      (fun _ _ _ _ _ h hstep => matchRule_of_attempt hg h hstep) hself hx
    exact ⟨outcome, n', hn', hverdict⟩
  · rintro ⟨outcome, n, hx, hverdict⟩
    obtain ⟨n', hn', -⟩ := comesTo_inOrder hg
      (fun _ _ _ _ _ h hstep => attempt_of_matchRule hg h hstep) hself hx
    exact ⟨outcome, n', hn', hverdict⟩

end

/-! Choices. -/

/-- What a choice does once its rules are tested. -/
def matchTested (all : List String) : Except Error (Option String) → Program N σ (Except Error N)
  | .error e => return .error e
  | .ok none => return .error (← expected all)
  | .ok (some id) => matchRule ⟨id, none⟩

theorem matchFirst_eq (all ids : List String) :
    matchFirst all ids = (testAny ids >>= matchTested all : Program N σ (Except Error N)) := by
  induction ids with
  | nil => rfl
  | cons id ids ih =>
    rw [matchFirst, testAny, LawfulMonad.bind_assoc]
    refine congrArg (ask (.test id) >>= ·) (funext fun outcome => ?_)
    cases outcome with
    | error e => rfl
    | ok matched =>
      cases matched with
      | true => rfl
      | false => exact ih

theorem comesTo_nothing {all : List String} {outcome : Except Error N} :
    ComesTo g (matchTested all (.ok none)) m outcome n ↔
      outcome = .error ⟨.expected all, some m.position⟩ ∧ n = m := by
  constructor
  · rintro ⟨depth, h⟩
    cases depth <;> cases h
    exact ⟨rfl, rfl⟩
  · rintro ⟨rfl, rfl⟩
    exact ⟨1, rfl⟩

theorem comesTo_testAny_cons {ids : List String}
    {answer : Except Error (Option String)} : ComesTo g (testAny (id :: ids)) m answer k ↔
      ∃ found n, ComesTo g (ask (.test id)) m found n ∧
        match found with
        | .error e => answer = .error e ∧ k = n
        | .ok true => answer = .ok (some id) ∧ k = n
        | .ok false => ComesTo g (testAny ids) n answer k := by
  rw [testAny, comesTo_bind]
  refine exists_congr fun found => exists_congr fun n => and_congr_right fun _ => ?_
  cases found with
  | error e => exact comesTo_done
  | ok matched =>
    cases matched with
    | true => exact comesTo_done
    | false => exact .rfl

/-- The rule found is the first that its test says yes to. -/
theorem comesTo_testAny_some {ids : List String} :
    ComesTo g (testAny ids) m (.ok (some id)) n ↔
      ∃ before after k, ids = before ++ id :: after ∧ ComesTo g (testAny before) m (.ok none) k ∧
        ComesTo g (ask (.test id)) k (.ok true) n := by
  constructor
  · intro h
    induction ids generalizing m with
    | nil => cases (comesTo_done.1 h).1
    | cons tried ids ih =>
      obtain ⟨found, k, hk, h⟩ := comesTo_testAny_cons.1 h
      match found with
      | .error e => cases h.1
      | .ok true =>
        obtain ⟨heq, rfl⟩ := h
        cases heq
        exact ⟨[], ids, m, rfl, comesTo_done.2 ⟨rfl, rfl⟩, hk⟩
      | .ok false =>
        obtain ⟨before, after, j, rfl, hj, htest⟩ := ih h
        exact ⟨tried :: before, after, j, rfl, comesTo_testAny_cons.2 ⟨_, k, hk, hj⟩, htest⟩
  · rintro ⟨before, after, k, rfl, hk, htest⟩
    induction before generalizing m with
    | nil =>
      obtain ⟨-, rfl⟩ := comesTo_done.1 hk
      exact comesTo_testAny_cons.2 ⟨_, n, htest, rfl, rfl⟩
    | cons tried before ih =>
      obtain ⟨found, j, hj, hk⟩ := comesTo_testAny_cons.1 hk
      match found with
      | .error e => cases hk.1
      | .ok true => cases hk.1
      | .ok false => exact comesTo_testAny_cons.2 ⟨_, j, hj, ih hk⟩

theorem untouched_of_testAny (hg : g.KeepsSessions) {ids : List String}
    {answer : Except Error (Option String)} (h : ComesTo g (testAny ids) m answer n) :
    m.Untouched n := by
  obtain ⟨depth, hx⟩ := h
  cases depth with
  | zero => cases hx
  | succ depth => exact (untouched_testAny hg depth ids m).ok hx

theorem ok_of_verdict {outcome : Except Error α} (h : verdict outcome = .ok true) :
    ∃ a, outcome = .ok a := by
  unfold verdict at h
  split at h
  · exact ⟨_, rfl⟩
  · split at h <;> cases h

theorem isFatal_of_verdict {outcome : Except Error α} {e : Error} (h : verdict outcome = .error e) :
    e.isFatal := by
  unfold verdict at h
  split at h
  · cases h
  · split at h
    · next hfatal =>
      cases h
      exact hfatal
    · cases h

theorem recall?_of_test (hmemo : g.memoizes = true) {matched : Bool}
    (h : ComesTo g (ask (.test id)) m (.ok matched) n) : g.recall? n id = some matched := by
  cases hrecall : g.recall? m id with
  | some b =>
    obtain ⟨hb, rfl⟩ := (comesTo_test_of_recall hrecall).1 h
    cases hb
    exact hrecall
  | none =>
    obtain ⟨outcome, l, -, -, rfl⟩ := (comesTo_test_of_miss hrecall).1 h
    rw [recall?_of_memoizes hmemo]
    exact (Memo.get?_insert ..).trans (if_pos ⟨rfl, rfl⟩)

section
variable (hg : g.Steady view sc.skipper?) (hmemo : g.memoizes = true)
include hg hmemo

theorem lives_comesTo {p : Program N σ α} {gives : α → Prop}
    (hp : p.Stays view sc.skipper? sc.Known gives) (hm : Lives g sc m) {a : α}
    (h : ComesTo g p m a n) : Lives g sc n := by
  obtain ⟨depth, hx⟩ := h
  exact ((keeps_run hg hmemo hp hm).ok hx).1

/-- Tests in between do not matter, but for the tokens they register. -/
theorem comesTo_of_untouched {p : Program N σ α} {gives : α → Prop}
    (hp : p.Stays view sc.skipper? sc.Known gives) (hm : Lives g sc m) (hk : Lives g sc k)
    (hfree : m.Untouched k) {a : α} (hx : ComesTo g p m a n)
    (hagree : k.shared.tokens.Agree n.shared.tokens) : ∃ n', ComesTo g p k a n' := by
  obtain ⟨l, hl, hnl⟩ := plain_comesTo hg hp hm hx
  have hrelated : Related g sc false false m k :=
    .plain hm.scene hk.scene (congrArg Cursor.offset hfree.cursor) hfree.tokens
  obtain ⟨n', hn', -⟩ :=
    comesTo_of_plain hg hp hrelated hl (hagree.of_within (hnl.back (.inl hmemo)))
  exact (comesTo_iff_plain hg hp hk).2 ⟨n', hn'⟩

/-- The answer is in the memo, so a second test would give it, and a match does what that says. -/
theorem exists_match_of_test (hm : Lives g sc m)
    (h : ComesTo g (ask (.test id)) m (.ok true) n) :
    ∃ node l, ComesTo g (matchRule ⟨id, none⟩) n (.ok node) l := by
  have hn := lives_comesTo hg hmemo (stays_test view sc id) hm h
  have hagain := (comesTo_test_of_recall (recall?_of_test hmemo h)).2 ⟨rfl, rfl⟩
  obtain ⟨outcome, l, hl, hverdict⟩ := (test_iff_match hg hn id _).1 ⟨_, hagain⟩
  obtain ⟨node, rfl⟩ := ok_of_verdict hverdict
  exact ⟨node, l, hl⟩

theorem isFatal_of_testAny {ids : List String} {e : Error} (hm : Lives g sc m)
    (h : ComesTo g (testAny ids) m (.error e) n) : e.isFatal := by
  induction ids generalizing m with
  | nil => cases (comesTo_done.1 h).1
  | cons id ids ih =>
    obtain ⟨found, k, hk, h⟩ := comesTo_testAny_cons.1 h
    match found with
    | .error e' =>
      cases h.1
      obtain ⟨outcome, l, -, hverdict⟩ := (test_iff_match hg hm id _).1 ⟨k, hk⟩
      exact isFatal_of_verdict hverdict
    | .ok true => cases h.1
    | .ok false => exact ih (lives_comesTo hg hmemo (stays_test view sc id) hm hk) h

end

/-- How a choice ends at `k`, as its tests tell: by a match of the first rule that they say yes to,
with no rule found where it began, or by a fatal error of a test. -/
inductive Chooses (g : Setting N σ) (ids : List String) (k : Machine σ) :
    Except Error N → Machine σ → Prop where
  | found {before after : List String} {id : String} {node : N} {j l n : Machine σ}
    (hids : ids = before ++ id :: after) (hbefore : ComesTo g (testAny before) k (.ok none) j)
    (htest : ComesTo g (ask (.test id)) j (.ok true) l) (hfree : k.Untouched l)
    (hmatch : ComesTo g (matchRule ⟨id, none⟩) l (.ok node) n)
    (hthere : ∀ outcome n', ComesTo g (matchRule ⟨id, none⟩) k outcome n' →
      l.shared.tokens.Agree n'.shared.tokens → outcome = .ok node) : Chooses g ids k (.ok node) n
  | nothing {n : Machine σ} (htests : ComesTo g (testAny ids) k (.ok none) n)
    (hfree : k.Untouched n) : Chooses g ids k (.error ⟨.expected ids, some k.position⟩) n
  | fatal {e : Error} {n : Machine σ} (htests : ComesTo g (testAny ids) k (.error e) n)
    (hfree : k.Untouched n) (he : e.isFatal) : Chooses g ids k (.error e) n

section
variable (hg : g.Steady view sc.skipper?) (hmemo : g.memoizes = true) (hk : Lives g sc k)
variable {ids : List String}
include hg hmemo hk

theorem chooses_of_found {l : Machine σ} (h : ComesTo g (testAny ids) k (.ok (some id)) l) :
    ∃ node n, ComesTo g (matchRule ⟨id, none⟩) l (.ok node) n ∧ Chooses g ids k (.ok node) n := by
  have hfree := untouched_of_testAny hg.keeps h
  have hl := lives_comesTo hg hmemo (stays_testAny view sc ids) hk h
  obtain ⟨before, after, j, hids, hj, htest⟩ := comesTo_testAny_some.1 h
  have hlives := lives_comesTo hg hmemo (stays_testAny view sc before) hk hj
  obtain ⟨node, n, hn⟩ := exists_match_of_test hg hmemo hlives htest
  refine ⟨node, n, hn, .found hids hj htest hfree hn ?_⟩
  intro outcome n' hn' hagree
  obtain ⟨_, hx⟩ :=
    comesTo_of_untouched hg hmemo (stays_matchRule view sc id) hk hl hfree hn' hagree
  exact (hx.unique hn).1

theorem comesTo_matchAny {outcome : Except Error N} :
    ComesTo g (matchAny ids) k outcome n ↔ Chooses g ids k outcome n := by
  rw [matchAny, matchFirst_eq, comesTo_bind]
  constructor
  · rintro ⟨answer, l, hl, hx⟩
    have hfree := untouched_of_testAny hg.keeps hl
    match answer with
    | .error e =>
      obtain ⟨rfl, rfl⟩ := comesTo_done.1 hx
      exact .fatal hl hfree (isFatal_of_testAny hg hmemo hk hl)
    | .ok none =>
      obtain ⟨rfl, rfl⟩ := comesTo_nothing.1 hx
      have hposition : n.position = k.position := congrArg Cursor.position hfree.cursor
      rw [hposition]
      exact .nothing hl hfree
    | .ok (some id) =>
      obtain ⟨node, l', hnode, hchooses⟩ := chooses_of_found hg hmemo hk hl
      obtain ⟨rfl, rfl⟩ := hnode.unique hx
      exact hchooses
  · intro h
    cases h with
    | found hids hbefore htest hfree hmatch hthere =>
      have htests := comesTo_testAny_some.2 ⟨_, _, _, hids, hbefore, htest⟩
      exact ⟨_, _, htests, hmatch⟩
    | nothing htests hfree =>
      have hposition : k.position = n.position := congrArg Cursor.position hfree.cursor.symm
      refine ⟨_, _, htests, comesTo_nothing.2 ⟨?_, rfl⟩⟩
      rw [hposition]
    | fatal htests hfree he => exact ⟨_, _, htests, comesTo_done.2 ⟨rfl, rfl⟩⟩

theorem exists_matchAny_of_testAny {answer : Except Error (Option String)}
    (h : ComesTo g (testAny ids) k answer n) : ∃ outcome l, ComesTo g (matchAny ids) k outcome l := by
  match answer with
  | .error e =>
    have hfree := untouched_of_testAny hg.keeps h
    have hfatal := isFatal_of_testAny hg hmemo hk h
    exact ⟨_, _, (comesTo_matchAny hg hmemo hk).2 (.fatal h hfree hfatal)⟩
  | .ok none =>
    have hfree := untouched_of_testAny hg.keeps h
    exact ⟨_, _, (comesTo_matchAny hg hmemo hk).2 (.nothing h hfree)⟩
  | .ok (some id) =>
    obtain ⟨node, l, -, hchooses⟩ := chooses_of_found hg hmemo hk h
    exact ⟨_, _, (comesTo_matchAny hg hmemo hk).2 hchooses⟩

end

/-- In a session that stays under one skipper, wherever it comes to, a test says whether a match from
there succeeds, and a test of rules in a row whether matches of these one behind the other do. So a
choice ends as its tests tell, and the rule they have found does not fail it. The session begins with
an empty memo, be it after a skipper was set. -/
theorem tests_predict_matches (hg : g.Steady view m.parser.skipper?) (hmemo : g.memoizes = true)
    (hm : m.parser.cursor.Sound) (hempty : m.parser.memo = .empty) {p : Program N σ α}
    (hp : p.Dwells view g.disk m.scene)
    (hk : (∃ s, Meets g depth 0 p m s ∧ s.machine = k) ∨ ∃ a, run g depth α p m = .ok a k) :
    (∀ ids answer, (∃ n, ComesTo g (ask (.testAll ids)) k answer n) ↔
      Answers g (matchAll ids) k answer) ∧
    (∀ id answer, (∃ n, ComesTo g (ask (.test id)) k answer n) ↔
      Answers g (matchRule ⟨id, none⟩) k answer) ∧
    ∀ ids, (∀ outcome n, ComesTo g (matchAny ids) k outcome n ↔ Chooses g ids k outcome n) ∧
      ∀ answer l, ComesTo g (testAny ids) k answer l →
        ∃ outcome n, ComesTo g (matchAny ids) k outcome n := by
  have hbegin : Lives g m.scene m := .of_empty hm hempty
  have hlives : Lives g m.scene k := by
    rcases hk with ⟨s, hs, rfl⟩ | ⟨a, hx⟩
    · exact lives_of_meets hg hmemo hs hp hbegin
    · exact (lives_run hg hmemo hp hbegin).ok hx
  refine ⟨testAll_iff_matchAll hg hlives, test_iff_match hg hlives, ?_⟩
  intro ids
  exact ⟨fun outcome n => comesTo_matchAny hg hmemo hlives,
    fun answer l hl => exists_matchAny_of_testAny hg hmemo hlives hl⟩

/-- A pair of words is matched behind a test of it. -/
theorem tests_predict_matches_pair :
    ∃ n, run pairSetting 4 _ (ask (.test "pair")) (beginning "abab") = .ok (.ok true) n ∧
      Answers pairSetting (matchRule ⟨"pair", none⟩) n (.ok true) := by
  have hp : (ask (.test "pair")).Dwells pairView pairSetting.disk (beginning "abab").scene :=
    ⟨trivial, fun _ _ => trivial⟩
  obtain ⟨n, hn⟩ : ∃ n, run pairSetting 4 _ (ask (.test "pair")) (beginning "abab") =
      .ok (.ok true) n := ⟨_, rfl⟩
  have hagain := (comesTo_test_of_recall (recall?_of_test rfl ⟨4, hn⟩)).2 ⟨rfl, rfl⟩
  exact ⟨n, hn, ((tests_predict_matches steady_pair rfl (Cursor.sound_atStart _) rfl hp
    (.inr ⟨_, hn⟩)).2.1 "pair" (.ok true)).1 ⟨_, hagain⟩⟩

end Engine

end Packrat
