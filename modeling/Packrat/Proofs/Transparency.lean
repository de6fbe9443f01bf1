import Packrat.Proofs.Simulation

/-! The memo cannot be seen: what steady programs come to, and where, is the same without it. -/

namespace Packrat
set_option autoImplicit false

namespace Engine
open Packrat.Action Machine
variable {N σ : Type} {g : Setting N σ} {view : View N σ} {sc : Scene} {b b' : Bool}
variable {depth : Nat} {m m' n n' : Machine σ}

/-- Steady programs run with so many levels are followed. -/
def Followed (g : Setting N σ) (view : View N σ) (sc : Scene) (b b' : Bool) (depth : Nat) : Prop :=
  ∀ {β : Type} {p : Program N σ β} {gives : β → Prop} {m m' : Machine σ},
    p.Stays view sc.skipper? sc.Known gives → Related g sc b b' m m' →
    Follows (Related g sc b b') (run (g.memoized b) depth β p)
      (fun d => run (g.memoized b') d β p) m m' gives

theorem follows_addToken (h : Related g sc b b' m m') (id literal : String) :
    Follows (Related g sc b b') (addToken id literal) (fun _ => addToken id literal) m m'
      fun _ => True := by
  unfold Follows
  rw [ends_addToken]
  cases hm : m.shared.tokens.literal? id with
  | some known =>
    intro _
    refine ⟨trivial, m', ⟨0, fun _ _ => eq_ok_iff_ends.2 (ends_addToken.2 ?_)⟩, h,
      fun _ _ => .inl⟩
    rw [h.tokens id known hm]
    exact ⟨rfl, rfl⟩
  | none =>
    intro hagree
    have hlast : (m.register id literal).shared.tokens.literal? id = some literal :=
      Tokens.literal?_add_of_none hm
    cases hm' : m'.shared.tokens.literal? id with
    | some known =>
      obtain rfl : known = literal := hagree id known literal hm' hlast
      refine ⟨trivial, m', ⟨0, fun _ _ => eq_ok_iff_ends.2 (ends_addToken.2 ?_)⟩,
        h.register_left hm hm', fun _ _ => .inl⟩
      rw [hm']
      exact ⟨rfl, rfl⟩
    | none =>
      refine ⟨trivial, m'.register id literal,
        ⟨0, fun _ _ => eq_ok_iff_ends.2 (ends_addToken.2 ?_)⟩, h.register hm hm',
        Tokens.inEither_add hm' hlast⟩
      rw [hm']
      exact ⟨rfl, rfl⟩

theorem follows_resolve (h : Related g sc b b' m m') (id : String) :
    Follows (Related g sc b b') (resolve (g.memoized b) id) (fun _ => resolve (g.memoized b') id)
      m m' fun _ => True := by
  simp only [resolve, Setting.memoized]
  by_cases hrule : g.grammar.rules.contains id
  · simp only [hrule, if_true]
    exact .step rfl (fun _ => rfl) trivial h rfl
  · simp only [hrule]
    exact follows_addToken h id id

theorem follows_invoke (hg : g.Steady view sc.skipper?) (C : Followed g view sc b b' depth)
    (h : Related g sc b b' m m') (r : Resolved) (params : Params) :
    Follows (Related g sc b b') (invoke (g.memoized b) (run (g.memoized b) depth) r params)
      (fun d => invoke (g.memoized b') (run (g.memoized b') d) r params) m m'
      (Outcome sc.Known (view.Node sc.Known)) := by
  simp only [invoke_eq]
  exact C (hg.body sc.Known r params) h

theorem follows_resolveAndInvoke (hg : g.Steady view sc.skipper?)
    (C : Followed g view sc b b' depth) (h : Related g sc b b' m m') (id : String)
    (params : Params) :
    Follows (Related g sc b b')
      (resolveAndInvoke (g.memoized b) (run (g.memoized b) depth) id params)
      (fun d => resolveAndInvoke (g.memoized b') (run (g.memoized b') d) id params) m m'
      (Outcome sc.Known (view.Node sc.Known)) := by
  apply (follows_resolve h id).bind
  · intro r n
    rw [invoke_eq]
    exact grows_run _ depth _ n
  · intro r n n' _ hn
    exact follows_invoke hg C hn r params

theorem within_unknown (h : m.In sc) (cause : Error.Cause) :
    Error.Within sc.Known ⟨cause, some m.position⟩ := by
  intro p hp
  cases hp
  exact h.known

theorem follows_skip (hg : g.Steady view sc.skipper?) (C : Followed g view sc b b' depth)
    (h : Related g sc b b' m m') (id? : Option String) :
    Follows (Related g sc b b') (skip (g.memoized b) (run (g.memoized b) depth) id?)
      (fun d => skip (g.memoized b') (run (g.memoized b') d) id?) m m'
      (Outcome sc.Known fun _ => True) := by
  refine Follows.pre (c := m.parser) (e := m'.parser) rfl rfl rfl ?_
  rw [h.left.skipper, h.right.skipper]
  cases id?.or sc.skipper? with
  | none => exact .step rfl (fun _ => rfl) trivial h rfl
  | some id =>
    dsimp only [Setting.memoized]
    cases hs : g.grammar.skippers[id]? with
    | none =>
      refine .step rfl ?_ (within_unknown h.left _) h rfl
      intro d
      exact eq_ok_iff_ends.2 (ends_bind.2 ⟨by rw [h.cursor], rfl⟩)
    | some skipper =>
      refine .pre (c := m.snapshot) (e := m'.snapshot) rfl rfl rfl ?_
      apply (C ((hg.grammar sc.Known).skipper id skipper hs) h).bind
      · intro outcome n
        cases outcome with
        | ok skipped => exact Grows.refl n
        | error e =>
          dsimp only
          split
          · exact Grows.refl n
          · exact (continues_restore n _).toGrows
      · intro outcome n n' houtcome hn
        cases outcome with
        | ok skipped => exact .step rfl (fun _ => rfl) trivial hn rfl
        | error e =>
          dsimp only
          split
          · exact .step rfl (fun _ => rfl) houtcome hn rfl
          · exact .step rfl (fun _ => rfl) trivial (h.rollback hn) rfl

theorem follows_runAll (hg : g.Steady view sc.skipper?) (C : Followed g view sc b b' depth)
    (h : Related g sc b b' m m') (ids : List String) :
    Follows (Related g sc b b') (runAll (g.memoized b) (run (g.memoized b) depth) ids)
      (fun d => runAll (g.memoized b') (run (g.memoized b') d) ids) m m'
      (Outcome sc.Known fun _ => True) := by
  induction ids generalizing m m' with
  | nil => exact .step rfl (fun _ => rfl) trivial h rfl
  | cons id ids ih =>
    simp only [runAll]
    apply (follows_resolveAndInvoke hg C h id []).bind
    · intro outcome n
      cases outcome with
      | ok node => exact grows_runAll _ depth ids n
      | error e => exact Grows.refl n
    · intro outcome n n' houtcome hn
      cases outcome with
      | ok node => exact ih hn
      | error e => exact .step rfl (fun _ => rfl) houtcome hn rfl

theorem follows_testAll (hg : g.Steady view sc.skipper?) (C : Followed g view sc b b' depth)
    (h : Related g sc b b' m m') (ids : List String) :
    Follows (Related g sc b b') (testAll (g.memoized b) (run (g.memoized b) depth) ids)
      (fun d => testAll (g.memoized b') (run (g.memoized b') d) ids) m m'
      (Outcome sc.Known fun _ => True) := by
  refine .pre (c := m.snapshot) (e := m'.snapshot) rfl rfl rfl ?_
  apply (follows_runAll hg C h ids).bind
  · intro outcome n
    exact (continues_restore n _).toGrows
  · intro outcome n n' houtcome hn
    exact .step rfl (fun _ => rfl) (within_verdict houtcome) (h.rollback hn) rfl

theorem follows_matchWith (hg : g.Steady view sc.skipper?) (C : Followed g view sc b b' depth)
    (h : Related g sc b b' m m') {ref : RuleRef} (href : ref.skipper? = none) (params : Params) :
    Follows (Related g sc b b') (matchWith (g.memoized b) (run (g.memoized b) depth) ref params)
      (fun d => matchWith (g.memoized b') (run (g.memoized b') d) ref params) m m'
      (Outcome sc.Known (view.Node sc.Known)) := by
  have hmatching := h.count (fun s => { s with runs := s.runs + 1 })
    fun s => { s with runs := s.runs + 1 }
  unfold matchWith
  rw [href]
  exact .pre (c := ()) (e := ()) rfl rfl rfl
    (follows_resolveAndInvoke hg C hmatching ref.id params)

theorem follows_setSkipper (h : Related g sc b b' m m') {id? : Option String}
    (hid : id? = none ∨ id? = some "") :
    Follows (Related g sc b b') (setSkipper (g.memoized b) (run (g.memoized b) depth) id?)
      (fun d => setSkipper (g.memoized b') (run (g.memoized b') d) id?) m m'
      fun outcome => outcome = .ok sc.skipper? := by
  have hx : setSkipper (g.memoized b) (run (g.memoized b) depth) id? m =
      .ok (.ok m.parser.skipper?) m :=
    eq_ok_iff_ends.2 ((ends_setSkipper_of_empty hid).2 ⟨rfl, rfl⟩)
  have hy (d : Nat) : setSkipper (g.memoized b') (run (g.memoized b') d) id? m' =
      .ok (.ok m'.parser.skipper?) m' :=
    eq_ok_iff_ends.2 ((ends_setSkipper_of_empty hid).2 ⟨rfl, rfl⟩)
  refine .look hx hy ?_ ?_ h
  · rw [h.left.skipper, h.right.skipper]
  · rw [h.left.skipper]

theorem follows_runSkipper (hg : g.Steady view sc.skipper?) (C : Followed g view sc b b' depth)
    (h : Related g sc b b' m m') (id : String) :
    Follows (Related g sc b b') (reply (g.memoized b) (run (g.memoized b) depth) (.runSkipper id))
      (fun d => reply (g.memoized b') (run (g.memoized b') d) (.runSkipper id)) m m'
      fun outcome? => ∀ outcome ∈ outcome?, Outcome sc.Known (fun _ => True) outcome := by
  simp only [reply, Setting.memoized]
  cases hs : g.grammar.skippers[id]? with
  | none =>
    refine .step rfl (fun _ => rfl) ?_ h rfl
    intro outcome ho
    cases ho
  | some skipper =>
    apply (C ((hg.grammar sc.Known).skipper id skipper hs) h).bind
    · intro outcome n
      exact Grows.refl n
    · intro outcome n n' houtcome hn
      refine .step rfl (fun _ => rfl) ?_ hn rfl
      intro o ho
      cases ho
      exact houtcome

theorem follows_reading (h : Related g sc b b' m m') {c : Call σ}
    {u : Cursor → Except Fault (c.Reply N × Cursor)} (hu : c.reading? = some u) :
    Follows (Related g sc b b') (reply (g.memoized b) (run (g.memoized b) depth) c)
      (fun d => reply (g.memoized b') (run (g.memoized b') d) c) m m' fun _ => True := by
  cases hr : u m.parser.cursor with
  | ok r =>
    obtain ⟨a, cursor⟩ := r
    have hreads := Cursor.reads_of_reading hu hr
    have hx : reply (g.memoized b) (run (g.memoized b) depth) c m = .ok a (m.withCursor cursor) := by
      rw [eq_ok_iff_ends, ends_reading hu, hr]
      exact ⟨rfl, rfl⟩
    have hy (d : Nat) : reply (g.memoized b') (run (g.memoized b') d) c m' =
        .ok a (m'.withCursor cursor) := by
      rw [eq_ok_iff_ends, ends_reading hu, h.cursor, hr]
      exact ⟨rfl, rfl⟩
    exact .step hx hy trivial
      (h.withCursor (hreads.sound h.left.sound) (hreads.source.trans h.left.source)) rfl
  | error why =>
    have hy (d : Nat) : reply (g.memoized b') (run (g.memoized b') d) c m' =
        .error (.fault why) m' := by
      rw [eq_error_iff_ends, ends_reading hu, h.cursor, hr]
      exact ⟨rfl, rfl⟩
    unfold Follows
    rw [ends_reading hu, hr]
    intro _ _
    exact ⟨m', ⟨0, fun d _ => hy d⟩, h.cursor⟩

/-! Tests. -/

theorem eventually_plainTest {rule : String} {outcome : Except Error Bool}
    (h : plainTest g rule depth m = .ok outcome n) :
    Eventually (plainTest g rule) m (.ok outcome n) := by
  refine ⟨depth, ?_⟩
  intro d hd
  have hask := (congrFun (run_ask (g := g.memoized false) depth (.test rule)) m).trans h
  exact (congrFun (run_ask (g := g.memoized false) d (.test rule)) m).symm.trans
    (run_ok_mono (Nat.succ_le_succ hd) hask)

theorem eventually_plainTest_error {rule : String} {why : Fault}
    (h : plainTest g rule depth m = .error (.fault why) n) :
    Eventually (plainTest g rule) m (.error (.fault why) n) := by
  refine ⟨depth, ?_⟩
  intro d hd
  have hask := (congrFun (run_ask (g := g.memoized false) depth (.test rule)) m).trans h
  exact (congrFun (run_ask (g := g.memoized false) d (.test rule)) m).symm.trans
    (run_fault_mono (Nat.succ_le_succ hd) hask)

theorem untouched_plainTest (hg : g.KeepsSessions) {rule : String} {outcome : Except Error Bool}
    (h : plainTest g rule depth m = .ok outcome n) : m.Untouched n :=
  (untouched_test (hg.memoized false) (runsGrow_run (hg.memoized false) depth) rule m).ok h

/-- Tests without a memo are followed by tests without a memo. -/
def Replayed (g : Setting N σ) (sc : Scene) : Prop :=
  ∀ depth rule (m m' : Machine σ), Related g sc false false m m' →
    Follows (Related g sc false false) (plainTest g rule depth) (plainTest g rule) m m'
      fun _ => True

/-- One outcome settles a test. -/
theorem settled_of_plainTest (hg : g.KeepsSessions) (hreplay : Replayed g sc) (hm : m.In sc)
    {rule : String} {matched : Bool} (h : plainTest g rule depth m = .ok (.ok matched) n) :
    Settled g sc n.shared.tokens m.parser.cursor.offset rule matched := by
  intro k hk hoffset ht
  have hrelated : Related g sc false false m k :=
    .plain hm hk hoffset (Tokens.Within.trans (untouched_plainTest hg h).tokens ht)
  obtain ⟨-, n', hn', -, hin⟩ := (hreplay depth rule m k hrelated).ok h ht.agree
  exact ⟨n', hn', hin.within ht⟩

theorem eventually_test_of_miss {rule : String} {outcome : Except Error N}
    (hm : g.recall? m rule = none)
    (h : Eventually (fun d => resolveAndInvoke g (run g d) rule []) m.testing (.ok outcome n)) :
    Eventually (fun d => test g (run g d) rule) m
      (.ok (verdict outcome) (n.tested m.snapshot rule (verdict outcome))) := by
  obtain ⟨depth, hr⟩ := h
  refine ⟨depth, ?_⟩
  intro d hd
  exact test_of_miss hm (hr d hd)

theorem eventually_test_of_miss_error {rule : String} {why : Halt} (hm : g.recall? m rule = none)
    (h : Eventually (fun d => resolveAndInvoke g (run g d) rule []) m.testing (.error why n)) :
    Eventually (fun d => test g (run g d) rule) m (.error why n) := by
  obtain ⟨depth, hr⟩ := h
  refine ⟨depth, ?_⟩
  intro d hd
  exact test_of_miss_error hm (hr d hd)

/-- The memo of the first answers. -/
theorem follows_test_of_left (hg : g.KeepsSessions) (h : Related g sc true false m m')
    {rule : String} {matched : Bool} (hm : (g.memoized true).recall? m rule = some matched) :
    Follows (Related g sc true false) (test (g.memoized true) (run (g.memoized true) depth) rule)
      (plainTest g rule) m m' (Outcome sc.Known fun _ => True) := by
  unfold Follows
  rw [ends_test_of_recall hm]
  intro _
  have hvalid := h.validLeft rfl
  obtain ⟨n', ⟨d, hd⟩, hn'⟩ :=
    hvalid _ _ _ hm m' h.right (congrArg Cursor.offset h.cursor) h.tokens
  have hfree := untouched_plainTest hg (hd d (Nat.le_refl d))
  refine ⟨trivial, n', ⟨d, hd⟩, ?_, hn'.in_either _⟩
  exact {
    left := h.left.untouched (untouched_hit m rule matched)
    right := h.right.untouched hfree
    cursor := hfree.cursor.trans h.cursor
    tokens := h.tokens.trans hfree.tokens
    back := fun _ => hn'.trans (h.back (.inl rfl))
    validLeft := fun _ => hvalid
    validRight := fun hb => by simp at hb }

/-- The memo of the second answers. -/
theorem follows_test_of_right (hg : g.KeepsSessions) (h : Related g sc false true m m')
    {rule : String} {matched : Bool} (hm' : (g.memoized true).recall? m' rule = some matched) :
    Follows (Related g sc false true) (plainTest g rule depth)
      (fun d => test (g.memoized true) (run (g.memoized true) d) rule) m m'
      (Outcome sc.Known fun _ => True) := by
  have hvalid := h.validRight rfl
  have hback := h.back (.inr rfl)
  obtain ⟨k, hk, hwithin⟩ := hvalid _ _ _ hm' m h.left (congrArg Cursor.offset h.cursor.symm) hback
  apply ends_iff.2
  constructor
  · intro outcome n hx _
    cases hk.unique (eventually_plainTest hx)
    have hfree := untouched_plainTest hg hx
    refine ⟨trivial, m'.hit rule matched, ⟨0, fun d _ => test_of_recall hm'⟩, ?_, fun _ _ => .inl⟩
    exact {
      left := h.left.untouched hfree
      right := h.right.untouched (untouched_hit m' rule matched)
      cursor := h.cursor.trans hfree.cursor.symm
      tokens := hwithin.trans h.tokens
      back := fun _ => hback.trans hfree.tokens
      validLeft := fun hb => by simp at hb
      validRight := fun _ => hvalid }
  · intro why n hx hwhy _
    cases why with
    | tooDeep => exact absurd rfl hwhy
    | fault why => cases hk.unique (eventually_plainTest_error hx)

/-- Neither memo answers. One of the two tests has no memo, so its outcome settles what the other
keeps. -/
theorem follows_test_of_miss (hg : g.Steady view sc.skipper?) (hreplay : b ∨ b' → Replayed g sc)
    (hb : ¬(b ∧ b')) (C : Followed g view sc b b' depth) (h : Related g sc b b' m m')
    {rule : String} (hm : (g.memoized b).recall? m rule = none)
    (hm' : (g.memoized b').recall? m' rule = none) :
    Follows (Related g sc b b') (test (g.memoized b) (run (g.memoized b) depth) rule)
      (fun d => test (g.memoized b') (run (g.memoized b') d) rule) m m'
      (Outcome sc.Known fun _ => True) := by
  have hbody := follows_resolveAndInvoke hg C
    (h.count (fun s => { s with tests := s.tests + 1 }) fun s => { s with tests := s.tests + 1 })
    rule []
  unfold Follows
  rw [ends_test_of_miss hm]
  apply ends_iff.2
  constructor
  · intro outcome n hx
    have htest := test_of_miss hm hx
    have hends := hbody.ok hx
    have hwithin (houtcome : Outcome sc.Known (view.Node sc.Known) outcome) :=
      within_verdict houtcome
    cases hverdict : verdict outcome with
    | error e =>
      intro ht
      obtain ⟨houtcome, n', hy, hn, hin⟩ := hends ht
      have htest' := eventually_test_of_miss hm' hy
      have he := hwithin houtcome
      rw [hverdict] at htest' he
      exact ⟨he, _, htest', h.rollback hn, hin⟩
    | ok matched =>
      intro ht
      obtain ⟨houtcome, n', hy, hn, hin⟩ := hends ht
      have htest' := eventually_test_of_miss hm' hy
      rw [hverdict] at htest htest'
      refine ⟨trivial, _, htest', h.miss hn ?_ ?_, hin⟩
      · intro hleft
        obtain rfl : b' = false := by simpa [hleft] using hb
        obtain ⟨d, hd⟩ := htest'
        have hsettled := settled_of_plainTest hg.keeps (hreplay (.inl hleft)) h.right
          (hd d (Nat.le_refl d))
        rw [h.cursor] at hsettled
        exact hsettled.mono (hn.back (.inl hleft))
      · intro hright
        obtain rfl : b = false := by simpa [hright] using hb
        exact (settled_of_plainTest hg.keeps (hreplay (.inr hright)) h.left htest).mono hn.tokens
  · intro why n hx hwhy ht
    obtain ⟨n', hy, hn⟩ := hbody.error hx hwhy ht
    exact ⟨n', eventually_test_of_miss_error hm' hy, hn⟩

theorem follows_test (hg : g.Steady view sc.skipper?) (hreplay : b ∨ b' → Replayed g sc)
    (hb : ¬(b ∧ b')) (C : Followed g view sc b b' depth) (h : Related g sc b b' m m')
    (rule : String) :
    Follows (Related g sc b b') (test (g.memoized b) (run (g.memoized b) depth) rule)
      (fun d => test (g.memoized b') (run (g.memoized b') d) rule) m m'
      (Outcome sc.Known fun _ => True) := by
  cases hm : (g.memoized b).recall? m rule with
  | some matched =>
    obtain rfl : b = true := by
      cases b with
      | true => rfl
      | false => cases hm
    obtain rfl : b' = false := by simpa using hb
    exact follows_test_of_left hg.keeps h hm
  | none =>
    cases hm' : (g.memoized b').recall? m' rule with
    | some matched =>
      obtain rfl : b' = true := by
        cases b' with
        | true => rfl
        | false => cases hm'
      obtain rfl : b = false := by simpa using hb
      exact follows_test_of_right hg.keeps h hm'
    | none => exact follows_test_of_miss hg hreplay hb C h hm hm'

theorem follows_reply (hg : g.Steady view sc.skipper?) (hreplay : b ∨ b' → Replayed g sc)
    (hb : ¬(b ∧ b')) (C : Followed g view sc b b' depth) (h : Related g sc b b' m m')
    {c : Call σ} (hc : c.Steady sc.skipper?) (hnames : view.Names sc.Known c) :
    Follows (Related g sc b b') (reply (g.memoized b) (run (g.memoized b) depth) c)
      (fun d => reply (g.memoized b') (run (g.memoized b') d) c) m m'
      fun a => c.TellsSkipper sc.skipper? a ∧ view.Tells sc.Known c a := by
  cases c with
  | peek | next | rest | startsWith | eat | eatWhile | eatRegex | advance =>
    exact (follows_reading h rfl).imp fun _ _ => ⟨trivial, trivial⟩
  | atEnd => exact .look rfl (fun _ => rfl) (congrArg Cursor.atEnd h.cursor) ⟨trivial, trivial⟩ h
  | position => exact .look rfl (fun _ => rfl) h.position_eq ⟨trivial, h.left.known⟩ h
  | skipper =>
    exact .look rfl (fun _ => rfl) (h.right.skipper.trans h.left.skipper.symm)
      ⟨h.left.skipper, trivial⟩ h
  | directory =>
    exact .look rfl (fun _ => rfl) (h.right.directory.trans h.left.directory.symm)
      ⟨trivial, trivial⟩ h
  | hasRule | hasSkipper | ruleNames | skipperNames =>
    exact .look rfl (fun _ => rfl) rfl ⟨trivial, trivial⟩ h
  | moveTo p => exact .step rfl (fun _ => rfl) ⟨trivial, trivial⟩ (h.moveTo hnames) rfl
  | restore s => exact .step rfl (fun _ => rfl) ⟨trivial, trivial⟩ (h.restore hnames hc) rfl
  | resolve id => exact (follows_resolve h id).imp fun _ _ => ⟨trivial, trivial⟩
  | addToken id literal => exact (follows_addToken h id literal).imp fun _ _ => ⟨trivial, trivial⟩
  | invoke r params => exact (follows_invoke hg C h r params).imp fun _ ha => ⟨trivial, ha⟩
  | matchWith ref params =>
    exact (follows_matchWith hg C h hc params).imp fun _ ha => ⟨trivial, ha⟩
  | test id => exact (follows_test hg hreplay hb C h id).imp fun _ ha => ⟨trivial, ha⟩
  | testAll ids => exact (follows_testAll hg C h ids).imp fun _ ha => ⟨trivial, ha⟩
  | skip id? => exact (follows_skip hg C h id?).imp fun _ ha => ⟨trivial, ha⟩
  | runSkipper id => exact (follows_runSkipper hg C h id).imp fun _ ha => ⟨trivial, ha⟩
  | setSkipper id? =>
    refine (follows_setSkipper h hc).imp fun outcome ha => ⟨ha, ?_⟩
    rw [ha]
    trivial
  | make kind p =>
    exact .step rfl (fun _ => rfl) ⟨trivial, hg.make _ kind p hnames⟩ (h.emit _ _) rfl
  | note label => exact .step rfl (fun _ => rfl) ⟨trivial, trivial⟩ (h.emit _ _) rfl
  | halt why => exact fun _ _ => ⟨m', ⟨0, fun _ _ => rfl⟩, h.cursor⟩
  | read | readText | start | parseBelow | parseTextBelow | gauge | consult => exact hc.elim

theorem followed (hg : g.Steady view sc.skipper?) (hreplay : b ∨ b' → Replayed g sc)
    (hb : ¬(b ∧ b')) (depth : Nat) : Followed g view sc b b' depth := by
  induction depth with
  | zero =>
    intro β p gives m m' _ _ hwhy
    exact absurd rfl hwhy
  | succ depth ih =>
    intro β p gives m m' hp h
    -- Whatever is followed with one level more is followed.
    apply Follows.of_succ
    induction p generalizing m m' with
    | done a => exact .step rfl (fun _ => rfl) hp h rfl
    | call c next ihp =>
      obtain ⟨⟨hc, hnames⟩, hnext⟩ := hp
      apply (follows_reply hg hreplay hb ih h hc hnames).bind
      · intro a n
        exact grows_run _ (depth + 1) (next a) n
      · intro a n n' ha hn
        exact ihp a (hnext a ha) hn

theorem replayed (hg : g.Steady view sc.skipper?) : Replayed g sc := by
  intro depth rule m m' h
  have hnone : false = true ∨ false = true → Replayed g sc := by simp
  have hb : ¬(false = true ∧ false = true) := by simp
  have C : Followed g view sc false false depth := followed hg hnone hb depth
  apply (follows_test hg hnone hb C h rule).imp
  intro outcome _
  trivial

/-- Where the one of two runs ends, the other one does, if one of them has an empty memo and the
other has none. -/
theorem follows_run (hg : g.Steady view sc.skipper?) (b b' : Bool) (hb : ¬(b ∧ b')) {α : Type}
    {p : Program N σ α} {gives : α → Prop} (hp : p.Stays view sc.skipper? sc.Known gives)
    (hm : m.In sc) (hmemo : m.parser.memo = .empty) (depth : Nat) :
    Ends (run (g.memoized b) depth α p) m
      (fun a n => ∃ d n', run (g.memoized b') d α p m = .ok a n' ∧
        n'.parser.cursor = n.parser.cursor)
      (fun why n => why ≠ .tooDeep → ∃ d n', run (g.memoized b') d α p m = .error why n' ∧
        n'.parser.cursor = n.parser.cursor) := by
  have hvalid : Valid g sc m := by
    intro offset rule matched hget
    rw [hmemo, Memo.get?_empty] at hget
    cases hget
  have hrelated : Related g sc b b' m m :=
    ⟨hm, hm, rfl, .refl _, fun _ => .refl _, fun _ => hvalid, fun _ => hvalid⟩
  have hfollows := followed hg (fun _ => replayed hg) hb depth hp hrelated
  have hgrows := grows_run (g.memoized b) depth p m
  apply ends_iff.2
  constructor
  · intro a n hx
    have hwithin : m.shared.tokens.Within n.shared.tokens := (hgrows.ok hx).tokens
    obtain ⟨-, n', ⟨d, hd⟩, hn, -⟩ := hfollows.ok hx hwithin.agree.symm
    exact ⟨d, n', hd d (Nat.le_refl d), hn.cursor⟩
  · intro why n hx hwhy
    have hwithin : m.shared.tokens.Within n.shared.tokens := (hgrows.error hx).tokens
    obtain ⟨n', ⟨d, hd⟩, hn⟩ := hfollows.error hx hwhy hwithin.agree.symm
    exact ⟨d, n', hd d (Nat.le_refl d), hn⟩

/-- From an empty memo, a steady program answers as it does where tests never look at the memo, at the
same cursor, and it runs into the same faults. It has an end, given levels enough, just if it has one
there. -/
theorem memo_is_transparent {α : Type} (hg : g.Steady view m.parser.skipper?) {p : Program N σ α}
    {gives : α → Prop} (hp : p.Stays view m.parser.skipper? m.scene.Known gives)
    (hm : m.parser.cursor.Sound) (hmemo : m.parser.memo = .empty) :
    (∀ a cursor,
      (∃ depth n, run (g.memoized true) depth α p m = .ok a n ∧ n.parser.cursor = cursor) ↔
      ∃ depth n, run (g.memoized false) depth α p m = .ok a n ∧ n.parser.cursor = cursor) ∧
    ∀ why cursor,
      (∃ depth n, run (g.memoized true) depth α p m = .error (.fault why) n ∧
        n.parser.cursor = cursor) ↔
      ∃ depth n, run (g.memoized false) depth α p m = .error (.fault why) n ∧
        n.parser.cursor = cursor := by
  have hscene : m.In m.scene := ⟨rfl, rfl, rfl, hm⟩
  have there (depth : Nat) := follows_run hg true false (by simp) hp hscene hmemo depth
  have back (depth : Nat) := follows_run hg false true (by simp) hp hscene hmemo depth
  constructor
  · intro a cursor
    constructor
    · rintro ⟨depth, n, hx, rfl⟩
      exact (there depth).ok hx
    · rintro ⟨depth, n, hx, rfl⟩
      exact (back depth).ok hx
  · intro why cursor
    constructor
    · rintro ⟨depth, n, hx, rfl⟩
      exact (there depth).error hx (by simp)
    · rintro ⟨depth, n, hx, rfl⟩
      exact (back depth).error hx (by simp)

/-- Two words, of which the second is tried before it is matched. -/
def pair : Rule Position Unit := fun _ => do
  match ← Program.ask (.matchWith ⟨"word", none⟩ []) with
  | .error e => return .error e
  | .ok _ => Program.matchAny ["word"]

/-- Nodes are their positions. -/
def pairSetting : Setting Position Unit where
  grammar := (Grammar.empty.rule "word" fun _ => Program.token "ab").rule "pair" pair
  make _ p := p
  disk := .empty
  memoizes := true

def pairView : View Position Unit where
  node a p := p = a
  outside _ _ := False

theorem stays_matchAny {known : Position → Prop} (id : String) :
    (Program.matchAny [id]).Stays pairView none known (Outcome known (pairView.Node known)) := by
  refine ⟨⟨trivial, trivial⟩, ?_⟩
  intro outcome houtcome
  match outcome with
  | .error e => exact houtcome.2
  | .ok true =>
    refine ⟨⟨rfl, trivial⟩, ?_⟩
    intro outcome houtcome
    exact houtcome.2
  | .ok false =>
    refine ⟨⟨trivial, trivial⟩, ?_⟩
    intro p hp q hq
    cases hq
    exact hp.2

theorem steady_pair : pairSetting.Steady pairView none where
  keeps := by
    have hword := Setting.KeepsSessions.token pairSetting "ab"
    refine .insert_rule (.insert_rule .empty fun _ => hword) ?_
    intro params
    apply Program.Only.call trivial
    intro outcome
    cases outcome with
    | error e => trivial
    | ok node =>
      apply Program.Only.call trivial
      intro outcome
      match outcome with
      | .error e => trivial
      | .ok true =>
        apply Program.Only.call trivial
        intro node
        trivial
      | .ok false =>
        apply Program.Only.call trivial
        intro place
        trivial
  grammar known := by
    have hword := Setting.Steady.token pairView none known "ab"
    refine .insert_rule (.insert_rule .empty fun _ => hword) ?_
    intro params
    refine ⟨⟨rfl, trivial⟩, ?_⟩
    intro outcome houtcome
    cases outcome with
    | error e => exact houtcome.2
    | ok node => exact stays_matchAny "word"
  make known kind p hp := by
    intro q hq
    cases hq
    exact hp

/-- Where a run that gives a node comes to. -/
def landing? (x : Action σ (Except Error N)) (m : Machine σ) : Option Nat :=
  match x m with
  | .ok (.ok _) n => some n.parser.cursor.offset
  | _ => none

theorem exists_of_landing? {x : Action σ (Except Error N)} {offset : Nat}
    (h : landing? x m = some offset) :
    ∃ node n, x m = .ok (.ok node) n ∧ n.parser.cursor.offset = offset := by
  unfold landing? at h
  split at h
  · next node n hx => exact ⟨node, n, hx, Option.some.inj h⟩
  · cases h

theorem memo_is_transparent_pair :
    ∃ depth node n, run (pairSetting.memoized false) depth _ (Program.matchAny ["pair"])
        (beginning "abab") = .ok (.ok node) n ∧ n.parser.cursor.offset = 4 := by
  have hlanding : landing? (run (pairSetting.memoized true) 3 _ (Program.matchAny ["pair"]))
      (beginning "abab") = some 4 := by decide +kernel
  obtain ⟨node, n, hn, hoffset⟩ := exists_of_landing? hlanding
  obtain ⟨depth, k, hk, hcursor⟩ := ((memo_is_transparent steady_pair (stays_matchAny "pair")
    (Cursor.sound_atStart _) rfl).1 (Except.ok node) n.parser.cursor).1 ⟨3, n, hn, rfl⟩
  exact ⟨depth, node, k, hk, hcursor ▸ hoffset⟩

end Engine

end Packrat
