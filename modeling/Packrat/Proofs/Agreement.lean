import Packrat.Proofs.Invariant

/-! The operations of the engine agree on two ways to run programs if these agree on programs. -/

namespace Packrat
set_option autoImplicit false

namespace Engine
open Packrat.Action Machine
variable {N σ α : Type} {g : Setting N σ} {view : View N σ} {P : Call σ → Machine σ → Prop}

/-- Runs of programs that name known positions only agree, and the invariant is kept. -/
structure Concord (I : Invariant g view P) (s : Scope σ) (run run' : Runner N σ) : Prop where
  watched : ∃ why depth, run = runWhile g P why depth
  agrees : ∀ {β : Type} {p : Program N σ β} {gives : β → Prop} {m : Machine σ},
    p.Abides (view.Names I.known) (view.Tells I.known) gives → I.holds m →
    s.Agrees (run β p) (run' β p) m (fun a n => gives a ∧ I.holds n) I.faults

variable {I : Invariant g view P} {s : Scope σ} {run run' : Runner N σ} {m : Machine σ}

theorem Concord.grows_resolveAndInvoke (C : Concord I s run run') (id : String) (params : Params)
    (n : Machine σ) :
    Ends (resolveAndInvoke g run id params) n (fun _ k => n.Grows k) fun _ k => n.Grows k := by
  obtain ⟨why, depth, rfl⟩ := C.watched
  exact (tracks_resolveAndInvoke (upheld_growing g P n why depth) (.refl n) id params).ends

theorem Concord.grows_runAll (C : Concord I s run run') (ids : List String) (n : Machine σ) :
    Ends (runAll g run ids) n (fun _ k => n.Grows k) fun _ k => n.Grows k := by
  obtain ⟨why, depth, rfl⟩ := C.watched
  exact (tracks_runAll (upheld_growing g P n why depth) (.refl n) ids).ends

theorem Concord.grows_program (C : Concord I s run run') (p : Program N σ α) (n : Machine σ) :
    Ends (run α p) n (fun _ k => n.Grows k) fun _ k => n.Grows k := by
  obtain ⟨why, depth, rfl⟩ := C.watched
  exact grows_runWhile g P why depth p n

theorem agrees_invoke (C : Concord I s run run') (hm : I.holds m) (r : Resolved) (params : Params) :
    s.Agrees (invoke g run r params) (invoke g run' r params) m
      (fun outcome n => Outcome I.known (view.Node I.known) outcome ∧ I.holds n) I.faults := by
  rw [invoke_eq, invoke_eq]
  exact C.agrees (I.respects.body r params) hm

theorem agrees_resolveAndInvoke (C : Concord I s run run') (hm : I.holds m) (id : String)
    (params : Params) :
    s.Agrees (resolveAndInvoke g run id params) (resolveAndInvoke g run' id params) m
      (fun outcome n => Outcome I.known (view.Node I.known) outcome ∧ I.holds n) I.faults := by
  have hresolve := I.ends_resolve hm id
  apply Scope.Agrees.bind (.self hresolve)
  · intro r n
    rw [invoke_eq]
    exact C.grows_program _ n
  · intro r n hn
    exact agrees_invoke C hn r params

theorem within_failAt (hm : I.holds m) (cause : Error.Cause) :
    Error.Within I.known ⟨cause, some m.position⟩ := by
  intro p hp
  cases hp
  exact I.knows hm

theorem agrees_skip (C : Concord I s run run') (hm : I.holds m) (id? : Option String)
    (hback : ∀ {id skipper e l}, id?.or m.parser.skipper? = some id →
      g.grammar.skippers[id]? = some skipper → run _ skipper m = .ok (.error e) l → ¬e.isFatal →
      I.holds l → I.holds (l.restore m.snapshot)) :
    s.Agrees (skip g run id?) (skip g run' id?) m
      (fun outcome n => Outcome I.known (fun _ => True) outcome ∧ I.holds n) I.faults := by
  refine Scope.Agrees.pre (a := m.parser) rfl ?_
  cases hid : id?.or m.parser.skipper? with
  | none => exact .self ⟨trivial, hm⟩
  | some id =>
    dsimp only
    cases hs : g.grammar.skippers[id]? with
    | none => exact .self ⟨within_failAt hm _, hm⟩
    | some skipper =>
      have hskipper := C.agrees (I.respects.grammar.skipper id skipper hs) hm
      refine .pre (a := m.snapshot) rfl (hskipper.eqn.post ?_)
      intro outcome n
      cases outcome with
      | ok skipped => exact ⟨List.suffix_rfl, fun hQ => hQ.1⟩
      | error e =>
        dsimp only
        split
        · exact ⟨List.suffix_rfl, fun hQ => hQ.1⟩
        · next he =>
          refine ⟨List.suffix_rfl, ?_⟩
          rintro ⟨⟨-, hn⟩, hx⟩
          exact ⟨trivial, hback hid hs hx he hn⟩

theorem agrees_runSkipper (C : Concord I s run run') (hm : I.holds m) (id : String) :
    s.Agrees (reply g run (.runSkipper id)) (reply g run' (.runSkipper id)) m
      (fun outcome? n => (∀ outcome ∈ outcome?, Outcome I.known (fun _ => True) outcome) ∧ I.holds n)
      I.faults := by
  simp only [reply]
  cases hs : g.grammar.skippers[id]? with
  | none =>
    refine .self ⟨fun outcome ho => ?_, hm⟩
    cases ho
  | some skipper =>
    apply (C.agrees (I.respects.grammar.skipper id skipper hs) hm).post
    intro outcome n
    refine ⟨List.suffix_rfl, ?_⟩
    rintro ⟨houtcome, hn⟩
    refine ⟨fun o ho => ?_, hn⟩
    cases ho
    exact houtcome

theorem agrees_setSkipper (C : Concord I s run run') (hm : I.holds m) (id? : Option String)
    (hback : ∀ {id skipper e l}, id? = some id → id ≠ "" →
      g.grammar.skippers[id]? = some skipper →
      run _ skipper (m.installing id) = .ok (.error e) l → ¬e.isFatal →
      I.holds l → I.holds (l.restore (m.installing id).snapshot)) :
    s.Agrees (setSkipper g run id?) (setSkipper g run' id?) m
      (fun outcome n => Outcome I.known (fun _ => True) outcome ∧ I.holds n) I.faults := by
  refine Scope.Agrees.pre (a := m.parser) rfl ?_
  dsimp only
  split
  · exact .self ⟨trivial, hm⟩
  · exact .self ⟨trivial, hm⟩
  · next id hid =>
    split
    · have hn : I.holds (m.installing id) := I.withSkipper (I.emit hm rfl) _
      have hskip := agrees_skip C hn none (by
        intro id' skipper e l heq hs
        cases heq
        exact hback rfl (fun h => hid (h ▸ rfl)) hs)
      refine .pre (a := ()) rfl (.pre (a := ()) rfl (hskip.post ?_))
      intro outcome k
      cases outcome with
      | ok skipped => exact ⟨List.suffix_rfl, fun hQ => ⟨trivial, hQ.2⟩⟩
      | error e => exact ⟨List.suffix_rfl, fun hQ => hQ⟩
    · exact .self ⟨within_failAt hm _, hm⟩

theorem within_verdict {known : Position → Prop} {gives : α → Prop} {outcome : Except Error α}
    (h : Outcome known gives outcome) : Outcome known (fun _ => True) (verdict outcome) := by
  cases outcome with
  | ok a => trivial
  | error e =>
    unfold verdict
    dsimp only
    split
    · exact h
    · trivial

theorem agrees_test (C : Concord I s run run') (hm : I.holds m) (id : String) (hP : P (.test id) m) :
    s.Agrees (test g run id) (test g run' id) m
      (fun outcome n => Outcome I.known (fun _ => True) outcome ∧ I.holds n) I.faults := by
  obtain ⟨why, depth, rfl⟩ := C.watched
  have htesting : I.holds m.testing := I.count hm _
  unfold Scope.Agrees
  cases hrecall : g.recall? m id with
  | some matched =>
    rw [ends_test_of_recall hrecall]
    intro _
    have hhit : I.holds (m.hit id matched) :=
      I.hit (I.count htesting fun s => { s with hits := s.hits + 1 }) hrecall
    exact ⟨test_of_recall hrecall, trivial, hhit⟩
  | none =>
    have hbody := agrees_resolveAndInvoke C htesting id []
    rw [ends_test_of_miss hrecall]
    apply ends_iff.2
    constructor
    · intro outcome n hx hcounts
      have hlog := suffix_tested n m.snapshot id (verdict outcome)
      obtain ⟨hy, houtcome, hn⟩ := hbody.ok hx (s.of_log hlog hcounts)
      exact ⟨test_of_miss hrecall hy, within_verdict houtcome,
        I.putsBack hm hn hP (.test hrecall hx)⟩
    · intro w n hx hcounts
      obtain ⟨hy, hfault⟩ := hbody.error hx hcounts
      exact ⟨test_of_miss_error hrecall hy, hfault⟩

theorem agrees_runAll (C : Concord I s run run') (hm : I.holds m) (ids : List String) :
    s.Agrees (runAll g run ids) (runAll g run' ids) m
      (fun outcome n => Outcome I.known (fun _ => True) outcome ∧ I.holds n) I.faults := by
  induction ids generalizing m with
  | nil => exact .self ⟨trivial, hm⟩
  | cons id ids ih =>
    rw [runAll, runAll]
    apply (agrees_resolveAndInvoke C hm id []).bind
    · intro outcome n
      cases outcome with
      | ok node => exact C.grows_runAll ids n
      | error e => exact .refl n
    · intro outcome n hQ
      cases outcome with
      | ok node => exact ih hQ.2
      | error e => exact .self hQ

theorem agrees_testAll (C : Concord I s run run') (hm : I.holds m) (ids : List String)
    (hP : P (.testAll ids) m) :
    s.Agrees (testAll g run ids) (testAll g run' ids) m
      (fun outcome n => Outcome I.known (fun _ => True) outcome ∧ I.holds n) I.faults := by
  obtain ⟨why, depth, rfl⟩ := C.watched
  refine Scope.Agrees.pre (a := m.snapshot) rfl ((agrees_runAll C hm ids).eqn.post ?_)
  intro outcome n
  refine ⟨List.suffix_rfl, ?_⟩
  rintro ⟨⟨houtcome, hn⟩, hx⟩
  exact ⟨within_verdict houtcome, I.putsBack hm hn hP (.testAll hx)⟩

theorem agrees_matchWith (C : Concord I s run run') (hm : I.holds m) (ref : RuleRef)
    (params : Params) (hP : ref.skipper? = none ∨ P (.matchWith ref params) m) :
    s.Agrees (matchWith g run ref params) (matchWith g run' ref params) m
      (fun outcome n => Outcome I.known (view.Node I.known) outcome ∧ I.holds n) I.faults := by
  have hmatching : I.holds m.matching := I.count hm _
  refine Scope.Agrees.pre (a := ()) (n := m.matching) rfl ?_
  cases href : ref.skipper? with
  | none => exact agrees_resolveAndInvoke C hmatching ref.id params
  | some skipper =>
    have hP := hP.resolve_left fun h => by cases href.symm.trans h
    have hset := agrees_setSkipper C hmatching (some skipper) (by
      obtain ⟨why, depth, rfl⟩ := C.watched
      intro id body e l heq hid hs hx he hl
      exact I.putsBack hm hl hP (.install (href.trans heq) hid hs hx he))
    apply hset.bind
    · intro installed n
      cases installed with
      | error e => exact .refl n
      | ok previous? =>
        apply ends_bind.2
        apply (C.grows_resolveAndInvoke ref.id params n).imp_ok
        intro outcome k hk
        exact hk.trans (continues_withSkipper k previous?).toGrows
    · intro installed n hQ
      cases installed with
      | error e => exact .self hQ
      | ok previous? =>
        apply (agrees_resolveAndInvoke C hQ.2 ref.id params).post
        intro outcome k
        refine ⟨List.suffix_rfl, ?_⟩
        rintro ⟨houtcome, hk⟩
        exact ⟨houtcome, I.withSkipper hk previous?⟩

theorem within_orAt {known : Position → Prop} {e : Error} {p : Position} (he : e.Within known)
    (hp : known p) : (e.orAt p).Within known := by
  intro q hq
  cases hposition : e.position? with
  | none =>
    simp only [Error.orAt, hposition, Option.none_or, Option.some.injEq] at hq
    exact hq ▸ hp
  | some r =>
    simp only [Error.orAt, hposition, Option.some_or, Option.some.injEq] at hq
    exact hq ▸ he r hposition

theorem agrees_start (C : Concord I s run run') (hm : I.holds m) (rule : String) :
    s.Agrees (start g run rule) (start g run' rule) m
      (fun outcome n => Outcome I.known (view.Node I.known) outcome ∧ I.holds n) I.faults := by
  have hmatch := agrees_matchWith C
    (I.emit (e := .started m.source.name rule) hm rfl) ⟨rule, none⟩ [] (.inl rfl)
  refine Scope.Agrees.pre (a := m.source.name) rfl (.pre (a := ()) rfl (hmatch.post ?_))
  intro outcome n
  cases outcome with
  | ok node =>
    refine ⟨List.suffix_cons _ _, ?_⟩
    rintro ⟨hnode, hn⟩
    exact ⟨hnode, I.emit hn rfl⟩
  | error e =>
    refine ⟨List.suffix_cons _ _, ?_⟩
    rintro ⟨he, hn⟩
    exact ⟨within_orAt he (I.knows hn), I.emit hn rfl⟩

theorem agrees_below (C : Concord I s run run') (hm : I.holds m) {program : Program N σ α}
    {gives : α → Prop} (hp : program.Abides (view.Names I.known) (view.Tells I.known) gives) :
    s.Agrees (below run program) (below run' program) m (fun a n => gives a ∧ I.holds n)
      I.faults := by
  have hgrows := C.grows_program program m.sub
  refine Scope.Agrees.pre (a := m.parser) rfl (.pre (a := m.sub.parser)
    (n := (m.emit (.rooted m.root)).loaded) rfl (.pre (a := ()) (n := m.sub) rfl
    ((C.agrees hp (I.sub hm)).eqn.post ?_)))
  intro a n
  refine ⟨List.suffix_rfl, ?_⟩
  rintro ⟨⟨ha, hn⟩, hx⟩
  exact ⟨ha, I.back hm hn (hgrows.ok hx)⟩

theorem ends_reading_holds (run : Runner N σ) (hm : I.holds m) {c : Call σ} (hP : P c m)
    {u : Cursor → Except Fault (c.Reply N × Cursor)} (hu : c.reading? = some u) :
    Ends (reply g run c) m (fun _ n => I.holds n) I.faults := by
  rw [ends_reading hu]
  split
  · next a d hd => exact I.reads hm (Cursor.reads_of_reading hu hd)
  · next why hwhy => exact I.reading hm hP hu hwhy

theorem agrees_reply (C : Concord I s run run') (hm : I.holds m) {c : Call σ}
    (hc : view.Names I.known c) (hP : P c m) :
    s.Agrees (reply g run c) (reply g run' c) m
      (fun a n => view.Tells I.known c a ∧ I.holds n) I.faults := by
  cases c with
  | peek | next | rest | startsWith | eat | eatWhile | eatRegex | advance =>
    exact .self ((ends_reading_holds run hm hP rfl).imp_ok fun _ _ hn => ⟨trivial, hn⟩)
  | atEnd | skipper | directory | hasRule | hasSkipper | ruleNames | skipperNames | gauge =>
    exact .self ⟨trivial, hm⟩
  | position => exact .self ⟨I.knows hm, hm⟩
  | moveTo p => exact .self ⟨trivial, I.moves hm hc (.inl hP)⟩
  | restore s => exact .self ⟨trivial, I.withSkipper (I.moves hm hc (.inr ⟨s.skipper?, hP⟩)) _⟩
  | resolve id =>
    exact .self ((I.ends_resolve hm id).imp_ok fun _ _ hn => ⟨trivial, hn⟩)
  | addToken id literal =>
    exact .self ((I.ends_addToken hm id literal).imp_ok fun _ _ hn => ⟨trivial, hn⟩)
  | invoke r params => exact agrees_invoke C hm r params
  | matchWith ref params => exact agrees_matchWith C hm ref params (.inr hP)
  | test id => exact agrees_test C hm id hP
  | testAll ids => exact agrees_testAll C hm ids hP
  | skip id? =>
    obtain ⟨why, depth, rfl⟩ := C.watched
    exact agrees_skip C hm id? fun hid hs hx he hl => I.putsBack hm hl hP (.skip hid hs hx he)
  | runSkipper id => exact agrees_runSkipper C hm id
  | setSkipper id? =>
    obtain ⟨why, depth, rfl⟩ := C.watched
    apply agrees_setSkipper C hm id?
    rintro id skipper e l rfl hid hs hx he hl
    exact I.putsBack hm hl hP (.setSkipper hid hs hx he)
  | read file =>
    refine .self ((ends_read (g := g)).2 ?_)
    split
    · refine ⟨fun p hp => ?_, hm⟩
      cases hp
    · next text htext => exact ⟨trivial, I.read _ _ hm htext⟩
  | readText name content => exact .self ⟨trivial, I.readText hm hP⟩
  | start rule => exact agrees_start C hm rule
  | parseBelow file rule =>
    exact agrees_below C hm (Setting.Respects.parse view I.known file rule)
  | parseTextBelow name content rule =>
    exact agrees_below C hm (Setting.Respects.parseText view I.known name content rule)
  | make kind p => exact .self ⟨I.respects.make kind p hc, I.emit hm rfl⟩
  | note label => exact .self ⟨trivial, I.emit hm rfl⟩
  | consult f => exact .self ⟨I.outside hm, I.consult hm (hc _ (I.outside hm))⟩
  | halt why => exact .self (I.halt hm hP)

/-- A watch sees the run that another sees to its end, if it allows all that this one allows where
the invariant holds. -/
theorem agrees_runWhile {R : Call σ → Machine σ → Prop} (why why' : Halt)
    (hallows : ∀ depth c m, I.holds m → view.Names I.known c → P c m →
      s.Counts (reply g (runWhile g P why depth) c m) → R c m)
    (hcut : ∀ c m, I.holds m → ¬P c m → ¬s.halts why m)
    {depth depth' : Nat} (hle : depth ≤ depth')
    (hdeep : ∀ m, s.halts .tooDeep m → depth = depth') {β : Type} {p : Program N σ β}
    {gives : β → Prop} (hp : p.Abides (view.Names I.known) (view.Tells I.known) gives)
    (hm : I.holds m) :
    s.Agrees (runWhile g P why depth β p) (runWhile g R why' depth' β p) m
      (fun a n => gives a ∧ I.holds n) I.faults := by
  induction depth generalizing depth' β p gives m with
  | zero =>
    intro hn
    rw [← hdeep m hn]
    exact ⟨rfl, I.tooDeep hm⟩
  | succ depth ih =>
    obtain ⟨depth', rfl⟩ : ∃ d, depth' = d + 1 := ⟨depth' - 1, by omega⟩
    have C : Concord I s (runWhile g P why depth) (runWhile g R why' depth') :=
      { watched := ⟨why, depth, rfl⟩
        agrees := ih (by omega) fun m hn => Nat.succ_inj.1 (hdeep m hn) }
    induction p generalizing m with
    | done a => exact .self ⟨hp, hm⟩
    | call c next ihp =>
      obtain ⟨hc, hnext⟩ := hp
      have hcall : s.Agrees (guarded (P c) why (reply g (runWhile g P why depth) c))
          (guarded (R c) why' (reply g (runWhile g R why' depth') c)) m
          (fun a n => view.Tells I.known c a ∧ I.holds n) I.faults := by
        apply ends_guarded
        · intro hP
          have hreply := agrees_reply C hm hc hP
          apply ends_iff.2
          constructor
          · intro a n hx hcounts
            rw [guarded_pos (hallows depth c m hm hc hP (hx ▸ hcounts))]
            exact hreply.ok hx hcounts
          · intro w n hx hcounts
            rw [guarded_pos (hallows depth c m hm hc hP (hx ▸ hcounts))]
            exact hreply.error hx hcounts
        · intro hP hcounts
          exact absurd hcounts (hcut c m hm hP)
      apply hcall.bind
      · intro a n
        exact grows_runWhile g P why (depth + 1) (next a) n
      · intro a n hQ
        exact ihp a (hnext a hQ.1) hQ.2

/-- Where a run that is watched throughout by `P` ends, and with which log it came by. -/
theorem ends_of_throughout {R : Call σ → Machine σ → Prop} {depth : Nat}
    {p : Program N σ α} {gives : α → Prop}
    (hp : p.Abides (view.Names I.known) (view.Tells I.known) gives) (hm : I.holds m)
    (h : Throughout g P depth p m)
    (hR : ∀ c k, I.holds k → view.Names I.known c → P c k →
      k.shared.events <:+ (last (Engine.run g depth α p) m).shared.events → R c k) (why' : Halt) :
    Ends (Engine.run g depth α p) m
      (fun a n => runWhile g R why' depth α p m = .ok a n ∧ gives a ∧ I.holds n)
      fun w n => runWhile g R why' depth α p m = .error w n ∧ I.faults w n := by
  -- The watch may end with any halt, so one is taken that the run itself does not end with.
  obtain ⟨why, hwhy⟩ : ∃ why, ∀ n, Engine.run g depth α p m ≠ .error why n := by
    by_cases hdeep : ∃ n, Engine.run g depth α p m = .error .tooDeep n
    · obtain ⟨n, hn⟩ := hdeep
      refine ⟨.fault .misuse, fun k hk => ?_⟩
      cases hn.symm.trans hk
    · exact ⟨.tooDeep, fun n hn => hdeep ⟨n, hn⟩⟩
  have hallows (d : Nat) (c : Call σ) (k : Machine σ) (hk : I.holds k) (hc : view.Names I.known c)
      (hP : P c k) (hcounts : (Scope.upTo (last (Engine.run g depth α p) m).shared.events why).Counts
        (reply g (runWhile g P why d) c k)) : R c k := by
    apply hR c k hk hc hP
    have hgrows : Ends (reply g (runWhile g P why d) c) k (fun _ n => k.Grows n)
        fun _ n => k.Grows n := grows_reply_runWhile hP
    cases hx : reply g (runWhile g P why d) c k with
    | ok a n =>
      rw [hx] at hcounts
      exact (hgrows.ok hx).events.trans hcounts
    | error w n =>
      rw [hx] at hcounts
      exact (hgrows.error hx).events.trans hcounts.1
  have hagrees := agrees_runWhile why why' hallows (fun _ _ _ _ hn => hn.2 rfl)
    (Nat.le_refl depth) (fun _ _ => rfl) hp hm
  apply ends_iff.2
  constructor
  · intro a n ha
    apply hagrees.ok ((h why).trans ha)
    exact (last_of_ok ha).symm ▸ List.suffix_rfl
  · intro w n hw
    apply hagrees.error ((h why).trans hw)
    refine ⟨(last_of_error hw).symm ▸ List.suffix_rfl, ?_⟩
    rintro rfl
    exact hwhy n hw

/-- What the invariant implies of calls is met throughout the run. -/
theorem throughout_of_invariant {R : Call σ → Machine σ → Prop}
    {depth : Nat} {p : Program N σ α} {gives : α → Prop}
    (hp : p.Abides (view.Names I.known) (view.Tells I.known) gives) (hm : I.holds m)
    (h : Throughout g P depth p m)
    (hR : ∀ c k, I.holds k → view.Names I.known c → P c k →
      k.shared.events <:+ (last (Engine.run g depth α p) m).shared.events → R c k) :
    Throughout g R depth p m := by
  intro why
  have hends := ends_of_throughout hp hm h hR why
  cases hx : Engine.run g depth α p m with
  | ok a n => exact (hends.ok hx).1
  | error w n => exact (hends.error hx).1

end Engine

end Packrat
