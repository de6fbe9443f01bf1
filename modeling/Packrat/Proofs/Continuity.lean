import Packrat.Proofs.Upkeep

/-! A program that keeps the session of its parser also keeps the keys of the memo, whatever rules and
skippers it has run, if none of them replaces the session. -/

namespace Packrat
set_option autoImplicit false

namespace Engine
open Packrat.Action Machine
variable {N σ α : Type} {g : Setting N σ} {run : Runner N σ} {m k : Machine σ}

/-- However the action ends, what parsers share has grown, and with an answer the session goes on. -/
def Continuing (x : Action σ α) : Prop :=
  ∀ m, Ends x m (fun _ n => m.Continues n) fun _ n => m.Grows n

/-- Runs are as they should be for their replies to continue sessions. -/
structure RunsGrow (g : Setting N σ) (run : Runner N σ) : Prop where
  grows : ∀ (β : Type) (p : Program N σ β) (m : Machine σ),
    Ends (run β p) m (fun _ n => m.Grows n) fun _ n => m.Grows n
  continues : ∀ (β : Type) (p : Program N σ β), p.Only (Call.KeepsSession g.disk) →
    Continuing (run β p)

theorem Continuing.after {x : Action σ α} (hx : Continuing x) (h : m.Continues k) :
    Ends x k (fun _ n => m.Continues n) fun _ n => m.Grows n := by
  apply (hx k).imp
  · intro a n hn
    exact h.trans hn
  · intro why n hn
    exact h.toGrows.trans hn

theorem Continuing.grows {x : Action σ α} (hx : Continuing x) (m : Machine σ) :
    Ends x m (fun _ n => m.Grows n) fun _ n => m.Grows n := by
  apply (hx m).imp_ok
  intro a n hn
  exact hn.toGrows

theorem continuing_addToken (id literal : String) :
    Continuing (addToken id literal : Action σ Resolved) := by
  intro m
  rw [ends_addToken]
  split
  · exact .refl m
  · exact continues_register m id literal

theorem continuing_resolve (g : Setting N σ) (id : String) : Continuing (resolve g id) := by
  intro m
  rw [ends_resolve]
  split
  · exact .refl m
  · exact continuing_addToken id id m

theorem continuing_invoke (hg : g.KeepsSessions) (hrun : RunsGrow g run) (r : Resolved)
    (params : Params) : Continuing (run _ (g.body r params)) :=
  hrun.continues _ _ (hg.body r params)

theorem continuing_resolveAndInvoke (hg : g.KeepsSessions) (hrun : RunsGrow g run) (id : String)
    (params : Params) : Continuing (resolveAndInvoke g run id params) := by
  intro m
  rw [ends_resolveAndInvoke]
  apply (continuing_resolve g id m).imp_ok
  intro r n hn
  exact (continuing_invoke hg hrun r params).after hn

theorem continuing_skip (hg : g.KeepsSessions) (hrun : RunsGrow g run) (id? : Option String) :
    Continuing (skip g run id?) := by
  intro m
  rw [ends_skip]
  split
  · exact .refl m
  split
  · exact .refl m
  · next skipper hs =>
    apply (hrun.continues _ _ (hg.skipper _ _ hs) m).imp_ok
    intro outcome n hn
    cases outcome with
    | ok skipped => exact hn
    | error e =>
      dsimp only
      split
      · exact hn
      · exact hn.trans (continues_restore n m.snapshot)

theorem continuing_setSkipper (hg : g.KeepsSessions) (hrun : RunsGrow g run)
    (id? : Option String) : Continuing (setSkipper g run id?) := by
  intro m
  by_cases hid : id? = none ∨ id? = some ""
  · rw [ends_setSkipper_of_empty hid]
    exact .refl m
  · obtain ⟨id, rfl⟩ := Option.ne_none_iff_exists'.1 fun h => hid (.inl h)
    rw [ends_setSkipper fun h => hid (.inr (congrArg some h))]
    split
    · have hemit : m.Continues (m.emit (.skipperSet m.parser.skipper? id)) :=
        continues_emit_of_quiet rfl
      have hset := hemit.trans (continues_withSkipper _ (some id))
      apply ((continuing_skip hg hrun none).after hset).imp_ok
      intro outcome n hn
      cases outcome <;> exact hn
    · exact .refl m

theorem untouched_test (hg : g.KeepsSessions) (hrun : RunsGrow g run) (id : String)
    (m : Machine σ) :
    Ends (test g run id) m (fun _ n => m.Untouched n) fun _ n => m.Grows n := by
  rw [ends_test]
  split
  · exact untouched_hit m id _
  · apply ((continuing_resolveAndInvoke hg hrun id []).after (continues_testing m)).imp_ok
    intro outcome n hn
    cases verdict outcome with
    | error e => exact untouched_restore hn
    | ok matched => exact untouched_miss hn id matched

theorem continuing_runAll (hg : g.KeepsSessions) (hrun : RunsGrow g run) (ids : List String) :
    Continuing (runAll g run ids) := by
  induction ids with
  | nil => exact Continues.refl
  | cons id ids ih =>
    intro m
    rw [ends_runAll_cons]
    apply (continuing_resolveAndInvoke hg hrun id [] m).imp_ok
    intro outcome n hn
    cases outcome with
    | ok node => exact ih.after hn
    | error e => exact hn

theorem untouched_testAll (hg : g.KeepsSessions) (hrun : RunsGrow g run) (ids : List String)
    (m : Machine σ) :
    Ends (testAll g run ids) m (fun _ n => m.Untouched n) fun _ n => m.Grows n := by
  rw [ends_testAll]
  apply (continuing_runAll hg hrun ids m).imp_ok
  intro outcome n hn
  exact untouched_restore hn

theorem continuing_matchWith (hg : g.KeepsSessions) (hrun : RunsGrow g run) (ref : RuleRef)
    (params : Params) : Continuing (matchWith g run ref params) := by
  intro m
  have hm : m.Continues m.matching := continues_count m _
  have hinvoke := continuing_resolveAndInvoke hg hrun ref.id params
  rw [ends_matchWith]
  split
  · exact hinvoke.after hm
  · apply ((continuing_setSkipper hg hrun _).after hm).imp_ok
    intro installed n hn
    cases installed with
    | error e => exact hn
    | ok previous? =>
      apply (hinvoke.after hn).imp_ok
      intro outcome k hk
      exact hk.trans (continues_withSkipper k previous?)

theorem continuing_start (hg : g.KeepsSessions) (hrun : RunsGrow g run) (rule : String) :
    Continuing (start g run rule) := by
  intro m
  have hm : m.Continues (m.emit (.started m.position.source.name rule)) :=
    continues_emit_of_quiet rfl
  rw [ends_start]
  apply ((continuing_matchWith hg hrun ⟨rule, none⟩ []).after hm).imp_ok
  intro outcome n hn
  cases outcome with
  | ok node => exact hn.trans (continues_emit_of_quiet rfl)
  | error e => exact hn.trans (continues_emit_of_quiet rfl)

theorem continuing_below (hrun : RunsGrow g run) (p : Program N σ α) :
    Continuing (below run p) := by
  intro m
  rw [ends_below]
  apply (hrun.grows _ p m.sub).imp
  · intro a n hn
    exact continues_of_sub hn
  · intro why n hn
    exact (grows_sub m).trans hn

theorem continuing_reading {c : Call σ} {u : Cursor → Except Fault (c.Reply N × Cursor)}
    (hu : c.reading? = some u) : Continuing (reply g run c) := by
  intro m
  rw [ends_reading hu]
  split
  · next a d hd =>
    have hreads := Cursor.reads_of_reading hu hd
    exact continues_withCursor hreads.source
  · exact .refl m

theorem continuing_reply (hg : g.KeepsSessions) (hrun : RunsGrow g run) {c : Call σ}
    (hc : c.KeepsSession g.disk) : Continuing (reply g run c) := by
  intro m
  cases c with
  | peek | next | rest | startsWith | eat | eatWhile | eatRegex | advance =>
    exact continuing_reading rfl m
  | atEnd | position | skipper | directory | hasRule | hasSkipper | ruleNames | skipperNames
  | gauge =>
    exact .refl m
  | moveTo p => exact continues_withCursor rfl
  | restore s => exact continues_restore m s
  | resolve id => exact continuing_resolve g id m
  | addToken id literal => exact continuing_addToken id literal m
  | invoke r params =>
    rw [reply_invoke]
    exact continuing_invoke hg hrun r params m
  | matchWith ref params => exact continuing_matchWith hg hrun ref params m
  | test id =>
    apply (untouched_test hg hrun id m).imp_ok
    intro outcome n hn
    exact hn.toContinues
  | testAll ids =>
    apply (untouched_testAll hg hrun ids m).imp_ok
    intro outcome n hn
    exact hn.toContinues
  | skip id? => exact continuing_skip hg hrun id? m
  | runSkipper id =>
    rw [ends_runSkipper]
    split
    · exact .refl m
    · next skipper hs => exact hrun.continues _ _ (hg.skipper _ _ hs) m
  | setSkipper id? => exact continuing_setSkipper hg hrun id? m
  | read file =>
    apply ends_read.2
    split
    · exact .refl m
    · next text htext => exact absurd htext (hc _ text)
  | readText => exact hc.elim
  | start rule => exact continuing_start hg hrun rule m
  | parseBelow file rule => exact continuing_below hrun _ m
  | parseTextBelow name content rule => exact continuing_below hrun _ m
  | make kind p => exact continues_emit_of_quiet rfl
  | note label => exact continues_emit_of_quiet rfl
  | consult f => exact continues_withOutside m _
  | halt why => exact .refl m

theorem runsGrow_run (hg : g.KeepsSessions) (depth : Nat) : RunsGrow g (Engine.run g depth) := by
  refine ⟨fun β p m => grows_run g depth p m, ?_⟩
  induction depth with
  | zero =>
    intro β p _ m
    exact .refl m
  | succ depth ih =>
    intro β p hp
    induction p with
    | done a => exact Continues.refl
    | call c next ihp =>
      intro m
      obtain ⟨hc, hnext⟩ := hp
      apply ends_bind.2
      apply (continuing_reply hg ⟨fun β p m => grows_run g depth p m, ih⟩ hc m).imp_ok
      intro a n hn
      exact (ihp a (hnext a trivial)).after hn

/-- What a call puts back comes from the session that goes on. -/
theorem PutsBack.continues (hg : g.KeepsSessions) {depth : Nat} {c : Call σ} {l n : Machine σ}
    (h : PutsBack g (Engine.run g depth) c m l n) : m.Continues l := by
  have hrun := runsGrow_run hg depth
  have hmatching : m.Continues m.matching := continues_count m _
  cases h with
  | test hm hx =>
    exact ((continuing_resolveAndInvoke hg hrun _ _).after (continues_testing m)).ok hx
  | testAll hx => exact (continuing_runAll hg hrun _ m).ok hx
  | skip hid hs hx => exact (hrun.continues _ _ (hg.skipper _ _ hs) m).ok hx
  | setSkipper hid hs hx =>
    exact ((hrun.continues _ _ (hg.skipper _ _ hs)).after (continues_installing m _)).ok hx
  | @install _ _ id _ _ _ _ href hid hs hx =>
    have hset := hmatching.trans (continues_installing m.matching id)
    exact ((hrun.continues _ _ (hg.skipper _ _ hs)).after hset).ok hx
  | matchWith href hset hx =>
    have hset := ((continuing_setSkipper hg hrun _).after hmatching).ok hset
    exact ((continuing_resolveAndInvoke hg hrun _ _).after hset).ok hx

/-- Where rules and skippers keep the session, no call strays. -/
theorem not_strays (hg : g.KeepsSessions) (c : Call σ) (m : Machine σ) : ¬Strays g c m := by
  rintro ⟨depth, l, n, hback, hs⟩
  exact hs (hback.continues hg).source

end Engine

end Packrat
