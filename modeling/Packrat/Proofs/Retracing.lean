import Packrat.Proofs.Dwelling
import Packrat.Proofs.Ledger

/-! A run without a memo makes all calls that a related run makes. So no rule that is run for a test
comes, at the same place, to a test of itself and ends: without a memo, the one test would be run
by the other with fewer levels, and so on. -/

namespace Packrat
set_option autoImplicit false

theorem Setting.Steady.memoized {N σ : Type} {g : Setting N σ} {view : View N σ}
    {skipper? : Option String} (hg : g.Steady view skipper?) (b : Bool) :
    (g.memoized b).Steady view skipper? :=
  ⟨hg.keeps, hg.grammar, hg.make⟩

namespace Engine
open Packrat.Action Machine
variable {N σ α : Type} {g : Setting N σ} {view : View N σ} {sc : Scene} {b : Bool}
variable {depth depth' i : Nat} {c : Call σ} {m m' n l : Machine σ}

theorem resolve_retraced {id : String} {r : Resolved} (h : Related g sc b false m m')
    (hr : resolve (g.memoized b) id m = .ok r n)
    (hagree : m'.shared.tokens.Agree n.shared.tokens) :
    ∃ n', resolve (g.memoized false) id m' = .ok r n' ∧ Related g sc b false n n' ∧
      n'.shared.tokens.InEither m'.shared.tokens n.shared.tokens := by
  obtain ⟨-, n', ⟨d, hd⟩, hn, hin⟩ := (follows_resolve h id).ok hr hagree
  exact ⟨n', hd d (Nat.le_refl d), hn, hin⟩

theorem exists_of_runAll_append {before after : List String} {outcome : Except Error Unit}
    (h : runAll g (run g depth) (before ++ after) m = .ok outcome n) :
    ∃ ruled k, runAll g (run g depth) before m = .ok ruled k := by
  induction before generalizing m with
  | nil => exact ⟨.ok (), m, rfl⟩
  | cons id before ih =>
    obtain ⟨outcome', k, hk, h⟩ := exists_of_bind_eq_ok h
    cases outcome' with
    | error e => exact ⟨.error e, k, bind_eq_of_ok hk⟩
    | ok node =>
      obtain ⟨ruled, j, hj⟩ := ih h
      exact ⟨ruled, j, (bind_eq_of_ok hk).trans hj⟩

theorem eventually_runAll {ids : List String} {outcome : Except Error Unit}
    (h : runAll g (run g depth) ids m = .ok outcome n) :
    Eventually (fun d => runAll g (run g d) ids) m (.ok outcome n) := by
  refine ⟨depth, ?_⟩
  intro d hd
  have C := concord_run (.always g fun _ _ => True) hd
  have hagrees := agrees_runAll (m := m) C trivial ids
  exact (hagrees.ok h trivial).1

theorem eventually_reply {a : c.Reply N}
    (h : reply g (run g depth) c m = .ok a n) :
    Eventually (fun d => reply g (run g d) c) m (.ok a n) := by
  refine ⟨depth, ?_⟩
  intro d hd
  have hask := (congrFun (run_ask depth c) m).trans h
  exact (congrFun (run_ask d c) m).symm.trans (run_ok_mono (Nat.succ_le_succ hd) hask)

/-- What a steady call has run on the left, it has run on the right if it is answered there. -/
theorem enters_retraced (hg : g.Steady view sc.skipper?) (C : Followed g view sc b false depth)
    (hc : c.Steady sc.skipper?) (h : Related g sc b false m m') {p : Program N σ (Except Error α)}
    (hp : Enters (g.memoized b) depth c m p n)
    (hagree : m'.shared.tokens.Agree n.shared.tokens) {a : c.Reply N}
    (hend : reply (g.memoized false) (run (g.memoized false) depth') c m' = .ok a l) :
    ∃ n', Enters (g.memoized false) depth' c m' p n' ∧ Related g sc b false n n' ∧
      n'.shared.tokens.InEither m'.shared.tokens n.shared.tokens := by
  cases hp with
  | invoke => exact ⟨m', .invoke, h, fun _ _ => .inl⟩
  | matchWith href hr =>
    obtain ⟨n', hr', hn, hin⟩ := resolve_retraced (h.count _ _) hr hagree
    exact ⟨n', .matchWith href hr', hn, hin⟩
  | install href hid hs => cases (show _ = none from hc).symm.trans href
  | installed href hset hr => cases (show _ = none from hc).symm.trans href
  | test hm hr =>
    obtain ⟨n', hr', hn, hin⟩ := resolve_retraced (h.count _ _) hr hagree
    exact ⟨n', .test rfl hr', hn, hin⟩
  | @testAll before after id r _ k _ hbefore hr =>
    have hkn := (continues_resolve hr).tokens
    have hends := follows_runAll hg C h before
    obtain ⟨-, k', hk', hk, hin⟩ := hends.ok hbefore (hagree.of_within hkn)
    -- On the right these rules are run with the levels that there are.
    have hright : runAll (g.memoized false) (run (g.memoized false) depth') before m' =
        .ok (.ok ()) k' := by
      obtain ⟨_, _, hm', hend⟩ := exists_of_bind_eq_ok (x := snapshot) hend
      cases hm'
      obtain ⟨_, _, hall, -⟩ := exists_of_bind_eq_ok hend
      obtain ⟨ruled, j, hj⟩ := exists_of_runAll_append hall
      cases (eventually_runAll hj).unique hk'
      exact hj
    obtain ⟨n', hr', hn, hin'⟩ := resolve_retraced hk hr (hagree.of_either hkn hin)
    exact ⟨n', .testAll hright hr', hn, hin.trans hin' hkn⟩
  | skip hid hs =>
    have hid' : _ = some _ := h.left.skipper ▸ hid
    exact ⟨m', .skip (h.right.skipper.symm ▸ hid') hs, h, fun _ _ => .inl⟩
  | runSkipper hs => exact ⟨m', .runSkipper hs, h, fun _ _ => .inl⟩
  | setSkipper hid hs => exact absurd hc (by simp [Call.Steady, hid])
  | start hr => exact hc.elim

/-- What a steady run meets is met by all related runs without a memo that have an end. -/
theorem meets_retraced (hg : g.Steady view sc.skipper?) {p : Program N σ α} {s : Site σ}
    (hs : Meets (g.memoized b) depth i p m s) {gives : α → Prop}
    (hp : p.Stays view sc.skipper? sc.Known gives) (h : Related g sc b false m m')
    (hagree : m'.shared.tokens.Agree s.machine.shared.tokens) {a : α}
    (hend : run (g.memoized false) depth' α p m' = .ok a l) :
    ∃ s', Meets (g.memoized false) depth' i p m' s' ∧ s'.call = s.call ∧ s'.pending = s.pending ∧
      Related g sc b false s.machine s'.machine := by
  have hkeeps := hg.keeps.memoized b
  have hreplay (_ : b ∨ false) : Replayed g sc := replayed hg
  have hb : ¬(b ∧ false) := by simp
  induction hs generalizing m' depth' l with
  | here =>
    cases depth' with
    | zero => cases hend
    | succ depth' => exact ⟨_, .here, rfl, rfl, h⟩
  | @inside depth i _ _ c _ q m n s hc hs ih =>
    cases depth' with
    | zero => cases hend
    | succ depth' =>
      obtain ⟨o, k, hk, -⟩ := exists_of_run_call hend
      have hns := (hs.grows hkeeps).tokens
      obtain ⟨n', hc', hn, hin⟩ := enters_retraced hg (followed hg hreplay hb depth) hp.1.1 h hc
        (hagree.of_within hns) hk
      obtain ⟨outcome, j, hj, -⟩ := hc'.completes (hg.keeps.memoized false) hk
      obtain ⟨gives', hq⟩ : ∃ gives', q.Stays view sc.skipper? sc.Known gives' :=
        stays_enters (hg.memoized b) hc
      obtain ⟨s', hs', hcall, hpending, hrelated⟩ := ih hq hn (hagree.of_either hns hin) hj
      exact ⟨s', .inside hc' hs', hcall, hpending, hrelated⟩
  | @later depth i _ c next a' m n s hx hs ih =>
    cases depth' with
    | zero => cases hend
    | succ depth' =>
      obtain ⟨o, k, hk, hnext⟩ := exists_of_run_call hend
      have hns := (hs.grows hkeeps).tokens
      obtain ⟨⟨hc, hnames⟩, hp⟩ := hp
      have hreply := follows_reply hg hreplay hb (followed hg hreplay hb depth) h hc hnames
      obtain ⟨ha, n', hn', hn, hin⟩ := hreply.ok hx (hagree.of_within hns)
      cases (eventually_reply hk).unique hn'
      obtain ⟨s', hs', hcall, hpending, hrelated⟩ :=
        ih (hp a' ha) hn (hagree.of_either hns hin) hnext
      exact ⟨s', .later hk hs', hcall, hpending, hrelated⟩

/-! A test in a test of the same rule. -/

theorem Meets.pending_le {p : Program N σ α} {s : Site σ} (h : Meets g depth i p m s) :
    i ≤ s.pending := by
  induction h with
  | here => exact Nat.le_refl _
  | inside _ _ ih => omega
  | later _ _ ih => exact ih

/-- A site where the test of a program is in progress is inside it. -/
theorem Meets.levels_lt_of_pending {s : Site σ}
    (h : Meets g (depth + 1) 0 (Program.ask c) m s) (hs : 0 < s.pending) : s.levels < depth := by
  cases h with
  | here => exact absurd hs (Nat.lt_irrefl 0)
  | inside hc hp => exact hp.levels_lt
  | later hc hnext => cases hnext

theorem Meets.completes_test (hg : g.KeepsSessions) {p : Program N σ α} {s : Site σ}
    (h : Meets g depth i p m s) {rule : String} (hs : s.call = .test rule) {a : α}
    (hx : run g depth α p m = .ok a n) :
    ∃ answer l, test g (run g s.levels) rule s.machine = .ok answer l := by
  obtain ⟨answer, l, hl, -⟩ := h.completes hg hx
  obtain ⟨call, machine, levels, pending⟩ := s
  obtain rfl : call = .test rule := hs
  exact ⟨answer, l, hl⟩

/-- If a test without a memo comes to a test of the same rule at the same place, it has no end
wherever all the tokens are registered that it has registered until then. -/
theorem no_end_of_meets (hg : g.Steady view sc.skipper?) {rule : String} {s : Site σ}
    (hs : Meets (g.memoized false) (depth + 1) 0 (Program.ask (.test rule)) m s) (hm : m.In sc)
    (hcall : s.call = .test rule) (hpending : 0 < s.pending)
    (hoffset : s.machine.parser.cursor.offset = m.parser.cursor.offset) (d : Nat)
    (k : Machine σ) (hk : k.In sc) (ho : k.parser.cursor.offset = m.parser.cursor.offset)
    (ht : s.machine.shared.tokens.Within k.shared.tokens) (outcome : Except Error Bool) :
    plainTest g rule d k ≠ .ok outcome n := by
  induction d using Nat.strongRecOn generalizing k outcome n with
  | ind d ih =>
    intro hend
    have hkeeps := hg.keeps.memoized false
    have hgrows := (hs.grows hkeeps).tokens
    have hask := (congrFun (run_ask d (.test rule)) k).trans hend
    obtain ⟨t, hmeets, htcall, htpending, hrelated⟩ := meets_retraced hg hs (stays_test view sc rule)
      (.plain hm hk ho (hgrows.trans ht)) ht.agree hask
    obtain ⟨answer, j, hj⟩ := hmeets.completes_test hkeeps (htcall.trans hcall) hask
    have hoffset' : t.machine.parser.cursor.offset = m.parser.cursor.offset :=
      (congrArg Cursor.offset hrelated.cursor).trans hoffset
    exact ih t.levels (hmeets.levels_lt_of_pending (htpending ▸ hpending)) t.machine
      hrelated.right hoffset' (ht.trans (hmeets.grows hkeeps).tokens) answer hj

theorem exists_plainTest (hg : g.Steady view sc.skipper?) (hm : Lives g sc m) {rule : String}
    {answer : Except Error Bool} (h : test g (run g depth) rule m = .ok answer n) :
    ∃ d n', plainTest g rule d m = .ok answer n' := by
  have hfree := (untouched_test hg.keeps (runsGrow_run hg.keeps depth) rule m).ok h
  have hfollows := follows_test hg (fun _ => replayed hg) (by simp)
    (followed hg (fun _ => replayed hg) (by simp) depth) hm.related rule
  obtain ⟨-, n', ⟨d, hd⟩, -⟩ := hfollows.ok h hfree.tokens.agree.symm
  exact ⟨d, n', hd d (Nat.le_refl d)⟩

/-- A rule that is run for a test and comes to an end leaves the test's own key out of the memo. -/
theorem no_reentry (hg : g.Steady view sc.skipper?) (hmemo : g.memoizes = true)
    (hm : Lives g sc m) {rule : String} (hrecall : g.recall? m rule = none)
    {outcome : Except Error N}
    (hx : resolveAndInvoke g (run g depth) rule [] m.testing = .ok outcome l) :
    l.parser.memo.get? m.parser.cursor.offset rule = none := by
  cases hkey : l.parser.memo.get? m.parser.cursor.offset rule with
  | none => rfl
  | some matched =>
    exfalso
    obtain ⟨r, k, hr, hbody⟩ := exists_of_bind_eq_ok hx
    rw [invoke_eq] at hbody
    have hsame : k.parser.memo = m.parser.memo := ((still_resolve rule m.testing).ok hr).same
    have hnone : k.parser.memo.get? m.parser.cursor.offset rule = none := by
      rw [hsame, ← recall?_of_memoizes hmemo, hrecall]
    -- The key got into the memo by a test in the test.
    obtain ⟨s, hs, hcall, hoffset⟩ := meets_of_memoized (i := 1) hg.keeps (hg.keeps.body r []) hbody
      hnone (by simp [hkey])
    have hsite : Meets g (depth + 1) 0 (Program.ask (.test rule)) m s :=
      .inside (.test hrecall hr) hs
    have hsl := hs.within_end hg.keeps hbody
    -- Without a memo, the test comes to it too.
    obtain ⟨d, n, hplain⟩ := exists_plainTest hg hm (test_of_miss hrecall hx)
    obtain ⟨t, ht, htcall, htpending, hrelated⟩ := meets_retraced (b := g.memoizes) hg hsite
      (stays_test view sc rule) hm.related (hsite.grows hg.keeps).tokens.agree.symm
      ((congrFun (run_ask d (.test rule)) m).trans hplain)
    -- At the end the test is settled, so it has an end there.
    have hl := (keeps_resolveAndInvoke hg hmemo (hm.count _) rule []).ok hx |>.1
    obtain ⟨e, ⟨d', hd'⟩, -⟩ := hl.valid _ _ _ hkey (l.restore m.snapshot) (hm.rollback hl).scene rfl
      (.refl _)
    refine no_end_of_meets hg ht hm.scene (htcall.trans hcall) ?_ ?_ d' (l.restore m.snapshot)
      (hm.rollback hl).scene rfl ?_ (.ok matched) (hd' d' (Nat.le_refl d'))
    · exact htpending ▸ hs.pending_le
    · exact (congrArg Cursor.offset hrelated.cursor).trans hoffset
    · exact (hrelated.back (.inl hmemo)).trans hsl

end Engine

end Packrat
