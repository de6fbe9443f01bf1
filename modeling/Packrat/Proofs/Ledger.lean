import Packrat.Proofs.Sites

/-! What is entered for every test and struck off at its end holds wherever a run comes to. A ledger
is a condition on machines and on the number of tests in progress, with a law for each step that a
test takes; nothing else touches the memo or the counters of tests. -/

namespace Packrat
set_option autoImplicit false

/-- How often the log tells that a test of that session had its rule run. -/
def missesOf (serial : Nat) (log : List Event) : Nat :=
  (log.filterMap Event.miss?).countP fun key => key.1 = serial

theorem missesOf_append (serial : Nat) (log later : List Event) :
    missesOf serial (log ++ later) = missesOf serial log + missesOf serial later := by
  rw [missesOf, List.filterMap_append, List.countP_append]
  rfl

theorem missesOf_cons_of_quiet {serial : Nat} {log : List Event} {e : Event}
    (he : e.testSource? = none) : missesOf serial (e :: log) = missesOf serial log := by
  rw [missesOf, List.filterMap_cons_none (Event.miss?_of_quiet he)]
  rfl

theorem missesOf_eq_zero {serial : Nat} {log : List Event}
    (h : ∀ e ∈ log, ∀ s, e.testSource? = some s → s.serial ≠ serial) : missesOf serial log = 0 := by
  apply List.countP_eq_zero.2
  intro key hkey
  obtain ⟨e, he, hmiss⟩ := List.mem_filterMap.1 hkey
  obtain ⟨s, hs, hserial⟩ := Event.exists_of_miss? hmiss
  rw [← hserial]
  simpa using h e he s hs

namespace Machine
variable {σ : Type} {m n k : Machine σ}

/-- The serials of the session and of all tests that the log tells of have been given out. -/
structure Issued (m : Machine σ) : Prop where
  source : m.source.serial < m.shared.nextSerial
  tests : ∀ e ∈ m.shared.events, ∀ s, e.testSource? = some s → s.serial < m.shared.nextSerial

theorem Issued.of_grows (h : m.Issued) (hmn : m.Grows n) : n.Issued := by
  have hsource : m.source.serial < n.shared.nextSerial := Nat.lt_of_lt_of_le h.source hmn.serial
  have hallots {s : Source} (hs : m.Allots n s) : s.serial < n.shared.nextSerial := by
    rcases hs with rfl | hs
    · exact hsource
    · exact hs.2
  refine ⟨hallots hmn.session, ?_⟩
  obtain ⟨later, hevents, htests⟩ := hmn.later
  intro e he s hs
  rw [← hevents] at he
  rcases List.mem_append.1 he with he | he
  · exact hallots (htests e he s hs)
  · exact Nat.lt_of_lt_of_le (h.tests e he s hs) hmn.serial

/-- How often the log tells that a test of the session had its rule run. -/
def misses (m : Machine σ) : Nat := missesOf m.source.serial m.shared.events

theorem misses_emit_of_quiet (m : Machine σ) {e : Event} (he : e.testSource? = none) :
    (m.emit e).misses = m.misses :=
  missesOf_cons_of_quiet he

theorem misses_miss (hs : n.source = m.source) (rule : String) (matched : Bool) :
    (n.miss m.snapshot rule matched).misses = n.misses + 1 := by
  show ((m.source.serial, m.position.offset, rule) ::
    n.shared.events.filterMap Event.miss?).countP (fun key => key.1 = n.source.serial) = _
  rw [List.countP_cons_of_pos (by simpa using congrArg Source.serial hs.symm)]
  rfl

/-- No test is told of in a session that begins. -/
theorem Issued.misses_session (h : m.Issued) (name : String) (path? : Option String)
    (content : List Char) : (m.session name path? content).misses = 0 :=
  missesOf_eq_zero fun e he s hs => Nat.ne_of_lt (h.tests e he s hs)

/-- Parsers for included files make no tests of this session. -/
theorem misses_of_sub (hm : m.source.serial < m.shared.nextSerial) (h : m.sub.Grows n) :
    (n.withParser m.parser).misses = m.misses := by
  obtain ⟨later, hevents, htests⟩ := h.later
  have hlater : missesOf m.source.serial later = 0 := by
    apply missesOf_eq_zero
    intro e he s hs
    have hnew : m.shared.nextSerial ≤ s.serial := by
      rcases htests e he s hs with rfl | hle
      · exact Nat.le_refl _
      · exact Nat.le_of_succ_le hle.1
    exact (Nat.ne_of_lt (Nat.lt_of_lt_of_le hm hnew)).symm
  show missesOf m.source.serial n.shared.events = _
  rw [← hevents, missesOf_append, hlater, Nat.zero_add]
  exact missesOf_cons_of_quiet rfl

/-- `n` goes on from `m` with the same memo and the same tests counted and told of. -/
structure Still (m n : Machine σ) : Prop extends Continues m n where
  same : n.parser.memo = m.parser.memo
  tests : n.parser.stats.tests = m.parser.stats.tests
  hits : n.parser.stats.hits = m.parser.stats.hits
  misses : m.source.serial < m.shared.nextSerial → n.misses = m.misses

theorem Still.refl (m : Machine σ) : m.Still m := ⟨.refl m, rfl, rfl, rfl, fun _ => rfl⟩

theorem Still.trans (h : m.Still n) (h' : n.Still k) : m.Still k where
  toContinues := h.toContinues.trans h'.toContinues
  same := h'.same.trans h.same
  tests := h'.tests.trans h.tests
  hits := h'.hits.trans h.hits
  misses hs := by
    have hs' : n.source.serial < n.shared.nextSerial := by
      rw [h.source]
      exact Nat.lt_of_lt_of_le hs h.serial
    rw [h'.misses hs', h.misses hs]

theorem still_of_log (h : m.Continues n) (hmemo : n.parser.memo = m.parser.memo)
    (htests : n.parser.stats.tests = m.parser.stats.tests)
    (hhits : n.parser.stats.hits = m.parser.stats.hits)
    (hevents : n.shared.events = m.shared.events) : m.Still n where
  toContinues := h
  same := hmemo
  tests := htests
  hits := hhits
  misses _ := by
    rw [Machine.misses, h.source, hevents]
    rfl

theorem still_emit {e : Event} (he : e.testSource? = none) : m.Still (m.emit e) :=
  ⟨continues_emit_of_quiet he, rfl, rfl, rfl, fun _ => misses_emit_of_quiet m he⟩

theorem still_register (m : Machine σ) (id literal : String) : m.Still (m.register id literal) :=
  ⟨continues_register m id literal, rfl, rfl, rfl, fun _ => missesOf_cons_of_quiet rfl⟩

theorem still_matching (m : Machine σ) : m.Still m.matching :=
  still_of_log (continues_count m _) rfl rfl rfl rfl

theorem still_withSkipper (m : Machine σ) (skipper? : Option String) :
    m.Still (m.withSkipper skipper?) :=
  still_of_log (continues_withSkipper m skipper?) rfl rfl rfl rfl

theorem still_restore (m : Machine σ) (s : Snapshot) : m.Still (m.restore s) :=
  still_of_log (continues_restore m s) rfl rfl rfl rfl

theorem still_installing (m : Machine σ) (id : String) : m.Still (m.installing id) :=
  (still_emit rfl).trans (still_withSkipper _ _)

end Machine

namespace Engine
open Packrat.Action Machine
variable {N σ α : Type} {g : Setting N σ} {depth : Nat} {m n k : Machine σ}

theorem still_addToken (id literal : String) (m : Machine σ) :
    Ends (addToken id literal) m (fun _ n => m.Still n) fun _ _ => True := by
  rw [ends_addToken]
  split
  · exact .refl m
  · exact still_register m id literal

theorem still_resolve (id : String) (m : Machine σ) :
    Ends (resolve g id) m (fun _ n => m.Still n) fun _ _ => True := by
  rw [ends_resolve]
  split
  · exact .refl m
  · exact still_addToken id id m

theorem still_below (p : Program N σ α) (m : Machine σ) :
    Ends (below (run g depth) p) m (fun _ n => m.Still n) fun _ _ => True := by
  apply ends_below.2
  apply ends_of_ok
  intro a n hx
  have hgrows := (grows_run g depth p m.sub).ok hx
  exact ⟨continues_of_sub hgrows, rfl, rfl, rfl, fun hs => misses_of_sub hs hgrows⟩

/-- Calls that have no rule or skipper run in this session. -/
def Alone : Call σ → Prop
  | .invoke .. | .matchWith .. | .test _ | .testAll _ | .skip _ | .runSkipper _ | .setSkipper _
  | .start _ => False
  | _ => True

theorem still_reading {c : Call σ} {u : Cursor → Except Fault (c.Reply N × Cursor)}
    (hu : c.reading? = some u) (run : Runner N σ) (m : Machine σ) :
    Ends (reply g run c) m (fun _ n => m.Still n) fun _ _ => True := by
  rw [ends_reading hu]
  split
  · next a d hd =>
    have hreads := Cursor.reads_of_reading hu hd
    exact still_of_log (continues_withCursor hreads.source) rfl rfl rfl rfl
  · trivial

theorem still_reply {c : Call σ} (hc : Alone c) (hkeeps : c.KeepsSession g.disk) (m : Machine σ) :
    Ends (reply g (run g depth) c) m (fun _ n => m.Still n) fun _ _ => True := by
  cases c with
  | peek | next | rest | startsWith | eat | eatWhile | eatRegex | advance =>
    exact still_reading rfl _ m
  | atEnd | position | skipper | directory | hasRule | hasSkipper | ruleNames | skipperNames
  | gauge =>
    exact .refl m
  | moveTo p => exact still_of_log (continues_withCursor rfl) rfl rfl rfl rfl
  | restore s => exact still_restore m s
  | resolve id => exact still_resolve id m
  | addToken id literal => exact still_addToken id literal m
  | read file =>
    apply ends_read.2
    split
    · exact .refl m
    · next text htext => exact absurd htext (hkeeps _ text)
  | readText => exact hkeeps.elim
  | parseBelow file rule => exact still_below _ m
  | parseTextBelow name content rule => exact still_below _ m
  | make kind p => exact still_emit rfl
  | note label => exact still_emit rfl
  | consult f => exact still_of_log (continues_withOutside m _) rfl rfl rfl rfl
  | halt why => trivial
  | _ => exact hc.elim

/-! What every step but those of tests keeps, and what is run keeps, is kept by all calls but
tests. -/

section
variable {J : Machine σ → Prop} (hstill : ∀ {m n}, J m → m.Still n → J n)
include hstill

theorem kept_resolveAndInvoke {id : String} {params : Params} (hm : J m)
    (hbody : ∀ r n, resolve g id m = .ok r n → J n →
      Ends (run g depth _ (g.body r params)) n (fun _ l => J l) fun _ _ => True) :
    Ends (resolveAndInvoke g (run g depth) id params) m (fun _ n => J n) fun _ _ => True := by
  rw [ends_resolveAndInvoke]
  apply ends_of_ok
  intro r n hr
  exact hbody r n hr (hstill hm ((still_resolve id m).ok hr))

theorem kept_skip {id? : Option String} (hm : J m)
    (hbody : ∀ id skipper, id?.or m.parser.skipper? = some id →
      g.grammar.skippers[id]? = some skipper →
      Ends (run g depth _ skipper) m (fun _ l => J l) fun _ _ => True) :
    Ends (skip g (run g depth) id?) m (fun _ n => J n) fun _ _ => True := by
  rw [ends_skip]
  split
  · exact hm
  · next id hid =>
    split
    · exact hm
    · next skipper hs =>
      apply (hbody id skipper hid hs).imp_ok
      intro outcome n hn
      cases outcome with
      | ok skipped => exact hn
      | error e =>
        dsimp only
        split
        · exact hn
        · exact hstill hn (still_restore n _)

theorem kept_setSkipper {id? : Option String} (hm : J m)
    (hbody : ∀ id skipper, id? = some id → id ≠ "" → g.grammar.skippers[id]? = some skipper →
      J (m.installing id) →
      Ends (run g depth _ skipper) (m.installing id) (fun _ l => J l) fun _ _ => True) :
    Ends (setSkipper g (run g depth) id?) m (fun _ n => J n) fun _ _ => True := by
  by_cases hempty : id? = none ∨ id? = some ""
  · exact (ends_setSkipper_of_empty hempty).2 hm
  obtain ⟨id, rfl⟩ := Option.ne_none_iff_exists'.1 fun h => hempty (.inl h)
  have hid : id ≠ "" := fun h => hempty (.inr (congrArg some h))
  cases hs : g.grammar.skippers[id]? with
  | none => exact (ends_setSkipper_of_unknown hid hs).2 hm
  | some skipper =>
    have hset : J (m.installing id) := hstill hm (still_installing m id)
    apply (ends_setSkipper_of_skipper hid hs).2
    apply (hbody id skipper rfl hid hs hset).imp_ok
    intro outcome n hn
    cases outcome with
    | ok skipped => exact hn
    | error e =>
      dsimp only
      split
      · exact hn
      · exact hstill hn (still_restore n _)

/-- Rules in a row, of those that a test of all of them runs. -/
theorem kept_runAll {ids : List String} (before rules after : List String)
    (hids : ids = before ++ rules ++ after)
    (hbefore : runAll g (run g depth) before m = .ok (.ok ()) n) (hn : J n)
    (hbody : ∀ r k, Enters g depth (.testAll ids) m (g.body r []) k → J k →
      Ends (run g depth _ (g.body r [])) k (fun _ l => J l) fun _ _ => True) :
    Ends (runAll g (run g depth) rules) n (fun _ k => J k) fun _ _ => True := by
  induction rules generalizing before n with
  | nil => exact hn
  | cons id rules ih =>
    have hsplit : ids = before ++ id :: (rules ++ after) := by simp [hids]
    rw [ends_runAll_cons]
    apply ends_of_ok
    intro outcome k hk
    have hinvoke := kept_resolveAndInvoke hstill hn fun r j hr hj =>
      hbody r j (hsplit ▸ .testAll hbefore hr) hj
    have hJ : J k := hinvoke.ok hk
    cases outcome with
    | error e => exact hJ
    | ok node =>
      have hbefore' : runAll g (run g depth) (before ++ [id]) m = .ok (.ok ()) k := by
        rw [eq_ok_iff_ends, ends_runAll_append hbefore, ends_runAll_cons, ends_of_eq_ok hk]
        exact ⟨rfl, rfl⟩
      exact ih (before ++ [id]) (by simp [hids]) hbefore' hJ

/-- What the call runs keeps the condition. -/
def Carries (g : Setting N σ) (J : Machine σ → Prop) (depth : Nat) (c : Call σ) (m : Machine σ) :
    Prop :=
  ∀ (β : Type) (p : Program N σ (Except Error β)) n, Enters g depth c m p n → J n →
    Ends (run g depth _ p) n (fun _ l => J l) fun _ _ => True

theorem kept_installed {ref : RuleRef} {params : Params} {id : String} (hm : J m)
    (h : Carries g J depth (.matchWith ref params) m) (href : ref.skipper? = some id) :
    Ends (setSkipper g (run g depth) (some id)) m.matching (fun _ n => J n) fun _ _ => True := by
  apply kept_setSkipper hstill (hstill hm (still_matching m))
  rintro _ skipper ⟨⟩ hid hs hn
  exact h _ _ _ (.install href hid hs) hn

theorem kept_matchWith {ref : RuleRef} {params : Params} (hm : J m)
    (h : Carries g J depth (.matchWith ref params) m) :
    Ends (matchWith g (run g depth) ref params) m (fun _ n => J n) fun _ _ => True := by
  rw [ends_matchWith]
  cases href : ref.skipper? with
  | none =>
    apply kept_resolveAndInvoke hstill (hstill hm (still_matching m))
    intro r n hr hn
    exact h _ _ _ (.matchWith href hr) hn
  | some id =>
    apply ends_of_ok
    intro installed n hset
    have hn : J n := (kept_installed hstill hm h href).ok hset
    cases installed with
    | error e => exact hn
    | ok previous? =>
      have hinvoke := kept_resolveAndInvoke hstill hn fun r k hr hk =>
        h _ _ _ (.installed href hset hr) hk
      apply hinvoke.imp_ok
      intro outcome k hk
      exact hstill hk (still_withSkipper k previous?)

theorem kept_start {rule : String} (hm : J m) (h : Carries g J depth (.start rule) m) :
    Ends (start g (run g depth) rule) m (fun _ n => J n) fun _ _ => True := by
  rw [ends_start, ends_matchWith]
  have hmatching := (still_emit (m := m) (e := .started m.position.source.name rule) rfl).trans
    (still_matching _)
  have hinvoke := kept_resolveAndInvoke hstill (hstill hm hmatching) fun r k hr hk =>
    h _ _ _ (.start hr) hk
  apply hinvoke.imp_ok
  intro outcome n hn
  cases outcome with
  | ok node => exact hstill hn (still_emit rfl)
  | error e => exact hstill hn (still_emit rfl)

theorem kept_reply {c : Call σ} (hc : ∀ id, c ≠ .test id)
    (hkeeps : c.KeepsSession g.disk) (hm : J m) (h : Carries g J depth c m) :
    Ends (reply g (run g depth) c) m (fun _ n => J n) fun _ _ => True := by
  by_cases halone : Alone c
  · apply (still_reply halone hkeeps m).imp_ok
    intro _ n hn
    exact hstill hm hn
  cases c with
  | invoke r params =>
    rw [reply_invoke]
    exact h _ _ _ .invoke hm
  | matchWith ref params => exact kept_matchWith hstill hm h
  | test id => exact absurd rfl (hc id)
  | testAll ids =>
    apply ends_testAll.2
    have hall := kept_runAll hstill [] ids [] (by simp) rfl hm fun r k hr hk => h _ _ _ hr hk
    apply hall.imp_ok
    intro outcome n hn
    exact hstill hn (still_restore n _)
  | skip id? => exact kept_skip hstill hm fun id skipper hid hs => h _ _ _ (.skip hid hs) hm
  | runSkipper id =>
    rw [ends_runSkipper]
    split
    · exact hm
    · next skipper hs => exact h _ _ _ (.runSkipper hs) hm
  | setSkipper id? =>
    apply kept_setSkipper hstill hm
    rintro id skipper rfl hid hs hn
    exact h _ _ _ (.setSkipper hid hs) hn
  | start rule => exact kept_start hstill hm h
  | _ => exact absurd trivial halone

theorem kept_enters {c : Call σ} {p : Program N σ (Except Error α)} (hc : ∀ id, c ≠ .test id)
    (hm : J m) (h : Carries g J depth c m) (hp : Enters g depth c m p n) : J n := by
  have hresolve {id : String} {r : Resolved} {k l : Machine σ} (hk : J k)
      (hr : resolve g id k = .ok r l) : J l :=
    hstill hk ((still_resolve id k).ok hr)
  cases hp with
  | invoke => exact hm
  | matchWith href hr => exact hresolve (hstill hm (still_matching m)) hr
  | install href hid hs => exact hstill hm ((still_matching m).trans (still_installing _ _))
  | installed href hset hr => exact hresolve ((kept_installed hstill hm h href).ok hset) hr
  | test hm hr => exact absurd rfl (hc _)
  | testAll hbefore hr =>
    have hall := kept_runAll hstill [] _ _ rfl rfl hm fun r k hr hk => h _ _ _ hr hk
    exact hresolve (hall.ok hbefore) hr
  | skip hid hs => exact hm
  | runSkipper hs => exact hm
  | setSkipper hid hs => exact hstill hm (still_installing m _)
  | start hr => exact hresolve (hstill hm ((still_emit rfl).trans (still_matching _))) hr

end

/-- A condition that goes with the number of tests in progress. Where a rule has been run for a test,
it may depend on how that went, as `fair` says. -/
structure Ledger (g : Setting N σ) where
  holds : Nat → Machine σ → Prop
  fair : Machine σ → String → Except Error Bool → Machine σ → Prop
  still : ∀ {i m n}, holds i m → m.Still n → holds i n
  testing : ∀ {i m}, holds i m → holds (i + 1) m.testing
  hit : ∀ {i m rule matched}, holds i m → g.recall? m rule = some matched →
    holds i (m.hit rule matched)
  miss : ∀ {i m n rule answer}, holds i m → holds (i + 1) n → m.Continues n →
    g.recall? m rule = none → fair m rule answer n → holds i (n.tested m.snapshot rule answer)
  session : ∀ {m} name path? content, holds 0 m → holds 0 (m.session name path? content)

namespace Ledger
variable (L : Ledger g) {i : Nat}

/-- If a test is made at the site and its rule is run, that goes as the ledger asks. -/
def Fair (s : Site σ) : Prop :=
  ∀ rule outcome n, s.call = .test rule → g.recall? s.machine rule = none →
    resolveAndInvoke g (run g s.levels) rule [] s.machine.testing = .ok outcome n →
    L.fair s.machine rule (verdict outcome) n

variable {L}

theorem ends_test (hg : g.KeepsSessions) {rule : String} (hm : L.holds i m)
    (hfair : L.Fair ⟨.test rule, m, depth, i⟩)
    (h : Carries g (L.holds (i + 1)) depth (.test rule) m) :
    Ends (test g (run g depth) rule) m (fun _ n => L.holds i n) fun _ _ => True := by
  cases hrecall : g.recall? m rule with
  | some matched => exact (ends_test_of_recall hrecall).2 (L.hit hm hrecall)
  | none =>
    have hinvoke := kept_resolveAndInvoke L.still (L.testing hm) fun r k hr hk =>
      h _ _ _ (.test hrecall hr) hk
    have hgoes := (continuing_resolveAndInvoke hg (runsGrow_run hg depth) rule []).after
      (continues_testing m)
    apply (ends_test_of_miss hrecall).2
    apply ends_of_ok
    intro outcome n hx
    exact L.miss hm (hinvoke.ok hx) (hgoes.ok hx) hrecall (hfair rule outcome n rfl hrecall hx)

theorem ends_reply (hg : g.KeepsSessions) {c : Call σ} (hkeeps : c.KeepsSession g.disk ∨ i = 0)
    (hm : L.holds i m) (hfair : L.Fair ⟨c, m, depth, i⟩)
    (h : Carries g (L.holds (i + c.pends)) depth c m) :
    Ends (reply g (run g depth) c) m (fun _ n => L.holds i n) fun _ _ => True := by
  cases c with
  | test rule => exact ends_test hg hm hfair h
  | read file =>
    apply ends_read.2
    split
    · exact hm
    · next text htext =>
      rcases hkeeps with hkeeps | rfl
      · exact absurd htext (hkeeps _ text)
      · exact L.session _ _ _ hm
  | readText name content =>
    rcases hkeeps with hkeeps | rfl
    · exact hkeeps.elim
    · exact L.session _ _ _ hm
  | _ => exact kept_reply L.still (by simp) trivial hm h

theorem holds_enters {c : Call σ} {p : Program N σ (Except Error α)} (hm : L.holds i m)
    (h : Carries g (L.holds (i + c.pends)) depth c m) (hp : Enters g depth c m p n) :
    L.holds (i + c.pends) n := by
  cases c with
  | test rule =>
    cases hp with
    | test hrecall hr => exact L.still (L.testing hm) ((still_resolve rule _).ok hr)
  | _ => exact kept_enters L.still (by simp) hm h hp

theorem keeps_enters (hg : g.KeepsSessions) {c : Call σ} {p : Program N σ (Except Error α)}
    (hp : Enters g depth c m p n) : p.Only (Call.KeepsSession g.disk) :=
  hp.of_grammar (motive := fun p => p.Only (Call.KeepsSession g.disk)) hg.body hg.skipper

/-- Runs with so many levels keep the ledger if they meet fair sites only. -/
def Lasting (L : Ledger g) (depth : Nat) : Prop :=
  ∀ {α : Type} {p : Program N σ α} {i : Nat} {m : Machine σ},
    p.Only (Call.KeepsSession g.disk) ∨ i = 0 → L.holds i m →
    (∀ s, Meets g depth i p m s → L.Fair s) →
    Ends (run g depth α p) m (fun _ n => L.holds i n) fun _ _ => True

theorem carries_of_lasting (hg : g.KeepsSessions) (hL : L.Lasting depth) {c : Call σ}
    {next : c.Reply N → Program N σ α}
    (hfair : ∀ s, Meets g (depth + 1) i (.call c next) m s → L.Fair s) :
    Carries g (L.holds (i + c.pends)) depth c m := by
  intro β q n hq hn
  apply hL (.inl (keeps_enters hg hq)) hn
  intro s hs
  exact hfair s (.inside hq hs)

theorem ends_call_of_lasting (hg : g.KeepsSessions) (hL : L.Lasting depth) {c : Call σ}
    {next : c.Reply N → Program N σ α}
    (hp : (Program.call c next).Only (Call.KeepsSession g.disk) ∨ i = 0) (hm : L.holds i m)
    (hfair : ∀ s, Meets g (depth + 1) i (.call c next) m s → L.Fair s) :
    Ends (reply g (run g depth) c) m (fun _ n => L.holds i n) fun _ _ => True :=
  ends_reply hg (hp.imp_left And.left) hm (hfair _ .here) (carries_of_lasting hg hL hfair)

theorem lasting (hg : g.KeepsSessions) (L : Ledger g) (depth : Nat) : L.Lasting depth := by
  induction depth with
  | zero =>
    intro α p i m _ _ _
    trivial
  | succ depth ih =>
    intro α p i m hp hm hfair
    induction p generalizing m with
    | done a => exact hm
    | call c next ihp =>
      have hreply := ends_call_of_lasting hg ih hp hm hfair
      apply ends_bind.2
      apply ends_of_ok
      intro a n hx
      apply ihp a (hp.imp_left fun h => h.2 a trivial) (hreply.ok hx)
      intro s hs
      exact hfair s (.later hx hs)

/-- The ledger holds wherever a run comes to that meets fair sites only. -/
theorem holds_of_meets (hg : g.KeepsSessions) (L : Ledger g) {p : Program N σ α} {s : Site σ}
    (hs : Meets g depth i p m s) (hp : p.Only (Call.KeepsSession g.disk) ∨ i = 0)
    (hm : L.holds i m) (hfair : ∀ t, Meets g depth i p m t → L.Fair t) :
    L.holds s.pending s.machine := by
  induction hs with
  | here => exact hm
  | inside hq _ ih =>
    apply ih (.inl (keeps_enters hg hq))
    · exact holds_enters hm (carries_of_lasting hg (lasting hg L _) hfair) hq
    · intro t ht
      exact hfair t (.inside hq ht)
  | later hx _ ih =>
    apply ih (hp.imp_left fun h => h.2 _ trivial)
    · exact (ends_call_of_lasting hg (lasting hg L _) hp hm hfair).ok hx
    · intro t ht
      exact hfair t (.later hx ht)

theorem holds_of_end (hg : g.KeepsSessions) (L : Ledger g) {p : Program N σ α} {a : α}
    (hx : run g depth α p m = .ok a n) (hp : p.Only (Call.KeepsSession g.disk) ∨ i = 0)
    (hm : L.holds i m) (hfair : ∀ s, Meets g depth i p m s → L.Fair s) : L.holds i n :=
  (lasting hg L depth hp hm hfair).ok hx

end Ledger

/-! The keys of the memo. -/

variable {i : Nat}

/-- Every key in the memo is one of these. -/
def listed (g : Setting N σ) (keys : Nat → String → Prop) : Ledger g where
  holds _ m := ∀ offset rule, m.parser.memo.get? offset rule ≠ none → keys offset rule
  fair m rule _ _ := keys m.parser.cursor.offset rule
  still h hmn offset rule hn := h offset rule (hmn.same ▸ hn)
  testing h := h
  hit h _ := h
  miss := by
    intro i m n rule answer hm hn _ _ hkey offset id hget
    cases answer with
    | error e => exact hn offset id hget
    | ok matched =>
      change (n.parser.memo.insert m.parser.cursor.offset rule matched).get? offset id ≠ none at hget
      rw [Memo.get?_insert] at hget
      split at hget
      · next heq =>
        obtain ⟨rfl, rfl⟩ := heq
        exact hkey
      · exact hn offset id hget
  session _ _ _ _ offset rule hget := absurd (Memo.get?_empty offset rule) hget

/-- A key that gets into the memo while a program runs is that of a test which the run meets. -/
theorem meets_of_memoized (hg : g.KeepsSessions) {p : Program N σ α}
    (hp : p.Only (Call.KeepsSession g.disk)) {a : α} (hx : run g depth α p m = .ok a n)
    {offset : Nat} {rule : String} (hm : m.parser.memo.get? offset rule = none)
    (hn : n.parser.memo.get? offset rule ≠ none) :
    ∃ s, Meets g depth i p m s ∧ s.call = .test rule ∧ s.machine.parser.cursor.offset = offset := by
  let keys (o : Nat) (id : String) : Prop :=
    m.parser.memo.get? o id ≠ none ∨
      ∃ s, Meets g depth i p m s ∧ s.call = .test id ∧ s.machine.parser.cursor.offset = o
  have hfair (s : Site σ) (hs : Meets g depth i p m s) : (listed g keys).Fair s := by
    intro id outcome l hcall _ _
    exact .inr ⟨s, hs, hcall, rfl⟩
  have hkeys := (listed g keys).holds_of_end hg hx (.inl hp) (fun _ _ => Or.inl) hfair
  exact (hkeys offset rule hn).resolve_left fun h => h hm

end Engine

end Packrat
