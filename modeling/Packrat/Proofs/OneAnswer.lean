import Packrat.Proofs.Continuity
import Packrat.Proofs.Depth

/-! The log tells all answers of tests. A test that finds its own outcome stored when its rule has
been run answers a key a second time; if no run meets such a test, each key has one answer. -/

namespace Packrat
set_option autoImplicit false

namespace Event

/-- The answer that a test gave, from the memo or not. -/
def answer? : Event → Option (TestKey × Bool)
  | .tested _ rule p matched => some ((p.source.serial, p.offset, rule), matched)
  | _ => none

theorem answer?_of_quiet {e : Event} (he : e.testSource? = none) : e.answer? = none := by
  cases e <;> first | rfl | cases he

theorem exists_of_answer? {e : Event} {key : TestKey} {matched : Bool}
    (h : e.answer? = some (key, matched)) : ∃ s, e.testSource? = some s ∧ s.serial = key.1 := by
  cases e <;> cases h
  exact ⟨_, rfl, rfl⟩

theorem answer?_of_miss? {e : Event} {key : TestKey} (h : e.miss? = some key) :
    ∃ matched, e.answer? = some (key, matched) := by
  cases e with
  | tested known rule p matched =>
    cases known with
    | true => cases h
    | false => exact ⟨matched, congrArg (fun k => some (k, matched)) (Option.some.inj h)⟩
  | _ => cases h

end Event

/-- The log tells of an answer for the key. -/
def Told (log : List Event) (key : TestKey) (matched : Bool) : Prop :=
  ∃ e ∈ log, e.answer? = some (key, matched)

theorem told_cons {log : List Event} {e : Event} {key : TestKey} {matched : Bool} :
    Told (e :: log) key matched ↔ e.answer? = some (key, matched) ∨ Told log key matched := by
  simp only [Told, List.mem_cons, exists_eq_or_imp]

theorem told_cons_of_quiet {log : List Event} {e : Event} (he : e.testSource? = none)
    {key : TestKey} {matched : Bool} : Told (e :: log) key matched ↔ Told log key matched := by
  simp [told_cons, Event.answer?_of_quiet he]

theorem Told.of_suffix {log log' : List Event} {key : TestKey} {matched : Bool}
    (h : Told log key matched) (hlog : log <:+ log') : Told log' key matched := by
  obtain ⟨e, he, ha⟩ := h
  exact ⟨e, hlog.subset he, ha⟩

theorem told_of_missed {log : List Event} {key : TestKey} (h : key ∈ log.filterMap Event.miss?) :
    ∃ matched, Told log key matched := by
  obtain ⟨e, he, hmiss⟩ := List.mem_filterMap.1 h
  obtain ⟨matched, ha⟩ := Event.answer?_of_miss? hmiss
  exact ⟨matched, e, he, ha⟩

/-- All answers for a key are the same, and no key was missed twice. -/
structure OneAnswer (log : List Event) : Prop where
  same : ∀ key a b, Told log key a → Told log key b → a = b
  once : (log.filterMap Event.miss?).Nodup

theorem OneAnswer.of_suffix {log log' : List Event} (h : OneAnswer log') (hlog : log <:+ log') :
    OneAnswer log where
  same := by
    intro key a b ha hb
    exact h.same key a b (ha.of_suffix hlog) (hb.of_suffix hlog)
  once := h.once.sublist (hlog.sublist.filterMap _)

theorem oneAnswer_cons_of_quiet {log : List Event} {e : Event} (he : e.testSource? = none)
    (h : OneAnswer log) : OneAnswer (e :: log) where
  same := by
    intro key a b ha hb
    rw [told_cons_of_quiet he] at ha hb
    exact h.same key a b ha hb
  once := by
    rw [List.filterMap_cons_none (Event.miss?_of_quiet he)]
    exact h.once

theorem told_tested {log : List Event} {known : Bool} {rule : String} {p : Position}
    {matched b : Bool} {key : TestKey} : Told (.tested known rule p matched :: log) key b ↔
      (key = (p.source.serial, p.offset, rule) ∧ matched = b) ∨ Told log key b := by
  rw [told_cons, Event.answer?, Option.some.injEq, Prod.mk.injEq, eq_comm (b := key)]

theorem oneAnswer_cons_tested {log : List Event} (h : OneAnswer log) {known : Bool} {rule : String}
    {p : Position} {matched : Bool}
    (hold : ∀ b, Told log (p.source.serial, p.offset, rule) b → known = true ∧ b = matched) :
    OneAnswer (.tested known rule p matched :: log) where
  same := by
    intro key a b ha hb
    rw [told_tested] at ha hb
    rcases ha with ⟨rfl, rfl⟩ | ha
    · rcases hb with ⟨-, rfl⟩ | hb
      · rfl
      · exact (hold b hb).2.symm
    · rcases hb with ⟨rfl, rfl⟩ | hb
      · exact (hold a ha).2
      · exact h.same key a b ha hb
  once := by
    cases known with
    | true => exact h.once
    | false =>
      apply List.nodup_cons.2
      constructor
      · intro hmem
        obtain ⟨b, hb⟩ := told_of_missed hmem
        cases (hold b hb).1
      · exact h.once

namespace Machine
variable {σ : Type} {m n : Machine σ}

/-- The log tells of one answer for each key, and the memo has those of its session. -/
structure Recorded (m : Machine σ) : Prop where
  one : OneAnswer m.shared.events
  source : m.source.serial < m.shared.nextSerial
  serial : ∀ e ∈ m.shared.events, ∀ s, e.testSource? = some s → s.serial < m.shared.nextSerial
  memo : ∀ offset rule matched, m.parser.memo.get? offset rule = some matched ↔
    Told m.shared.events (m.source.serial, offset, rule) matched

/-- What the memo of `m` has is in the memo of `n` as it was, if the session is the same. -/
def Lasts (m n : Machine σ) : Prop :=
  m.source = n.source → ∀ offset rule matched,
    m.parser.memo.get? offset rule = some matched → n.parser.memo.get? offset rule = some matched

theorem Recorded.lasts (h : m.Recorded) (h' : n.Recorded)
    (hlog : m.shared.events <:+ n.shared.events) : m.Lasts n := by
  intro hs offset rule matched hm
  have htold := ((h.memo offset rule matched).1 hm).of_suffix hlog
  exact (h'.memo offset rule matched).2 (hs ▸ htold)

/-- Changes that the log and the memo do not see. -/
theorem Recorded.congr (h : m.Recorded) (hs : n.source = m.source)
    (hmemo : n.parser.memo = m.parser.memo) (hlog : n.shared.events = m.shared.events)
    (hserial : n.shared.nextSerial = m.shared.nextSerial) : n.Recorded where
  one := hlog ▸ h.one
  source := by
    rw [hs, hserial]
    exact h.source
  serial := by
    rw [hlog, hserial]
    exact h.serial
  memo := by
    rw [hs, hmemo, hlog]
    exact h.memo

theorem Recorded.emit (h : m.Recorded) {e : Event} (he : e.testSource? = none) :
    (m.emit e).Recorded where
  one := oneAnswer_cons_of_quiet he h.one
  source := h.source
  serial := by
    intro e' he' s hs
    rcases List.mem_cons.1 he' with rfl | he'
    · cases he.symm.trans hs
    · exact h.serial e' he' s hs
  memo := by
    intro offset rule matched
    exact (h.memo offset rule matched).trans (told_cons_of_quiet he).symm

/-- A test tells its answer, which the memo has from then on. If it had one, it was this one, and
the test did not miss. -/
theorem Recorded.tested (h : m.Recorded) {known : Bool} {rule : String} {p : Position}
    {matched : Bool} {memo : Memo} (hp : p.source = m.source)
    (hmemo : ∀ offset id, memo.get? offset id =
      if p.offset = offset ∧ rule = id then some matched else m.parser.memo.get? offset id)
    (hold : ∀ b, m.parser.memo.get? p.offset rule = some b → known = true ∧ b = matched) :
    ((m.emit (.tested known rule p matched)).withParser { m.parser with memo }).Recorded := by
  have htold (b : Bool) (hb : Told m.shared.events (p.source.serial, p.offset, rule) b) :
      known = true ∧ b = matched := by
    rw [hp] at hb
    exact hold b ((h.memo _ _ _).2 hb)
  refine ⟨oneAnswer_cons_tested h.one htold, h.source, ?_, ?_⟩
  · intro e he s hs
    rcases List.mem_cons.1 he with rfl | he
    · cases hs
      rw [hp]
      exact h.source
    · exact h.serial e he s hs
  · intro offset id b
    show memo.get? offset id = some b ↔
      Told (.tested known rule p matched :: m.shared.events) (m.source.serial, offset, id) b
    rw [hmemo, told_tested, ← hp]
    by_cases hkey : p.offset = offset ∧ rule = id
    · obtain ⟨rfl, rfl⟩ := hkey
      rw [if_pos ⟨rfl, rfl⟩, Option.some.injEq]
      constructor
      · intro hb
        exact Or.inl ⟨rfl, hb⟩
      · rintro (⟨-, hb⟩ | hb)
        · exact hb
        · exact (htold b hb).2.symm
    · rw [if_neg hkey, h.memo, ← hp]
      constructor
      · exact Or.inr
      · rintro (⟨heq, -⟩ | hb)
        · cases heq
          exact absurd ⟨rfl, rfl⟩ hkey
        · exact hb

theorem Recorded.session (h : m.Recorded) (name : String) (path? : Option String)
    (text : List Char) : (m.session name path? text).Recorded where
  one := h.one
  source := Nat.lt_succ_self _
  serial := by
    intro e he s hs
    exact Nat.lt_succ_of_lt (h.serial e he s hs)
  memo := by
    intro offset rule matched
    constructor
    · intro hm
      cases (Memo.get?_empty offset rule).symm.trans hm
    -- No test was made in this session yet.
    · rintro ⟨e, he, ha⟩
      obtain ⟨s, hs, hserial⟩ := Event.exists_of_answer? ha
      have hlt := h.serial e he s hs
      exact absurd hserial (Nat.ne_of_lt hlt)

/-- Back in a session, whose tests no other parser has made. -/
theorem Recorded.back (h : m.Recorded) (hn : n.Recorded) (hgrows : m.sub.Grows n) :
    (n.withParser m.parser).Recorded where
  one := hn.one
  source := Nat.lt_of_lt_of_le h.source ((grows_sub m).trans hgrows).serial
  serial := hn.serial
  memo := by
    intro offset rule matched
    refine (h.memo offset rule matched).trans ?_
    constructor
    · intro ht
      exact ht.of_suffix ((grows_sub m).trans hgrows).events
    · rintro ⟨e, he, ha⟩
      obtain ⟨later, hevents, htests⟩ := hgrows.later
      change e ∈ n.shared.events at he
      rw [← hevents] at he
      rcases List.mem_append.1 he with he | he
      · obtain ⟨s, hs, hserial⟩ := Event.exists_of_answer? ha
        have hlt : s.serial < m.shared.nextSerial := by
          rw [hserial]
          exact h.source
        rcases htests e he s hs with rfl | hle
        · exact absurd hlt (Nat.lt_irrefl _)
        · exact absurd (Nat.lt_of_succ_le hle.1) (Nat.lt_asymm hlt)
      · exact (told_cons_of_quiet rfl).1 ⟨e, he, ha⟩

/-- Whatever the memo has was missed. -/
def Backed (m : Machine σ) : Prop :=
  ∀ offset rule, m.parser.memo.get? offset rule ≠ none →
    (m.source.serial, offset, rule) ∈ m.shared.events.filterMap Event.miss?

theorem Backed.of_log (h : m.Backed) (hs : n.source = m.source)
    (hmemo : n.parser.memo = m.parser.memo) (hlog : m.shared.events <:+ n.shared.events) :
    n.Backed := by
  intro offset rule hn
  rw [hmemo] at hn
  rw [hs]
  exact (hlog.sublist.filterMap _).subset (h offset rule hn)

theorem Backed.miss (h : n.Backed) (hs : n.source = m.source) (rule : String) (matched : Bool) :
    (n.miss m.snapshot rule matched).Backed := by
  intro offset id hn
  have hget := Memo.get?_insert n.parser.memo m.position.offset offset rule id matched
  change (n.parser.memo.insert m.position.offset rule matched).get? offset id ≠ none at hn
  show (n.source.serial, offset, id) ∈ (m.source.serial, m.position.offset, rule) :: _
  rw [hget] at hn
  split at hn
  · next hkey =>
    obtain ⟨rfl, rfl⟩ := hkey
    rw [hs]
    exact List.mem_cons_self
  · exact List.mem_cons_of_mem _ (h offset id hn)

end Machine

namespace Engine
open Packrat.Action Machine
variable {N σ α : Type} {g : Setting N σ} {m n l : Machine σ}

/-- The memo has no outcome for the test, but when its rule has been run to one that counts, it
has. -/
def Reentrant (g : Setting N σ) : Call σ → Machine σ → Prop
  | .test rule, m => g.recall? m rule = none ∧ ∃ depth outcome matched n,
      resolveAndInvoke g (run g depth) rule [] m.testing = .ok outcome n ∧
        verdict outcome = .ok matched ∧ n.parser.memo.get? m.position.offset rule ≠ none
  | _, _ => False

/-- A test that is not reentrant puts in a key that was not missed before. -/
theorem recorded_of_putsBack {depth : Nat} {c : Call σ} (hl : l.Recorded) (hs : l.source = m.source)
    (hc : ¬Reentrant g c m) (h : PutsBack g (run g depth) c m l n) : n.Recorded := by
  have hback (s : Snapshot) : (l.restore s).Recorded := hl.congr rfl rfl rfl rfl
  cases h with
  | @test rule outcome _ _ hrecall hx =>
    unfold tested
    split
    · next matched hverdict =>
      refine (hback m.snapshot).tested hs.symm (Memo.get?_insert _ _ · _ · _) ?_
      intro b hb
      have hmemo : l.parser.memo.get? m.position.offset rule ≠ none := by
        intro hnone
        cases hb.symm.trans hnone
      exact absurd ⟨hrecall, depth, outcome, matched, l, hx, hverdict, hmemo⟩ hc
    · exact hback _
  | testAll | skip | setSkipper | install => exact hback _
  | matchWith => exact hl.congr rfl rfl rfl rfl

/-- Without such tests, the log goes on telling one answer for each key. -/
def recording (g : Setting N σ) (hmemo : g.memoizes = true) :
    Invariant g (.blind N σ) fun c m => ¬Strays g c m ∧ ¬Reentrant g c m where
  known _ := True
  holds := Recorded
  faults _ := Recorded
  respects := g.respects_blind
  knows _ := trivial
  outside _ _ _ := trivial
  parser h hc hm := h.congr (congrArg Cursor.source hc) hm rfl rfl
  emit h he := h.emit he
  tokens _ h := h.congr rfl rfl rfl rfl
  consult h _ := h.congr rfl rfl rfl rfl
  reads h hd := h.congr hd.source rfl rfl rfl
  moves h _ _ := h.congr rfl rfl rfl rfl
  hit := by
    intro m rule matched h hrecall
    have hget : m.parser.memo.get? m.position.offset rule = some matched := by
      unfold Setting.recall? at hrecall
      rwa [if_pos hmemo] at hrecall
    apply h.tested rfl
    · intro offset id
      split
      · next hkey =>
        obtain ⟨rfl, rfl⟩ := hkey
        exact hget
      · rfl
    · intro b hb
      exact ⟨rfl, Option.some.inj (hb.symm.trans hget)⟩
  putsBack _ hl hP hback :=
    recorded_of_putsBack hl (hback.source_eq hP.1) hP.2 hback.of_runWhile
  read name path? h _ := h.session name path? _
  readText h _ := h.session _ _ _
  sub := by
    intro m h
    exact ((h.emit (e := .rooted m.root) rfl).session emptyName none []).congr rfl rfl rfl rfl
  back h hn hgrows := h.back hn hgrows
  reading h _ _ _ := h
  halt h _ := h
  tooDeep h := h

theorem backed_of_putsBack {run : Runner N σ} {c : Call σ} (hl : l.Backed) (hs : l.source = m.source)
    (h : PutsBack g run c m l n) : n.Backed := by
  cases h with
  | test =>
    unfold tested
    split
    · exact hl.miss hs _ _
    · exact hl.of_log rfl rfl List.suffix_rfl
  | testAll | skip | setSkipper | install | matchWith => exact hl.of_log rfl rfl List.suffix_rfl

def backing (g : Setting N σ) : Invariant g (.blind N σ) fun c m => ¬Strays g c m where
  known _ := True
  holds := Backed
  faults _ _ := True
  respects := g.respects_blind
  knows _ := trivial
  outside _ _ _ := trivial
  parser h hc hm := h.of_log (congrArg Cursor.source hc) hm List.suffix_rfl
  emit h _ := h.of_log rfl rfl (List.suffix_cons _ _)
  tokens _ h := h.of_log rfl rfl List.suffix_rfl
  consult h _ := h.of_log rfl rfl List.suffix_rfl
  reads h hd := h.of_log hd.source rfl List.suffix_rfl
  moves h _ _ := h.of_log rfl rfl List.suffix_rfl
  hit h _ := h.of_log rfl rfl (List.suffix_cons _ _)
  putsBack _ hl hP hback := backed_of_putsBack hl (hback.source_eq hP) hback
  read _ _ _ _ _ _ hn := absurd (Memo.get?_empty _ _) hn
  readText _ _ _ _ hn := absurd (Memo.get?_empty _ _) hn
  sub _ _ _ hn := absurd (Memo.get?_empty _ _) hn
  back h _ hgrows := h.of_log rfl rfl ((grows_sub _).trans hgrows).events
  reading _ _ _ _ := trivial
  halt _ _ := trivial
  tooDeep _ := trivial

/-- The ends with one answer for each key. -/
def clean : Scope σ where
  answers n := OneAnswer n.shared.events
  halts why n := OneAnswer n.shared.events ∧ why ≠ .tooDeep
  of_log hlog h := h.of_suffix hlog
  of_halts h := h.1

/-- A run that is watched for straying agrees with a deeper one, if its end has one answer for each
key. -/
theorem concord_clean (g : Setting N σ) {depth depth' : Nat} (hle : depth ≤ depth') :
    Concord (backing g) clean (runWhile g (fun c k => ¬Strays g c k) .tooDeep depth)
      (run g depth') where
  watched := ⟨.tooDeep, depth, rfl⟩
  agrees := by
    intro β p gives m hp hm
    have h := agrees_runWhile (I := backing g) (s := clean) (R := fun _ _ => True) .tooDeep .tooDeep
      (fun _ _ _ _ _ _ _ => trivial) (fun _ _ _ _ h => h.2 rfl) hle
      (fun _ h => absurd rfl h.2) hp hm
    rwa [runWhile_of_always (P := fun _ _ => True) _ fun _ _ => trivial] at h

/-- A test that finds its outcome stored misses its key once more. -/
theorem not_reentrant_of_clean (hm : m.Backed) {c : Call σ} {depth : Nat} (hc : ¬Strays g c m)
    (h : clean.Counts (reply g (runWhile g (fun c k => ¬Strays g c k) .tooDeep depth) c m)) :
    ¬Reentrant g c m := by
  intro hre
  cases c with
  | test rule =>
    obtain ⟨hrecall, depth', outcome, matched, n, hx, hverdict, hmemo⟩ := hre
    have htesting : m.testing.Backed := hm.of_log rfl rfl List.suffix_rfl
    -- The two runs may have had different numbers of levels; the larger one serves both.
    have hx : resolveAndInvoke g (run g (max depth depth')) rule [] m.testing = .ok outcome n :=
      ((agrees_resolveAndInvoke (concord_run (.always g _) (Nat.le_max_right depth depth')) trivial
        rule []).ok hx trivial).1
    have hagrees := agrees_resolveAndInvoke (concord_clean g (Nat.le_max_left depth depth'))
      htesting rule []
    change clean.Counts (test g (runWhile g _ .tooDeep depth) rule m) at h
    cases hwatched : resolveAndInvoke g (runWhile g (fun c k => ¬Strays g c k) .tooDeep depth) rule
        [] m.testing with
    | error why k =>
      rw [test_of_miss_error hrecall hwatched] at h
      cases hx.symm.trans (hagrees.error hwatched h).1
    | ok o k =>
      rw [test_of_miss hrecall hwatched] at h
      have hclean : OneAnswer k.shared.events := h.of_suffix (suffix_tested _ _ _ _)
      obtain ⟨heq, -, hk⟩ := hagrees.ok hwatched hclean
      cases hx.symm.trans heq
      have hs : n.source = m.source := by
        apply Classical.byContradiction
        intro hs
        exact hc ⟨_, n, _, .test hrecall hx, hs⟩
      rw [hverdict] at h
      refine (List.nodup_cons.1 h.once).1 ?_
      have hkey := hk m.position.offset rule hmemo
      rw [hs] at hkey
      exact hkey
  | _ => exact hre

/-- In a run that ends and in which no call strays, each key has one answer, no rule is run twice for
one, and the memo keeps what it has for the rest of the session, if and only if no test of the run
finds its own outcome stored when its rule has been run. -/
theorem one_answer_iff_not_reentrant (hmemo : g.memoizes = true) (hm : m.Recorded)
    (hbacked : m.Backed) (p : Program N σ α) (depth : Nat)
    (hstays : Throughout g (fun c k => ¬Strays g c k) depth p m)
    (hend : ∀ n, run g depth α p m ≠ .error .tooDeep n) :
    (OneAnswer (last (run g depth α p) m).shared.events ∧
      Throughout g (fun _ k => k.Lasts (last (run g depth α p) m)) depth p m) ↔
    Throughout g (fun c k => ¬Strays g c k ∧ ¬Reentrant g c k) depth p m := by
  constructor
  · rintro ⟨hone, -⟩ why
    have hp := p.abides_of_always (.blind N σ) (fun _ => trivial : ∀ q, (backing g).known q)
    -- The end has one answer for each key, so no log before it has more.
    have hagrees := agrees_runWhile (I := backing g) (s := clean)
      (R := fun c k => ¬Strays g c k ∧ ¬Reentrant g c k) .tooDeep why
      (fun _ _ _ hk _ hP h => ⟨hP, not_reentrant_of_clean hk hP h⟩)
      (fun _ _ _ _ h => h.2 rfl) (Nat.le_refl depth) (fun _ _ => rfl) hp hbacked
    have hwatched := hstays .tooDeep
    cases hx : run g depth α p m with
    | ok a n => exact (hagrees.ok (hwatched.trans hx) (last_of_ok hx ▸ hone)).1
    | error w n =>
      refine (hagrees.error (hwatched.trans hx) ⟨last_of_error hx ▸ hone, ?_⟩).1
      rintro rfl
      exact hend n hx
  · intro h
    have hp := p.abides_of_always (.blind N σ)
      (fun _ => trivial : ∀ q, (recording g hmemo).known q)
    have hends := ends_of_throughout (I := recording g hmemo) hp hm h (R := fun _ _ => True)
      (fun _ _ _ _ _ _ => trivial) .tooDeep
    have hlast : (last (run g depth α p) m).Recorded := by
      cases hx : run g depth α p m with
      | ok a n => exact last_of_ok hx ▸ (hends.ok hx).2.2
      | error w n => exact last_of_error hx ▸ (hends.error hx).2
    exact ⟨hlast.one, throughout_of_invariant (I := recording g hmemo) hp hm h
      fun c k hk _ _ hlog => hk.lasts hlast hlog⟩

theorem recorded_beginning (text : String) : (beginning text).Recorded where
  one := by
    refine ⟨?_, List.nodup_nil⟩
    rintro key a b ⟨e, he, -⟩
    cases he
  source := Nat.zero_lt_one
  serial := by
    intro e he
    cases he
  memo := by
    intro offset rule matched
    constructor
    · intro h
      cases (Memo.get?_empty offset rule).symm.trans h
    · rintro ⟨e, he, -⟩
      cases he

theorem backed_beginning (text : String) : (beginning text).Backed := by
  intro offset rule h
  exact absurd (Memo.get?_empty offset rule) h

def wordSetting : Setting Unit Unit where
  grammar := .empty
  make _ _ := ()
  disk := .empty
  memoizes := true

def wordTwice : Program Unit Unit (Except Error Bool) := do
  let _ ← Program.ask (.test "a")
  Program.ask (.test "a")

theorem keepsSessions_word : wordSetting.KeepsSessions := .empty

theorem not_strays_word (c : Call Unit) (k : Machine Unit) : ¬Strays wordSetting c k :=
  not_strays keepsSessions_word c k

theorem throughout_token :
    Throughout wordSetting (fun c k => ¬Strays wordSetting c k ∧ ¬Reentrant wordSetting c k) 1
      (Program.token "a") ((beginning "ab").testing.register "a" "a") := by
  apply throughout_call ⟨not_strays_word _ _, id⟩ (fun _ => rfl)
  intro start n h
  cases h
  apply throughout_call ⟨not_strays_word _ _, id⟩ (fun _ => rfl)
  intro taken n h
  cases h
  apply throughout_call ⟨not_strays_word _ _, id⟩ (fun _ => rfl)
  intro node n _
  exact throughout_done _

theorem throughout_wordTwice :
    Throughout wordSetting (fun c k => ¬Strays wordSetting c k ∧ ¬Reentrant wordSetting c k) 2
      wordTwice (beginning "ab") := by
  apply throughout_call
  · refine ⟨not_strays_word _ _, ?_⟩
    rintro ⟨-, depth, outcome, matched, n, hx, -, hmemo⟩
    cases depth with
    | zero => cases hx
    | succ depth =>
      cases hx
      exact hmemo rfl
  · intro why
    refine .trans (eq_ok_iff_ends.2 ?_ : _ = .ok (.ok true) _) rfl
    apply ends_test.2
    apply ends_resolveAndInvoke.2
    exact (ends_of_eq_ok (throughout_token why)).2 ⟨rfl, rfl⟩
  · intro outcome n h
    cases h
    apply throughout_call
    · refine ⟨not_strays_word _ _, ?_⟩
      rintro ⟨hnone, -⟩
      cases hnone
    · intro why
      rfl
    · intro outcome n _
      exact throughout_done _

theorem one_answer_iff_not_reentrant_word :
    OneAnswer (last (run wordSetting 2 _ wordTwice) (beginning "ab")).shared.events ∧
      Throughout wordSetting
        (fun _ k => k.Lasts (last (run wordSetting 2 _ wordTwice) (beginning "ab"))) 2 wordTwice
        (beginning "ab") := by
  have hstays : Throughout wordSetting (fun c k => ¬Strays wordSetting c k) 2 wordTwice
      (beginning "ab") := throughout_of_always not_strays_word
  exact (one_answer_iff_not_reentrant rfl (recorded_beginning "ab") (backed_beginning "ab")
    wordTwice 2 hstays fun _ h => nomatch h).2 throughout_wordTwice

/-- A rule that tries itself again under a skipper, where it gives up. -/
def retry : Rule Unit Unit := fun _ => do
  match ← Program.ask .skipper with
  | some _ => return .error Program.backtrack
  | none =>
    let _ ← Program.ask (.setSkipper (some "nothing"))
    let _ ← Program.ask (.test "retry")
    return .ok ()

def retrySetting : Setting Unit Unit where
  grammar := (Grammar.empty.skipper "nothing" (.done (.ok false))).rule "retry" retry
  make _ _ := ()
  disk := .empty
  memoizes := true

theorem keepsSessions_retry : retrySetting.KeepsSessions := by
  refine .insert_rule (.insert_skipper .empty trivial) ?_
  intro params
  apply Program.Only.call trivial
  intro skipper?
  cases skipper? with
  | some skipper => trivial
  | none =>
    apply Program.Only.call trivial
    intro outcome
    apply Program.Only.call trivial
    intro outcome
    trivial

/-- The first answer is that of the test made by the rule. -/
theorem log_retry :
    (last (run retrySetting 3 _ (Program.ask (.test "retry"))) (beginning "x")).shared.events =
      [.tested false "retry" (beginning "x").position true,
       .tested false "retry" (beginning "x").position false, .skipperSet none "nothing"] := rfl

/-- A test of the rule answers that it matches, where the test within it answered that it does
not. -/
theorem retried_test_answers_twice : retrySetting.KeepsSessions ∧
    Told (last (run retrySetting 3 _ (Program.ask (.test "retry"))) (beginning "x")).shared.events
      (0, 0, "retry") false ∧
    Told (last (run retrySetting 3 _ (Program.ask (.test "retry"))) (beginning "x")).shared.events
      (0, 0, "retry") true ∧
    ¬OneAnswer
      (last (run retrySetting 3 _ (Program.ask (.test "retry"))) (beginning "x")).shared.events := by
  rw [log_retry]
  have htrue : Told [.tested false "retry" (beginning "x").position true,
      .tested false "retry" (beginning "x").position false, .skipperSet none "nothing"]
      (0, 0, "retry") true := ⟨_, List.mem_cons_self, rfl⟩
  have hfalse : Told [.tested false "retry" (beginning "x").position true,
      .tested false "retry" (beginning "x").position false, .skipperSet none "nothing"]
      (0, 0, "retry") false := ⟨_, List.mem_cons_of_mem _ List.mem_cons_self, rfl⟩
  refine ⟨keepsSessions_retry, hfalse, htrue, ?_⟩
  intro h
  cases h.same _ _ _ htrue hfalse

end Engine

end Packrat
