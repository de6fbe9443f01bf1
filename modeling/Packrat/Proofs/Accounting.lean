import Mathlib.Data.Finset.Prod
import Packrat.Proofs.Offsets
import Packrat.Proofs.OneAnswer
import Packrat.Proofs.Retracing

/-! Tests, hits and the keys of the memo. Each test that is over was a hit or has left a key of its
own, unless it ended with a fatal error; so tests run no more rules than there are keys. -/

namespace Packrat
set_option autoImplicit false

theorem Utf8.size_take_lt {text : List Char} {k l : Nat} (hkl : k < l) (hl : l ≤ text.length) :
    size (text.take k) < size (text.take l) := by
  obtain ⟨d, rfl⟩ := Nat.exists_eq_add_of_lt hkl
  have hlength := length_le_size ((text.drop k).take (d + 1))
  rw [List.length_take, List.length_drop] at hlength
  rw [Nat.add_assoc, List.take_add, size_append]
  omega

theorem Source.card_boundaries (s : Source) : s.boundaries.card = s.content.length + 1 := by
  rw [boundaries, Finset.card_image_of_injOn, Finset.card_range]
  intro k hk l hl heq
  have hk : k < s.content.length + 1 := Finset.mem_range.1 hk
  have hl : l < s.content.length + 1 := Finset.mem_range.1 hl
  rcases Nat.lt_trichotomy k l with hlt | rfl | hlt
  · exact absurd heq (Nat.ne_of_lt (Utf8.size_take_lt hlt (by omega)))
  · rfl
  · exact absurd heq.symm (Nat.ne_of_lt (Utf8.size_take_lt hlt (by omega)))

/-- A memo has no more keys than there are offsets and rules to make them of. -/
theorem Memo.size_le (m : Memo) {offsets : Finset Nat} {rules : Finset String}
    (h : ∀ offset rule, m.get? offset rule ≠ none → offset ∈ offsets ∧ rule ∈ rules) :
    m.size ≤ offsets.card * rules.card := by
  have hkeys : m.table.keys.toFinset ⊆ offsets ×ˢ rules := by
    rintro ⟨offset, rule⟩ hkey
    rw [List.mem_toFinset, Std.TreeMap.mem_keys, Std.TreeMap.mem_iff_isSome_getElem?] at hkey
    exact Finset.mem_product.2 (h offset rule (Option.isSome_iff_ne_none.1 hkey))
  have hsize : m.table.keys.toFinset.card = m.size := by
    rw [List.toFinset_card_of_nodup Std.TreeMap.nodup_keys, Std.TreeMap.length_keys, size]
  rw [← hsize, ← Finset.card_product]
  exact Finset.card_le_card hkeys

namespace Machine
variable {σ : Type} {m n : Machine σ}

/-- Hits and keys are covered by tests. -/
def Accounted (m : Machine σ) : Prop :=
  m.parser.stats.hits + m.parser.memo.size ≤ m.parser.stats.tests

/-- The rules of which the log tells tests in the session. -/
def testedRules (m : Machine σ) : Finset String :=
  (((m.shared.events.filterMap Event.answer?).filter (·.1.1 = m.source.serial)).map
    (·.1.2.2)).toFinset

/-- Every test was a hit or has left a key, and has run a rule only in the second case: of a session's
tests, those that were no hit are the ones that had their rule run (`Engine.misses_of_test`,
`Engine.tests_are_hits_and_misses`). -/
structure Balanced (m : Machine σ) : Prop where
  tests : m.parser.stats.tests = m.parser.stats.hits + m.parser.memo.size
  runs : m.parser.stats.tests - m.parser.stats.hits ≤
    m.source.boundaries.card * m.testedRules.card

/-- No test was made in the session. -/
structure Untested (m : Machine σ) : Prop where
  cursor : m.parser.cursor.Sound
  memo : m.parser.memo = .empty
  tests : m.parser.stats.tests = 0
  hits : m.parser.stats.hits = 0

/-- Tests have run no more rules than there are characters, and the end, with a rule that was tested
at each. -/
theorem Balanced.misses_le (h : m.Balanced)
    (hcount : m.parser.stats.tests = m.parser.stats.hits + m.misses) :
    m.misses ≤ (m.source.content.length + 1) * m.testedRules.card := by
  have hruns := h.runs
  rwa [hcount, Nat.add_sub_cancel_left, Source.card_boundaries] at hruns

theorem Untested.accounted (h : m.Untested) : m.Accounted := by
  rw [Accounted, h.hits, h.memo, h.tests, Memo.size_empty]

end Machine

namespace Engine
open Packrat.Action Machine
variable {N σ α : Type} {g : Setting N σ} {view : View N σ} {sc : Scene} {depth : Nat}
variable {m n : Machine σ}

/-- Tests in progress are covered too. -/
def covering (g : Setting N σ) : Ledger g where
  holds i m := m.parser.stats.hits + m.parser.memo.size + i ≤ m.parser.stats.tests
  fair _ _ _ _ := True
  still h hmn := by
    rw [hmn.hits, hmn.same, hmn.tests]
    exact h
  testing h := Nat.succ_le_succ h
  hit {i m rule matched} h _ := by
    show m.parser.stats.hits + 1 + m.parser.memo.size + i ≤ m.parser.stats.tests + 1
    omega
  miss := by
    intro i m n rule answer _ hn _ _ _
    cases answer with
    | error e => exact Nat.le_of_succ_le hn
    | ok matched =>
      show n.parser.stats.hits + (n.parser.memo.insert _ rule matched).size + i ≤
        n.parser.stats.tests
      rw [Memo.size_insert]
      split <;> omega
  session _ _ _ _ := by
    show 0 + Memo.empty.size + 0 ≤ 0
    rw [Memo.size_empty]

/-- With tests that end without a fatal error and put in new keys only, the books balance. -/
def balancing (g : Setting N σ) : Ledger g where
  holds i m := m.parser.stats.tests = m.parser.stats.hits + m.parser.memo.size + i
  fair m rule answer n := (∃ matched, answer = .ok matched) ∧
    n.parser.memo.get? m.parser.cursor.offset rule = none
  still h hmn := by
    rw [hmn.hits, hmn.same, hmn.tests]
    exact h
  testing h := congrArg Nat.succ h
  hit {i m rule matched} h _ := by
    show m.parser.stats.tests + 1 = m.parser.stats.hits + 1 + m.parser.memo.size + i
    omega
  miss := by
    rintro i m n rule _ _ hn _ _ ⟨⟨matched, rfl⟩, hkey⟩
    show n.parser.stats.tests =
      n.parser.stats.hits + (n.parser.memo.insert m.parser.cursor.offset rule matched).size + i
    rw [Memo.size_insert, if_pos hkey]
    omega
  session _ _ _ _ := by
    show 0 = 0 + Memo.empty.size + 0
    rw [Memo.size_empty]

/-- The log tells of every test that was no hit, if none ends with a fatal error. -/
def tallying (g : Setting N σ) : Ledger g where
  holds i m := m.Issued ∧ m.parser.stats.tests = m.parser.stats.hits + m.misses + i
  fair _ _ answer _ := ∃ matched, answer = .ok matched
  still := by
    rintro i m n ⟨hm, hcount⟩ hmn
    refine ⟨hm.of_grows hmn.toGrows, ?_⟩
    rw [hmn.hits, hmn.misses hm.source, hmn.tests]
    exact hcount
  testing h := ⟨h.1.of_grows (continues_testing _).toGrows, congrArg Nat.succ h.2⟩
  hit := by
    rintro i m rule matched ⟨hm, hcount⟩ _
    refine ⟨hm.of_grows (untouched_hit m rule matched).toGrows, ?_⟩
    show m.parser.stats.tests + 1 = m.parser.stats.hits + 1 + m.misses + i
    omega
  miss := by
    rintro i m n rule _ ⟨hm, -⟩ ⟨-, hcount⟩ hgoes _ ⟨matched, rfl⟩
    refine ⟨hm.of_grows (untouched_miss hgoes rule matched).toGrows, ?_⟩
    show n.parser.stats.tests =
      n.parser.stats.hits + (n.miss m.snapshot rule matched).misses + i
    rw [misses_miss hgoes.source]
    omega
  session := by
    rintro m name path? content ⟨hm, -⟩
    refine ⟨hm.of_grows (grows_session m name path? content), ?_⟩
    rw [hm.misses_session]
    rfl

/-- The log tells of the tests that have put in the keys. -/
def logging (g : Setting N σ) : Ledger g where
  holds _ m := m.Backed
  fair _ _ _ _ := True
  still h hmn := h.of_log hmn.source hmn.same hmn.events
  testing h := h.of_log rfl rfl List.suffix_rfl
  hit h _ := h.of_log rfl rfl (List.suffix_cons _ _)
  miss := by
    intro i m n rule answer _ hn hgoes _ _
    cases answer with
    | error e => exact hn.of_log rfl rfl List.suffix_rfl
    | ok matched => exact hn.miss hgoes.source rule matched
  session _ _ _ _ offset rule hget := absurd (Memo.get?_empty offset rule) hget

theorem mem_testedRules {rule : String} : rule ∈ m.testedRules ↔
    ∃ offset matched, Told m.shared.events (m.source.serial, offset, rule) matched := by
  simp only [testedRules, List.mem_toFinset, List.mem_map, List.mem_filter, List.mem_filterMap]
  constructor
  · rintro ⟨⟨⟨serial, offset, id⟩, matched⟩, ⟨⟨e, he, ha⟩, hserial⟩, rfl⟩
    obtain rfl : serial = m.source.serial := by simpa using hserial
    exact ⟨offset, matched, e, he, ha⟩
  · rintro ⟨offset, matched, e, he, ha⟩
    exact ⟨_, ⟨⟨e, he, ha⟩, by simp⟩, rfl⟩

/-- No test that is made at the site ends with a fatal error. -/
def Tame (g : Setting N σ) (s : Site σ) : Prop :=
  ∀ rule e n, s.call = .test rule → test g (run g s.levels) rule s.machine ≠ .ok (.error e) n

theorem answers_of_tame {s : Site σ} (htame : Tame g s) {rule : String} {outcome : Except Error N}
    (hcall : s.call = .test rule) (hrecall : g.recall? s.machine rule = none)
    (hx : resolveAndInvoke g (run g s.levels) rule [] s.machine.testing = .ok outcome n) :
    ∃ matched, verdict outcome = .ok matched := by
  have htest := test_of_miss hrecall hx
  cases hverdict : verdict outcome with
  | ok matched => exact ⟨matched, rfl⟩
  | error e =>
    rw [hverdict] at htest
    exact absurd htest (htame rule e _ hcall)

theorem covering_fair (s : Site σ) : (covering g).Fair s := fun _ _ _ _ _ _ => trivial

theorem logging_fair (s : Site σ) : (logging g).Fair s := fun _ _ _ _ _ _ => trivial

theorem accounted_of_holds {i : Nat} (h : (covering g).holds i m) : m.Accounted :=
  Nat.le_trans (Nat.le_add_right _ i) h

theorem accounted_of_reaches (hg : g.KeepsSessions) {p : Program N σ α} {s : Site σ}
    (h : Reaches g depth p m s) (hm : m.Accounted) : s.machine.Accounted := by
  induction h with
  | met hs =>
    have hholds := Ledger.holds_of_meets hg (covering g) hs (.inr rfl) hm
      fun t _ => covering_fair t
    exact accounted_of_holds hholds
  | beneath _ _ _ ih =>
    apply ih
    show 0 + Memo.empty.size ≤ 0
    rw [Memo.size_empty]

/-- The keys are those of tests in the text. -/
def placing (g : Setting N σ) (sc : Scene) : Ledger g :=
  listed g fun offset _ => offset ∈ sc.source.boundaries

theorem placing_fair {s : Site σ} (hs : s.machine.In sc) : (placing g sc).Fair s := by
  intro rule outcome n _ _ _
  have hoffset := hs.sound.mem_boundaries
  rw [show s.machine.parser.cursor.source = sc.source from hs.source] at hoffset
  exact hoffset

/-- What is kept of the tests of a session. -/
structure Books (g : Setting N σ) (sc : Scene) (i : Nat) (m : Machine σ) : Prop where
  balance : (balancing g).holds i m
  log : (logging g).holds i m
  places : (placing g sc).holds i m

theorem Books.of_untested (hm : m.Untested) : Books g m.scene 0 m := by
  have hempty (offset : Nat) (rule : String) : ¬m.parser.memo.get? offset rule ≠ none := by
    rw [hm.memo, Memo.get?_empty]
    exact fun h => h rfl
  refine ⟨?_, fun offset rule h => absurd h (hempty offset rule),
    fun offset rule h => absurd h (hempty offset rule)⟩
  show m.parser.stats.tests = m.parser.stats.hits + m.parser.memo.size + 0
  rw [hm.tests, hm.hits, hm.memo, Memo.size_empty]

theorem Books.balanced (h : Books g sc 0 m) (hsource : m.source = sc.source) : m.Balanced := by
  have htests : m.parser.stats.tests = m.parser.stats.hits + m.parser.memo.size := h.balance
  refine ⟨htests, ?_⟩
  rw [htests, Nat.add_sub_cancel_left]
  apply Memo.size_le
  intro offset rule hget
  constructor
  · rw [hsource]
    exact h.places offset rule hget
  · obtain ⟨matched, htold⟩ := told_of_missed (h.log offset rule hget)
    exact mem_testedRules.2 ⟨offset, matched, htold⟩

section
variable (hg : g.Steady view sc.skipper?) (hmemo : g.memoizes = true)
include hg hmemo

theorem balancing_fair {s : Site σ} (hs : Lives g sc s.machine) (htame : Tame g s) :
    (balancing g).Fair s := by
  intro rule outcome n hcall hrecall hx
  exact ⟨answers_of_tame htame hcall hrecall hx, no_reentry hg hmemo hs hrecall hx⟩

variable {p : Program N σ α} (hp : p.Dwells view g.disk sc) (hm : Lives g sc m)
variable (hbooks : Books g sc 0 m) (htame : ∀ s, Meets g depth 0 p m s → Tame g s)
include hp hm hbooks htame

theorem books_of_meets {s : Site σ} (hs : Meets g depth 0 p m s) :
    Books g sc s.pending s.machine := by
  have hlives {t : Site σ} (ht : Meets g depth 0 p m t) := lives_of_meets hg hmemo ht hp hm
  exact {
    balance := Ledger.holds_of_meets hg.keeps _ hs (.inr rfl) hbooks.balance fun t ht =>
      balancing_fair hg hmemo (hlives ht) (htame t ht)
    log := Ledger.holds_of_meets hg.keeps _ hs (.inr rfl) hbooks.log fun t _ => logging_fair t
    places := Ledger.holds_of_meets hg.keeps _ hs (.inr rfl) hbooks.places fun t ht =>
      placing_fair (hlives ht).scene }

theorem books_of_end {a : α} (hx : run g depth α p m = .ok a n) : Books g sc 0 n := by
  have hlives {t : Site σ} (ht : Meets g depth 0 p m t) := lives_of_meets hg hmemo ht hp hm
  exact {
    balance := Ledger.holds_of_end hg.keeps _ hx (.inr rfl) hbooks.balance fun t ht =>
      balancing_fair hg hmemo (hlives ht) (htame t ht)
    log := Ledger.holds_of_end hg.keeps _ hx (.inr rfl) hbooks.log fun t _ => logging_fair t
    places := Ledger.holds_of_end hg.keeps _ hx (.inr rfl) hbooks.places fun t ht =>
      placing_fair (hlives ht).scene }

end

/-- A test that is answered has had its rule run exactly if it was no hit, and only then the log tells
of one miss more than the run of the rule has left. -/
theorem misses_of_test {rule : String} {matched : Bool}
    (h : test g (run g depth) rule m = .ok (.ok matched) n) :
    (g.recall? m rule = some matched ∧ n = m.hit rule matched ∧ n.misses = m.misses) ∨
    g.recall? m rule = none ∧ ∃ outcome l,
      resolveAndInvoke g (run g depth) rule [] m.testing = .ok outcome l ∧
        verdict outcome = .ok matched ∧ (l.source = m.source → n.misses = l.misses + 1) := by
  cases hrecall : g.recall? m rule with
  | some known =>
    cases (test_of_recall hrecall).symm.trans h
    exact .inl ⟨rfl, rfl, rfl⟩
  | none =>
    refine .inr ⟨rfl, ?_⟩
    cases hx : resolveAndInvoke g (run g depth) rule [] m.testing with
    | error why l => cases (test_of_miss_error hrecall hx).symm.trans h
    | ok outcome l =>
      have htest := test_of_miss hrecall hx
      rw [h] at htest
      obtain ⟨hverdict, hn⟩ := EStateM.Result.ok.inj htest
      rw [← hverdict] at hn
      refine ⟨outcome, l, rfl, hverdict.symm, ?_⟩
      rintro hs
      rw [hn]
      exact misses_miss hs rule matched

/-- Tests of a session are hits, tests in progress and those of which the log tells that their rules
were run, wherever a run comes to in which none ends with a fatal error. -/
theorem tests_are_hits_and_misses (hg : g.KeepsSessions) {p : Program N σ α} (hm : m.Issued)
    (hcount : m.parser.stats.tests = m.parser.stats.hits + m.misses)
    (htame : ∀ s, Meets g depth 0 p m s → Tame g s) :
    (∀ s, Meets g depth 0 p m s → s.machine.parser.stats.tests =
      s.machine.parser.stats.hits + s.machine.misses + s.pending) ∧
      ∀ a n, run g depth α p m = .ok a n →
        n.parser.stats.tests = n.parser.stats.hits + n.misses := by
  have hfair (s : Site σ) (hs : Meets g depth 0 p m s) : (tallying g).Fair s :=
    fun _ _ _ hcall hrecall hx => answers_of_tame (htame s hs) hcall hrecall hx
  have hstart : (tallying g).holds 0 m := ⟨hm, hcount⟩
  constructor
  · intro s hs
    exact (Ledger.holds_of_meets hg (tallying g) hs (.inr rfl) hstart hfair).2
  · intro a n hx
    exact (Ledger.holds_of_end hg (tallying g) hx (.inr rfl) hstart hfair).2

/-- If no program replaces a session while a rule is running, hits and keys of the memo together are
never more than tests, in the middle of rules as well and in the sessions of included files. Take a
session that stays under one skipper from its first test on. If its grammar is steady and no test
ends with a fatal error, the books balance: a test was a hit, or it has left a key of its own, or it
is in progress. Where none is, tests have run no more rules than there are pairs of a boundary of the
text and a rule that was tested. -/
theorem packrat_accounting (hg : g.KeepsSessions) (depth : Nat) :
    (∀ (α : Type) (p : Program N σ α) m, m.Accounted →
      (∀ s, Reaches g depth p m s → s.machine.Accounted) ∧
        ∀ a n, run g depth α p m = .ok a n → n.Accounted) ∧
    ∀ (view : View N σ) (α : Type) (p : Program N σ α) m, g.Steady view m.parser.skipper? →
      g.memoizes = true → m.Untested → p.Dwells view g.disk m.scene →
      (∀ s, Meets g depth 0 p m s → Tame g s) →
      (∀ s, Meets g depth 0 p m s →
        s.machine.parser.stats.tests =
          s.machine.parser.stats.hits + s.machine.parser.memo.size + s.pending ∧
        (s.pending = 0 → s.machine.Balanced)) ∧
        ∀ a n, run g depth α p m = .ok a n → n.Balanced := by
  constructor
  · intro α p m hm
    constructor
    · intro s hs
      exact accounted_of_reaches hg hs hm
    · intro a n hx
      have hholds := Ledger.holds_of_end hg (covering g) hx (.inr rfl) hm
        fun t _ => covering_fair t
      exact accounted_of_holds hholds
  · intro view α p m hsteady hmemo hm hp htame
    have hlives : Lives g m.scene m := .of_empty hm.cursor hm.memo
    constructor
    · intro s hs
      have hbooks := books_of_meets hsteady hmemo hp hlives (.of_untested hm) htame hs
      refine ⟨hbooks.balance, fun hpending => ?_⟩
      rw [hpending] at hbooks
      exact hbooks.balanced (lives_of_meets hsteady hmemo hs hp hlives).scene.source
    · intro a n hx
      have hbooks := books_of_end hsteady hmemo hp hlives (.of_untested hm) htame hx
      exact hbooks.balanced ((lives_run hsteady hmemo hp hlives).ok hx).scene.source

theorem ends_of_abides {p : Program N σ α} {gives : α → Prop}
    (hp : p.Abides (fun _ => True) (fun _ _ => True) gives) :
    Ends (run g depth α p) m (fun a _ => gives a) fun _ _ => True := by
  cases depth with
  | zero => trivial
  | succ depth =>
    induction p generalizing m with
    | done a => exact hp
    | call c next ih =>
      apply ends_bind.2
      apply ends_of_ok
      intro a n _
      exact ih a (hp.2 a trivial)

theorem abides_token (text : String) :
    (Program.token text : Program N σ (Except Error N)).Abides (fun _ => True) (fun _ _ => True)
      fun outcome => ∃ matched, verdict outcome = .ok matched := by
  refine ⟨trivial, fun start _ => ⟨trivial, fun taken _ => ?_⟩⟩
  cases taken with
  | true => exact ⟨trivial, fun node _ => ⟨true, rfl⟩⟩
  | false => exact ⟨trivial, fun place _ => ⟨false, rfl⟩⟩

theorem body_word (r : Resolved) : ∃ text, wordSetting.body r [] = Program.token text := by
  cases r with
  | token text => exact ⟨text, rfl⟩
  | rule id =>
    refine ⟨id, ?_⟩
    simp [Setting.body, wordSetting, Grammar.empty]

theorem tame_word (s : Site Unit) : Tame wordSetting s := by
  intro rule e n _ h
  have hends : Ends (test wordSetting (run wordSetting s.levels) rule) s.machine
      (fun answer _ => ∃ matched, answer = .ok matched) fun _ _ => True := by
    cases hrecall : wordSetting.recall? s.machine rule with
    | some matched => exact (ends_test_of_recall hrecall).2 ⟨matched, rfl⟩
    | none =>
      apply (ends_test_of_miss hrecall).2
      rw [ends_resolveAndInvoke]
      apply ends_of_ok
      intro r k _
      obtain ⟨text, htext⟩ := body_word r
      rw [htext]
      exact ends_of_abides (abides_token text)
  obtain ⟨matched, hmatched⟩ := hends.ok h
  cases hmatched

theorem steady_word : wordSetting.Steady (.blind Unit Unit) none where
  keeps := keepsSessions_word
  grammar _ := .empty
  make _ _ _ _ _ h := h.elim

theorem untested_beginning (text : String) : (beginning text).Untested :=
  ⟨Cursor.sound_atStart _, rfl, rfl, rfl⟩

/-- A word is tried twice. -/
theorem packrat_accounting_word :
    (∀ s, Reaches wordSetting 2 wordTwice (beginning "ab") s → s.machine.Accounted) ∧
    ∃ n, run wordSetting 2 _ wordTwice (beginning "ab") = .ok (.ok true) n ∧ n.Balanced ∧
      n.parser.stats.tests = 2 ∧ n.parser.stats.hits = 1 := by
  have huntested := untested_beginning "ab"
  have hp : wordTwice.Dwells (.blind Unit Unit) wordSetting.disk (beginning "ab").scene :=
    ⟨trivial, fun _ _ => ⟨trivial, fun _ _ => trivial⟩⟩
  obtain ⟨hcovers, hbalances⟩ := packrat_accounting keepsSessions_word 2
  refine ⟨(hcovers _ wordTwice _ huntested.accounted).1, _, rfl, ?_, rfl, rfl⟩
  exact (hbalances _ _ wordTwice (beginning "ab") steady_word rfl huntested hp
    fun s _ => tame_word s).2 _ _ rfl

end Engine

end Packrat
