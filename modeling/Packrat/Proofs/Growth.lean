import Packrat.Proofs.Reading
import Packrat.Proofs.Registry
import Packrat.Proofs.Replies
import Packrat.Proofs.Watch

/-! What parsers share only grows. Where the session of a parser goes on, so do the keys of its memo,
and where it is left alone, its cursor and its skipper are the same. -/

namespace Packrat
set_option autoImplicit false

/-- The source of a session, an offset in it and a rule. -/
abbrev TestKey := Nat × Nat × String

namespace Event

/-- The source of the test that an event tells of. -/
def testSource? : Event → Option Source
  | .tested _ _ p _ => some p.source
  | _ => none

/-- The test whose rule was run to an outcome that counts. -/
def miss? : Event → Option TestKey
  | .tested false rule p _ => some (p.source.serial, p.offset, rule)
  | _ => none

theorem miss?_of_quiet {e : Event} (he : e.testSource? = none) : e.miss? = none := by
  cases e <;> first | rfl | cases he

theorem exists_of_miss? {e : Event} {key : TestKey} (h : e.miss? = some key) :
    ∃ s, e.testSource? = some s ∧ s.serial = key.1 := by
  cases e with
  | tested known rule p matched =>
    cases known with
    | true => cases h
    | false => exact ⟨p.source, rfl, congrArg Prod.fst (Option.some.inj h)⟩
  | _ => cases h

end Event

namespace Machine
variable {σ : Type} {m n k : Machine σ}

def source (m : Machine σ) : Source := m.parser.cursor.source

/-- The source is that of the session of `m`, or of one begun on the way to `n`. -/
def Allots (m n : Machine σ) (s : Source) : Prop :=
  s = m.source ∨ m.shared.nextSerial ≤ s.serial ∧ s.serial < n.shared.nextSerial

/-- What parsers share may have grown from `m` to `n`, by tests in the session of `m` and in sessions
begun since. -/
structure Grows (m n : Machine σ) : Prop where
  later : ∃ later, later ++ m.shared.events = n.shared.events ∧
    ∀ e ∈ later, ∀ s, e.testSource? = some s → m.Allots n s
  serial : m.shared.nextSerial ≤ n.shared.nextSerial
  tokens : m.shared.tokens.Within n.shared.tokens
  session : m.Allots n n.source

/-- `n` is in the session of `m`. -/
structure Continues (m n : Machine σ) : Prop extends Grows m n where
  directory : n.parser.directory = m.parser.directory
  source : n.source = m.source
  memo : ∀ offset rule, m.parser.memo.get? offset rule ≠ none →
    n.parser.memo.get? offset rule ≠ none

/-- `n` is where `m` was. Of the parser itself only counters and the memo may differ. -/
structure Untouched (m n : Machine σ) : Prop extends Continues m n where
  cursor : n.parser.cursor = m.parser.cursor
  skipper : n.parser.skipper? = m.parser.skipper?

theorem Grows.events (h : m.Grows n) : m.shared.events <:+ n.shared.events :=
  h.later.imp fun _ => And.left

theorem Grows.of_shared (hevents : n.shared.events = m.shared.events)
    (hserial : m.shared.nextSerial ≤ n.shared.nextSerial)
    (htokens : n.shared.tokens = m.shared.tokens) (hs : m.Allots n n.source) : m.Grows n where
  later := ⟨[], hevents.symm, by simp⟩
  serial := hserial
  tokens := by
    rw [htokens]
    exact .refl _
  session := hs

theorem Grows.refl (m : Machine σ) : m.Grows m := .of_shared rfl (Nat.le_refl _) rfl (.inl rfl)

theorem Allots.mono {s : Source} (hs : m.Allots n s)
    (hserial : n.shared.nextSerial ≤ k.shared.nextSerial) : m.Allots k s :=
  hs.imp_right fun h => ⟨h.1, Nat.lt_of_lt_of_le h.2 hserial⟩

theorem Grows.allots (h : m.Grows n) (hserial : n.shared.nextSerial ≤ k.shared.nextSerial)
    {s : Source} (hs : n.Allots k s) : m.Allots k s := by
  rcases hs with rfl | hs
  · exact h.session.mono hserial
  · exact .inr ⟨Nat.le_trans h.serial hs.1, hs.2⟩

theorem Grows.trans (h : m.Grows n) (h' : n.Grows k) : m.Grows k where
  later := by
    obtain ⟨events, hevents, htests⟩ := h.later
    obtain ⟨events', hevents', htests'⟩ := h'.later
    refine ⟨events' ++ events, by rw [List.append_assoc, hevents, hevents'], ?_⟩
    intro e he s hs
    rcases List.mem_append.1 he with he | he
    · exact h.allots h'.serial (htests' e he s hs)
    · exact (htests e he s hs).mono h'.serial
  serial := Nat.le_trans h.serial h'.serial
  tokens := h.tokens.trans h'.tokens
  session := h.allots h'.serial h'.session

theorem continues_withParser {p : Parser} (hd : p.directory = m.parser.directory)
    (hs : p.cursor.source = m.parser.cursor.source)
    (hm : ∀ offset rule, m.parser.memo.get? offset rule ≠ none → p.memo.get? offset rule ≠ none) :
    m.Continues (m.withParser p) where
  toGrows := .of_shared rfl (Nat.le_refl _) rfl (.inl hs)
  directory := hd
  source := hs
  memo := hm

theorem Continues.refl (m : Machine σ) : m.Continues m :=
  continues_withParser rfl rfl fun _ _ h => h

theorem Continues.trans (h : m.Continues n) (h' : n.Continues k) : m.Continues k where
  toGrows := h.toGrows.trans h'.toGrows
  directory := h'.directory.trans h.directory
  source := h'.source.trans h.source
  memo := by
    intro offset rule hm
    apply h'.memo
    exact h.memo offset rule hm

theorem Untouched.refl (m : Machine σ) : m.Untouched m := ⟨.refl m, rfl, rfl⟩

theorem Untouched.trans (h : m.Untouched n) (h' : n.Untouched k) : m.Untouched k where
  toContinues := h.toContinues.trans h'.toContinues
  cursor := h'.cursor.trans h.cursor
  skipper := h'.skipper.trans h.skipper

theorem continues_withCursor {c : Cursor} (hc : c.source = m.parser.cursor.source) :
    m.Continues (m.withCursor c) :=
  continues_withParser rfl hc fun _ _ h => h

theorem continues_withSkipper (m : Machine σ) (skipper? : Option String) :
    m.Continues (m.withSkipper skipper?) :=
  continues_withParser rfl rfl fun _ _ h => h

theorem continues_restore (m : Machine σ) (s : Snapshot) : m.Continues (m.restore s) :=
  continues_withParser rfl rfl fun _ _ h => h

theorem continues_count (m : Machine σ) (f : Stats → Stats) : m.Continues (m.count f) :=
  continues_withParser rfl rfl fun _ _ h => h

theorem continues_testing (m : Machine σ) : m.Continues m.testing := continues_count m _

theorem untouched_restore (h : m.Continues n) : m.Untouched (n.restore m.snapshot) where
  toContinues := h.trans (continues_restore n m.snapshot)
  cursor := Cursor.moveTo_position h.source
  skipper := rfl

theorem continues_memoize (m : Machine σ) (offset : Nat) (rule : String) (matched : Bool) :
    m.Continues (m.memoize offset rule matched) := by
  refine continues_withParser rfl rfl ?_
  intro other id h
  rw [Memo.get?_insert]
  split
  · exact Option.some_ne_none matched
  · exact h

theorem Grows.emit (h : m.Grows n) {e : Event} (he : ∀ s, e.testSource? = some s → m.Allots n s) :
    m.Grows (n.emit e) where
  later := by
    obtain ⟨events, hevents, htests⟩ := h.later
    exact ⟨e :: events, congrArg (List.cons e) hevents, List.forall_mem_cons.2 ⟨he, htests⟩⟩
  serial := h.serial
  tokens := h.tokens
  session := h.session

theorem continues_emit {e : Event} (he : ∀ s, e.testSource? = some s → s = m.source) :
    m.Continues (m.emit e) where
  toGrows := (Grows.refl m).emit fun s hs => .inl (he s hs)
  directory := rfl
  source := rfl
  memo := fun _ _ h => h

/-- Events that tell of no test can be emitted anywhere. -/
theorem continues_emit_of_quiet {e : Event} (he : e.testSource? = none) :
    m.Continues (m.emit e) := by
  apply continues_emit
  intro s hs
  cases he.symm.trans hs

theorem continues_installing (m : Machine σ) (id : String) : m.Continues (m.installing id) :=
  (continues_emit_of_quiet rfl).trans (continues_withSkipper _ _)

theorem continues_register (m : Machine σ) (id literal : String) :
    m.Continues (m.register id literal) where
  toGrows :=
    { (continues_emit_of_quiet (m := m) (e := .registered id literal) rfl).toGrows with
      tokens := Tokens.within_add m.shared.tokens id literal }
  directory := rfl
  source := rfl
  memo := fun _ _ h => h

theorem continues_withOutside (m : Machine σ) (s : σ) :
    m.Continues (m.withShared { m.shared with outside := s }) where
  toGrows := .of_shared rfl (Nat.le_refl _) rfl (.inl rfl)
  directory := rfl
  source := rfl
  memo := fun _ _ h => h

theorem untouched_hit (m : Machine σ) (rule : String) (matched : Bool) :
    m.Untouched (m.hit rule matched) where
  toContinues := by
    apply ((continues_testing m).trans (continues_count _ _)).trans
    apply continues_emit
    intro s hs
    exact (Option.some.inj hs).symm
  cursor := rfl
  skipper := rfl

theorem untouched_miss (h : m.Continues n) (rule : String) (matched : Bool) :
    m.Untouched (n.miss m.snapshot rule matched) where
  toContinues := by
    have hrestore : m.Continues (n.restore m.snapshot) := (untouched_restore h).toContinues
    apply (hrestore.trans (continues_emit ?_)).trans (continues_memoize _ _ _ _)
    intro s hs
    exact (Option.some.inj hs).symm.trans h.source.symm
  cursor := Cursor.moveTo_position h.source
  skipper := rfl

theorem suffix_tested (n : Machine σ) (start : Snapshot) (rule : String)
    (outcome : Except Error Bool) :
    n.shared.events <:+ (n.tested start rule outcome).shared.events := by
  cases outcome with
  | error e => exact List.suffix_refl _
  | ok matched => exact List.suffix_cons _ _

theorem grows_session (m : Machine σ) (name : String) (path? : Option String)
    (content : List Char) : m.Grows (m.session name path? content) :=
  .of_shared rfl (Nat.le_succ _) rfl (.inr ⟨Nat.le_refl _, Nat.lt_succ_self _⟩)

theorem grows_sub (m : Machine σ) : m.Grows m.sub := by
  have hroot : m.Continues (m.emit (.rooted m.root)) := continues_emit_of_quiet rfl
  apply hroot.toGrows.trans
  exact .of_shared rfl (Nat.le_succ _) rfl (.inr ⟨Nat.le_refl _, Nat.lt_succ_self _⟩)

/-- Back from a parser for included files. -/
theorem continues_of_sub (h : m.sub.Grows n) : m.Continues (n.withParser m.parser) := by
  have hgrows : m.Grows n := (grows_sub m).trans h
  exact {
    later := hgrows.later
    serial := hgrows.serial
    tokens := hgrows.tokens
    session := .inl rfl
    directory := rfl
    source := rfl
    memo := fun _ _ hm => hm }

end Machine

end Packrat
