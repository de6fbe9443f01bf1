import Packrat.Proofs.Alike
import Packrat.Proofs.Upkeep

/-! Two runs of the same programs go in step if their sessions are alike and their tokens stand for
themselves, however many tokens are known to each. -/

namespace Packrat
set_option autoImplicit false

/-- Names stand for themselves. -/
def Tokens.Plain (t : Tokens) : Prop := ∀ id text, t.literal? id = some text → text = id

theorem Tokens.Plain.add {t : Tokens} (h : t.Plain) (id : String) : (t.add id id).Plain := by
  intro other text hother
  rw [Tokens.literal?_add] at hother
  split at hother
  · next heq =>
    subst heq
    cases hid : t.literal? id with
    | none =>
      rw [hid] at hother
      exact (Option.some.inj hother).symm
    | some known =>
      rw [hid] at hother
      cases hother
      exact h id known hid
  · exact h other text hother

/-- Tokens are registered as themselves. -/
def Call.Plain {σ : Type} : Call σ → Prop
  | .addToken id literal => id = literal
  | _ => True

/-- The correspondence of serials goes on as sources are loaded. -/
structure Serials.Paired (ρ : Serials) : Prop where
  biunique : Relator.BiUnique ρ
  succ : ∀ {a b}, ρ a b → ρ (a + 1) (b + 1)

namespace Machine
variable {σ : Type}

/-- The sessions are the same up to serials. -/
structure Alike (ρ : Serials) (m m' : Machine σ) : Prop where
  directory : m'.parser.directory = m.parser.directory
  cursor : m.parser.cursor.Alike ρ m'.parser.cursor
  skipper : m'.parser.skipper? = m.parser.skipper?
  memo : m'.parser.memo = m.parser.memo
  stats : m'.parser.stats = m.parser.stats
  serial : ρ m.shared.nextSerial m'.shared.nextSerial
  plain : m.shared.tokens.Plain
  plain' : m'.shared.tokens.Plain

namespace Alike
variable {ρ : Serials} {m m' n n' : Machine σ}

theorem position (h : m.Alike ρ m') : m.position.Alike ρ m'.position := h.cursor

theorem snapshot (h : m.Alike ρ m') : m.snapshot.Alike ρ m'.snapshot := ⟨h.cursor, h.skipper⟩

theorem emit (h : m.Alike ρ m') (e e' : Event) : (m.emit e).Alike ρ (m'.emit e') :=
  ⟨h.directory, h.cursor, h.skipper, h.memo, h.stats, h.serial, h.plain, h.plain'⟩

theorem withOutside (h : m.Alike ρ m') (s s' : σ) :
    (m.withShared { m.shared with outside := s }).Alike ρ
      (m'.withShared { m'.shared with outside := s' }) :=
  ⟨h.directory, h.cursor, h.skipper, h.memo, h.stats, h.serial, h.plain, h.plain'⟩

theorem count (h : m.Alike ρ m') (f : Stats → Stats) : (m.count f).Alike ρ (m'.count f) :=
  ⟨h.directory, h.cursor, h.skipper, h.memo, congrArg f h.stats, h.serial, h.plain, h.plain'⟩

theorem withSkipper (h : m.Alike ρ m') (skipper? : Option String) :
    (m.withSkipper skipper?).Alike ρ (m'.withSkipper skipper?) :=
  ⟨h.directory, h.cursor, rfl, h.memo, h.stats, h.serial, h.plain, h.plain'⟩

theorem withCursor (h : m.Alike ρ m') {c c' : Cursor} (hc : c.Alike ρ c') :
    (m.withCursor c).Alike ρ (m'.withCursor c') :=
  ⟨h.directory, hc, h.skipper, h.memo, h.stats, h.serial, h.plain, h.plain'⟩

theorem restore (h : m.Alike ρ m') {s s' : Snapshot} (hs : s.Alike ρ s') :
    (m.restore s).Alike ρ (m'.restore s') :=
  ⟨h.directory, h.cursor.moveTo hs.position, hs.skipper, h.memo, h.stats, h.serial, h.plain,
    h.plain'⟩

theorem memoize (h : m.Alike ρ m') (offset : Nat) (rule : String) (matched : Bool) :
    (m.memoize offset rule matched).Alike ρ (m'.memoize offset rule matched) :=
  ⟨h.directory, h.cursor, h.skipper, congrArg (Memo.insert · offset rule matched) h.memo, h.stats,
    h.serial, h.plain, h.plain'⟩

theorem tested (h : m.Alike ρ m') {s s' : Snapshot} (hs : s.Alike ρ s') (rule : String)
    {outcome outcome' : Except Error Bool} (ho : Outcome.Alike ρ Eq outcome outcome') :
    (m.tested s rule outcome).Alike ρ (m'.tested s' rule outcome') := by
  cases ho with
  | error he => exact h.restore hs
  | @ok matched _ heq =>
    subst heq
    have hmiss := ((h.restore hs).emit (.tested false rule s.position matched)
      (.tested false rule s'.position matched)).memoize s.position.offset rule matched
    unfold Machine.tested Machine.miss
    rw [hs.position.offset]
    exact hmiss

/-- Either may know a token that the other does not. -/
theorem of_parsers (h : m.Alike ρ m') (hn : n.parser = m.parser) (hn' : n'.parser = m'.parser)
    (hserial : n.shared.nextSerial = m.shared.nextSerial)
    (hserial' : n'.shared.nextSerial = m'.shared.nextSerial) (hplain : n.shared.tokens.Plain)
    (hplain' : n'.shared.tokens.Plain) : n.Alike ρ n' where
  directory := by
    rw [hn, hn']
    exact h.directory
  cursor := by
    rw [hn, hn']
    exact h.cursor
  skipper := by
    rw [hn, hn']
    exact h.skipper
  memo := by
    rw [hn, hn']
    exact h.memo
  stats := by
    rw [hn, hn']
    exact h.stats
  serial := by
    rw [hserial, hserial']
    exact h.serial
  plain := hplain
  plain' := hplain'

end Alike

/-- New sessions on one text are alike, whatever the sessions before were. -/
theorem alike_session {ρ : Serials} {m m' : Machine σ} (hρ : ρ.Paired)
    (hd : m'.parser.directory = m.parser.directory)
    (hserial : ρ m.shared.nextSerial m'.shared.nextSerial) (hplain : m.shared.tokens.Plain)
    (hplain' : m'.shared.tokens.Plain) (name : String) (path? : Option String)
    (content : List Char) :
    (m.session name path? content).Alike ρ (m'.session name path? content) where
  directory := hd
  cursor := ⟨rfl, rfl, rfl, hserial, rfl, rfl, rfl⟩
  skipper := rfl
  memo := rfl
  stats := rfl
  serial := hρ.succ hserial
  plain := hplain
  plain' := hplain'

theorem Alike.root_eq {ρ : Serials} {m m' : Machine σ} (h : m.Alike ρ m') : m'.root = m.root := by
  unfold root
  rw [h.directory, show m'.parser.cursor.source.path? = _ from h.cursor.source.path]
  rfl

theorem Alike.sub {ρ : Serials} {m m' : Machine σ} (hρ : ρ.Paired) (h : m.Alike ρ m') :
    m.sub.Alike ρ m'.sub where
  directory := h.root_eq
  cursor := ⟨rfl, rfl, rfl, h.serial, rfl, rfl, rfl⟩
  skipper := rfl
  memo := rfl
  stats := rfl
  serial := hρ.succ h.serial
  plain := h.plain
  plain' := h.plain'

/-- Back from parsers for included files. -/
theorem Alike.back {ρ : Serials} {m m' n n' : Machine σ} (h : m.Alike ρ m') (hn : n.Alike ρ n') :
    (n.withParser m.parser).Alike ρ (n'.withParser m'.parser) :=
  ⟨h.directory, h.cursor, h.skipper, h.memo, h.stats, hn.serial, hn.plain, hn.plain'⟩

end Machine

namespace Action
variable {σ α β : Type}

/-- Both end with results as `S` says, or with the same halt, and leave machines that are alike. -/
inductive InStep (ρ : Serials) (S : α → β → Prop) (x : Action σ α) (y : Action σ β)
    (m k : Machine σ) : Prop where
  | ok {a : α} {b : β} {n l : Machine σ} (hx : x m = .ok a n) (hy : y k = .ok b l) (h : S a b)
    (hn : n.Alike ρ l)
  | error {why : Halt} {n l : Machine σ} (hx : x m = .error why n) (hy : y k = .error why l)
    (hn : n.Alike ρ l)

namespace InStep
variable {γ δ : Type} {ρ : Serials} {S : α → β → Prop} {T : γ → δ → Prop}
variable {x : Action σ α} {y : Action σ β} {f : α → Action σ γ} {f' : β → Action σ δ}
variable {m k n l : Machine σ} {a : α} {b : β}

/-- Both begin with a step that cannot fail. -/
theorem pre (hx : x m = .ok a n) (hy : y k = .ok b l) (h : InStep ρ T (f a) (f' b) n l) :
    InStep ρ T (x >>= f) (y >>= f') m k := by
  cases h with
  | ok hfx hfy ht hn =>
    exact .ok ((bind_eq_of_ok hx).trans hfx) ((bind_eq_of_ok hy).trans hfy) ht hn
  | error hfx hfy hn =>
    exact .error ((bind_eq_of_ok hx).trans hfx) ((bind_eq_of_ok hy).trans hfy) hn

theorem bind (h : InStep ρ S x y m k)
    (hf : ∀ a b n l, S a b → n.Alike ρ l → InStep ρ T (f a) (f' b) n l) :
    InStep ρ T (x >>= f) (y >>= f') m k := by
  cases h with
  | error hx hy hn => exact .error (bind_eq_of_error hx) (bind_eq_of_error hy) hn
  | ok hx hy h hn => exact .pre hx hy (hf _ _ _ _ h hn)

theorem pure (h : S a b) (hm : m.Alike ρ k) :
    InStep ρ S (Pure.pure a : Action σ α) (Pure.pure b) m k :=
  .ok rfl rfl h hm

end InStep

end Action

namespace Engine
open Packrat.Action Machine
variable {N σ α : Type} {g : Setting N σ} {like : N → N → Prop} {ρ : Serials}
variable {run : Runner N σ} {m m' : Machine σ}

/-- Runs of programs that are alike go in step. -/
structure RunsInStep (g : Setting N σ) (ρ : Serials) (like : N → N → Prop) (run : Runner N σ) :
    Prop where
  paired : ρ.Paired
  plain : g.grammar.All (Program.Only Call.Plain) (Program.Only Call.Plain)
  alike : g.grammar.All (fun p => p.Alike ρ like (Outcome.Alike ρ like) p)
    fun p => p.Alike ρ like (Outcome.Alike ρ Eq) p
  make : ∀ kind p p', p.Alike ρ p' → like (g.make kind p) (g.make kind p')
  steps : ∀ {β : Type} {S : β → β → Prop} {p p' : Program N σ β} {m m' : Machine σ},
    p.Alike ρ like S p' → p.Only Call.Plain → m.Alike ρ m' → InStep ρ S (run β p) (run β p') m m'

theorem plain_basic (c : Call σ) (hc : c.Basic) : c.Plain := by
  cases c with
  | addToken => exact hc.elim
  | _ => trivial

/-- A token that is registered as itself is the same, known or not. -/
theorem exists_addToken (h : m.shared.tokens.Plain) (id : String) :
    ∃ n, addToken id id m = .ok (.token id) n ∧ n.parser = m.parser ∧
      n.shared.nextSerial = m.shared.nextSerial ∧ n.shared.tokens.Plain := by
  cases hid : m.shared.tokens.literal? id with
  | none =>
    refine ⟨m.register id id, ?_, rfl, rfl, h.add id⟩
    rw [eq_ok_iff_ends, ends_addToken, hid]
    exact ⟨rfl, rfl⟩
  | some known =>
    refine ⟨m, ?_, rfl, rfl, h⟩
    rw [eq_ok_iff_ends, ends_addToken, hid]
    exact ⟨congrArg Resolved.token (h id known hid), rfl⟩

theorem inStep_addToken (h : m.Alike ρ m') (id : String) :
    InStep ρ Eq (addToken id id) (addToken id id) m m' := by
  obtain ⟨n, hx, hp, hserial, hplain⟩ := exists_addToken h.plain id
  obtain ⟨n', hx', hp', hserial', hplain'⟩ := exists_addToken h.plain' id
  exact .ok hx hx' rfl (h.of_parsers hp hp' hserial hserial' hplain hplain')

theorem inStep_resolve (h : m.Alike ρ m') (id : String) :
    InStep ρ Eq (resolve g id) (resolve g id) m m' := by
  unfold resolve
  split
  · exact .pure rfl h
  · exact inStep_addToken h id

theorem inStep_invoke (R : RunsInStep g ρ like run) (h : m.Alike ρ m') (r : Resolved)
    (params : Params) :
    InStep ρ (Outcome.Alike ρ like) (invoke g run r params) (invoke g run r params) m m' := by
  rw [invoke_eq]
  exact R.steps (R.alike.body Program.alike_token r params)
    (R.plain.body (Program.only_token plain_basic) r params) h

theorem inStep_resolveAndInvoke (R : RunsInStep g ρ like run) (h : m.Alike ρ m') (id : String)
    (params : Params) :
    InStep ρ (Outcome.Alike ρ like) (resolveAndInvoke g run id params)
      (resolveAndInvoke g run id params) m m' := by
  apply (inStep_resolve h id).bind
  rintro r _ n n' rfl hn
  exact inStep_invoke R hn r params

theorem alike_failAt (h : m.Alike ρ m') (cause : Error.Cause) :
    Error.Alike ρ ⟨cause, some m.position⟩ ⟨cause, some m'.position⟩ :=
  ⟨rfl, .some h.position⟩

theorem inStep_failAt {γ : Type} {S : γ → γ → Prop} (h : m.Alike ρ m') (cause : Error.Cause) :
    InStep ρ (Outcome.Alike ρ S) (do return .error (← failAt cause))
      (do return .error (← failAt cause)) m m' :=
  .ok rfl rfl (.error (alike_failAt h cause)) h

theorem inStep_skip (R : RunsInStep g ρ like run) (h : m.Alike ρ m') (id? : Option String) :
    InStep ρ (Outcome.Alike ρ Eq) (skip g run id?) (skip g run id?) m m' := by
  refine .pre (a := m.parser) (b := m'.parser) rfl rfl ?_
  rw [h.skipper]
  cases id?.or m.parser.skipper? with
  | none => exact .pure (.ok rfl) h
  | some id =>
    dsimp only
    cases hs : g.grammar.skippers[id]? with
    | none => exact inStep_failAt h _
    | some skipper =>
      have hskipper := R.steps (R.alike.skipper id skipper hs) (R.plain.skipper id skipper hs) h
      refine .pre (a := m.snapshot) (b := m'.snapshot) rfl rfl (hskipper.bind ?_)
      intro outcome outcome' n n' ho hn
      cases ho with
      | ok heq => exact .pure (.ok heq) hn
      | @error e e' he =>
        dsimp only
        rw [he.isFatal_eq]
        split
        · exact .pure (.error he) hn
        · exact .ok rfl rfl (.ok rfl) (hn.restore h.snapshot)

theorem inStep_runSkipper (R : RunsInStep g ρ like run) (h : m.Alike ρ m') (id : String) :
    InStep ρ (Option.Rel (Outcome.Alike ρ Eq)) (reply g run (.runSkipper id))
      (reply g run (.runSkipper id)) m m' := by
  simp only [reply]
  cases hs : g.grammar.skippers[id]? with
  | none => exact .pure .none h
  | some skipper =>
    apply (R.steps (R.alike.skipper id skipper hs) (R.plain.skipper id skipper hs) h).bind
    intro outcome outcome' n n' ho hn
    exact .pure (.some ho) hn

theorem inStep_setSkipper (R : RunsInStep g ρ like run) (h : m.Alike ρ m') (id? : Option String) :
    InStep ρ (Outcome.Alike ρ Eq) (setSkipper g run id?) (setSkipper g run id?) m m' := by
  refine .pre (a := m.parser) (b := m'.parser) rfl rfl ?_
  rw [h.skipper]
  dsimp only
  split
  · exact .pure (.ok rfl) h
  · exact .pure (.ok rfl) h
  · next id _ =>
    split
    · have hset : (m.installing id).Alike ρ
          ((m'.emit (.skipperSet m.parser.skipper? id)).withSkipper (some id)) :=
        (h.emit _ _).withSkipper (some id)
      refine .pre (a := ()) (b := ()) rfl rfl (.pre (a := ()) (b := ()) (n := m.installing id)
        rfl rfl ((inStep_skip R hset none).bind ?_))
      intro outcome outcome' n n' ho hn
      cases ho with
      | ok => exact .pure (.ok rfl) hn
      | error he => exact .pure (.error he) hn
    · exact inStep_failAt h _

theorem verdict_alike {S : α → α → Prop} {outcome outcome' : Except Error α}
    (h : Outcome.Alike ρ S outcome outcome') :
    Outcome.Alike ρ Eq (verdict outcome) (verdict outcome') := by
  cases h with
  | ok h => exact .ok rfl
  | error he =>
    unfold verdict
    dsimp only
    rw [he.isFatal_eq]
    split
    · exact .error he
    · exact .ok rfl

theorem recall?_eq (h : m.Alike ρ m') (id : String) : g.recall? m' id = g.recall? m id := by
  unfold Setting.recall?
  rw [h.memo, show m'.parser.cursor.offset = _ from h.cursor.offset]
  rfl

theorem inStep_test (R : RunsInStep g ρ like run) (h : m.Alike ρ m') (id : String) :
    InStep ρ (Outcome.Alike ρ Eq) (test g run id) (test g run id) m m' := by
  have htesting : m.testing.Alike ρ m'.testing := h.count _
  cases hrecall : g.recall? m id with
  | some matched =>
    have hrecall' := (recall?_eq h id).trans hrecall
    exact .ok (test_of_recall hrecall) (test_of_recall hrecall') (.ok rfl)
      ((htesting.count _).emit _ _)
  | none =>
    have hrecall' := (recall?_eq h id).trans hrecall
    cases inStep_resolveAndInvoke R htesting id [] with
    | ok hx hy ho hn =>
      have hv := verdict_alike ho
      exact .ok (test_of_miss hrecall hx) (test_of_miss hrecall' hy) hv
        (hn.tested h.snapshot id hv)
    | error hx hy hn =>
      exact .error (test_of_miss_error hrecall hx) (test_of_miss_error hrecall' hy) hn

theorem inStep_runAll (R : RunsInStep g ρ like run) (h : m.Alike ρ m') (ids : List String) :
    InStep ρ (Outcome.Alike ρ Eq) (runAll g run ids) (runAll g run ids) m m' := by
  induction ids generalizing m m' with
  | nil => exact .pure (.ok rfl) h
  | cons id ids ih =>
    rw [runAll]
    apply (inStep_resolveAndInvoke R h id []).bind
    intro outcome outcome' n n' ho hn
    cases ho with
    | ok => exact ih hn
    | error he => exact .pure (.error he) hn

theorem inStep_testAll (R : RunsInStep g ρ like run) (h : m.Alike ρ m') (ids : List String) :
    InStep ρ (Outcome.Alike ρ Eq) (testAll g run ids) (testAll g run ids) m m' := by
  refine .pre (a := m.snapshot) (b := m'.snapshot) rfl rfl ((inStep_runAll R h ids).bind ?_)
  intro outcome outcome' n n' ho hn
  exact .ok rfl rfl (verdict_alike ho) (hn.restore h.snapshot)

theorem inStep_matchWith (R : RunsInStep g ρ like run) (h : m.Alike ρ m') (ref : RuleRef)
    (params : Params) :
    InStep ρ (Outcome.Alike ρ like) (matchWith g run ref params) (matchWith g run ref params)
      m m' := by
  have hmatching : m.matching.Alike ρ m'.matching := h.count _
  refine .pre (a := ()) (b := ()) (n := m.matching) (l := m'.matching) rfl rfl ?_
  cases ref.skipper? with
  | none => exact inStep_resolveAndInvoke R hmatching ref.id params
  | some skipper =>
    apply (inStep_setSkipper R hmatching (some skipper)).bind
    intro installed installed' n n' hi hn
    cases hi with
    | error he => exact .pure (.error he) hn
    | @ok previous? _ heq =>
      subst heq
      apply (inStep_resolveAndInvoke R hn ref.id params).bind
      intro outcome outcome' k k' ho hk
      exact .ok rfl rfl ho (hk.withSkipper previous?)

theorem inStep_start (R : RunsInStep g ρ like run) (h : m.Alike ρ m') (rule : String) :
    InStep ρ (Outcome.Alike ρ like) (start g run rule) (start g run rule) m m' := by
  have hstarted : (m.emit (.started m.position.source.name rule)).Alike ρ
      (m'.emit (.started m'.position.source.name rule)) := h.emit _ _
  refine .pre (a := m.position.source.name) (b := m'.position.source.name) rfl rfl
    (.pre (a := ()) (b := ()) rfl rfl ((inStep_matchWith R hstarted ⟨rule, none⟩ []).bind ?_))
  intro outcome outcome' n n' ho hn
  cases ho with
  | ok ha => exact .ok rfl rfl (.ok ha) (hn.emit _ _)
  | error he => exact .ok rfl rfl (.error (he.orAt hn.position)) (hn.emit _ _)

theorem inStep_below (R : RunsInStep g ρ like run) (h : m.Alike ρ m') {β : Type}
    {S : β → β → Prop} {p p' : Program N σ β} (hp : p.Alike ρ like S p')
    (hplain : p.Only Call.Plain) : InStep ρ S (below run p) (below run p') m m' := by
  have hsub := h.sub R.paired
  refine .pre (a := m.parser) (b := m'.parser) rfl rfl
    (.pre (a := m.sub.parser) (b := m'.sub.parser) (n := (m.emit (.rooted m.root)).loaded)
      (l := (m'.emit (.rooted m'.root)).loaded) rfl rfl
      (.pre (a := ()) (b := ()) (n := m.sub) (l := m'.sub) rfl rfl
        ((R.steps hp hplain hsub).bind ?_)))
  intro a b n n' hab hn
  exact .ok rfl rfl hab (h.back hn)

theorem reply_of_reading {c : Call σ} {u : Cursor → Except Fault (c.Reply N × Cursor)}
    (hu : c.reading? = some u) {a : c.Reply N} {d : Cursor} (hx : u m.parser.cursor = .ok (a, d)) :
    reply g run c m = .ok a (m.withCursor d) := by
  rw [eq_ok_iff_ends, ends_reading hu, hx]
  exact ⟨rfl, rfl⟩

theorem reply_of_reading_error {c : Call σ} {u : Cursor → Except Fault (c.Reply N × Cursor)}
    (hu : c.reading? = some u) {why : Fault} (hx : u m.parser.cursor = .error why) :
    reply g run c m = .error (.fault why) m := by
  rw [eq_error_iff_ends, ends_reading hu, hx]
  exact ⟨rfl, rfl⟩

theorem inStep_reading (h : m.Alike ρ m') {c : Call σ}
    {u : Cursor → Except Fault (c.Reply N × Cursor)} (hu : c.reading? = some u) :
    InStep ρ Eq (reply g run c) (reply g run c) m m' := by
  rcases h.cursor.reading hu with ⟨a, d, d', hx, hy, hd⟩ | ⟨why, hx, hy⟩
  · exact .ok (reply_of_reading hu hx) (reply_of_reading hu hy) rfl (h.withCursor hd)
  · exact .error (reply_of_reading_error hu hx) (reply_of_reading_error hu hy) h

theorem inStep_read (R : RunsInStep g ρ like run) (h : m.Alike ρ m') (file : String) :
    InStep ρ (Outcome.Alike ρ Eq) (read g file) (read g file) m m' := by
  refine .pre (a := m.parser) (b := m'.parser) rfl rfl ?_
  rw [h.directory]
  dsimp only
  cases g.disk.read (Path.join m.parser.directory file) with
  | error trouble => exact .pure (.error ⟨rfl, .none⟩) h
  | ok text =>
    exact .ok rfl rfl (.ok rfl) (alike_session R.paired h.directory h.serial h.plain h.plain'
      (Path.join m.parser.directory file) (some (Path.join m.parser.directory file)) text)

theorem inStep_reply (R : RunsInStep g ρ like run) (h : m.Alike ρ m') {c : Call σ}
    (hc : c.Placeless) (hplain : c.Plain) :
    InStep ρ (c.RepliesAlike ρ like) (reply g run c) (reply g run c) m m' := by
  cases c with
  | peek | next | rest | startsWith | eat | eatWhile | eatRegex | advance =>
    exact inStep_reading h rfl
  | atEnd =>
    refine .ok rfl rfl ?_ h
    show decide _ = decide _
    rw [show m'.parser.cursor.source.content = _ from h.cursor.source.content,
      show m'.parser.cursor.offset = _ from h.cursor.offset]
    rfl
  | position => exact .ok rfl rfl h.position h
  | skipper => exact .ok rfl rfl h.skipper.symm h
  | directory => exact .ok rfl rfl h.directory.symm h
  | hasRule | hasSkipper | ruleNames | skipperNames => exact .ok rfl rfl rfl h
  | gauge => exact .ok rfl rfl ⟨h.stats, congrArg Memo.size h.memo⟩ h
  | moveTo | restore | make => exact hc.elim
  | resolve id => exact inStep_resolve h id
  | addToken id literal =>
    cases hplain
    exact inStep_addToken h id
  | invoke r params => exact inStep_invoke R h r params
  | matchWith ref params => exact inStep_matchWith R h ref params
  | test id => exact inStep_test R h id
  | testAll ids => exact inStep_testAll R h ids
  | skip id? => exact inStep_skip R h id?
  | runSkipper id => exact inStep_runSkipper R h id
  | setSkipper id? => exact inStep_setSkipper R h id?
  | read file => exact inStep_read R h file
  | readText name content =>
    exact .ok rfl rfl rfl (alike_session R.paired h.directory h.serial h.plain h.plain' name none
      content.toList)
  | start rule => exact inStep_start R h rule
  | parseBelow file rule =>
    exact inStep_below R h (Program.alike_parse file rule)
      (Program.only_parse plain_basic file rule)
  | parseTextBelow name content rule =>
    exact inStep_below R h (Program.alike_parseText name content rule)
      (Program.only_parseText plain_basic name content rule)
  | note label => exact .ok rfl rfl rfl (h.emit _ _)
  | consult f => exact .ok rfl rfl trivial (h.withOutside _ _)
  | halt why => exact .error rfl rfl h

/-- Programs that are alike run in step from sessions that are alike. -/
theorem runsInStep_run (hρ : ρ.Paired)
    (hplain : g.grammar.All (Program.Only Call.Plain) (Program.Only Call.Plain))
    (halike : g.grammar.All (fun p => p.Alike ρ like (Outcome.Alike ρ like) p)
      fun p => p.Alike ρ like (Outcome.Alike ρ Eq) p)
    (hmake : ∀ kind p p', p.Alike ρ p' → like (g.make kind p) (g.make kind p')) (depth : Nat) :
    RunsInStep g ρ like (Engine.run g depth) := by
  induction depth with
  | zero => exact ⟨hρ, hplain, halike, hmake, fun _ _ hm => .error rfl rfl hm⟩
  | succ depth ih =>
    refine ⟨hρ, hplain, halike, hmake, ?_⟩
    intro β S p p' m m' hp honly hm
    -- The relation of the programs tells which call comes next in both.
    induction hp generalizing m m' with
    | done h => exact .pure h hm
    | call hc hnext ihp =>
      obtain ⟨hplain, honly⟩ := honly
      apply (inStep_reply ih hm hc hplain).bind
      intro r r' n n' hr hn
      exact ihp r r' hr (honly r trivial) hn
    | moveTo hp hnext ihp =>
      exact .pre rfl rfl (ihp (honly.2 () trivial) (hm.withCursor (hm.cursor.moveTo hp)))
    | restore hs hnext ihp =>
      exact .pre rfl rfl (ihp (honly.2 () trivial) (hm.restore hs))
    | make hp hnext ihp =>
      exact .pre rfl rfl (ihp _ _ (hmake _ _ _ hp) (honly.2 _ trivial) (hm.emit _ _))

end Engine

end Packrat
