import Packrat.Proofs.Conduct
import Packrat.Proofs.Replies

/-! A fatal error is on its way out from the moment it is raised: all that is in progress ends with
it, and nothing else is begun. -/

namespace Packrat
set_option autoImplicit false

/-- The same error, with a place if it had none. -/
structure Error.Stays (e e' : Error) : Prop where
  cause : e'.cause = e.cause
  position : ∀ p, e.position? = some p → e'.position? = some p

namespace Error.Stays
variable {e e' e'' : Error}

theorem refl (e : Error) : e.Stays e := ⟨rfl, fun _ h => h⟩

theorem trans (h : e.Stays e') (h' : e'.Stays e'') : e.Stays e'' where
  cause := h'.cause.trans h.cause
  position := by
    intro p hp
    apply h'.position
    exact h.position p hp

theorem isFatal (h : e.Stays e') (he : e.isFatal) : e'.isFatal := by
  unfold Error.isFatal at he ⊢
  rw [h.cause]
  exact he

theorem orAt (e : Error) (p : Position) : e.Stays (e.orAt p) where
  cause := rfl
  position := by
    intro q hq
    rw [Error.orAt, hq]
    rfl

end Error.Stays

/-! Programs that catch nothing fatal. -/

/-- The error that a call has come to. -/
def Call.error? {N σ : Type} : (c : Call σ) → c.Reply N → Option Error
  | .invoke .., .error e | .matchWith .., .error e | .start _, .error e => some e
  | .parseBelow .., .error e | .parseTextBelow .., .error e => some e
  | .test _, .error e | .testAll _, .error e | .skip _, .error e => some e
  | .runSkipper _, some (.error e) => some e
  | .setSkipper _, .error e => some e
  | .read _, .error e => some e
  | _, _ => none

namespace Program
variable {N σ α β : Type}

/-- Ends at once with the fatal error of any call. -/
def Forwards : Program N σ (Except Error α) → Prop
  | .done _ => True
  | .call c next => ∀ reply,
    (∀ e, c.error? reply = some e → e.isFatal → next reply = .done (.error e)) ∧
      (next reply).Forwards

theorem Forwards.call_of_quiet {c : Call σ} {next : c.Reply N → Program N σ (Except Error α)}
    (hc : ∀ reply : c.Reply N, c.error? reply = none)
    (hnext : ∀ reply, (next reply).Forwards) :
    (Program.call c next).Forwards := by
  intro reply
  refine ⟨?_, hnext reply⟩
  intro e he
  cases (hc reply).symm.trans he

theorem forwards_token (text : String) :
    (token text : Program N σ (Except Error N)).Forwards := by
  apply Forwards.call_of_quiet fun _ => rfl
  intro start
  apply Forwards.call_of_quiet fun _ => rfl
  intro taken
  cases taken with
  | true => exact .call_of_quiet (fun _ => rfl) fun _ => trivial
  | false => exact .call_of_quiet (fun _ => rfl) fun _ => trivial

theorem forwards_testAny (ids : List String) :
    (testAny ids : Program N σ (Except Error (Option String))).Forwards := by
  induction ids with
  | nil => trivial
  | cons id ids ih =>
    intro reply
    match reply with
    | .error e =>
      refine ⟨?_, trivial⟩
      rintro _ ⟨⟩ _
      rfl
    | .ok true => exact ⟨fun _ he => (nomatch he), trivial⟩
    | .ok false => exact ⟨fun _ he => (nomatch he), ih⟩

theorem forwards_ask {c : Call σ} (outcome : c.Reply N → Except Error α)
    (h : ∀ reply e, c.error? reply = some e → outcome reply = .error e) :
    (Program.call c fun reply => .done (outcome reply)).Forwards := by
  intro reply
  refine ⟨?_, trivial⟩
  intro e he _
  exact congrArg Program.done (h reply e he)

theorem forwards_matchWith (ref : RuleRef) (params : Params) :
    (ask (.matchWith ref params) : Program N σ (Except Error N)).Forwards := by
  apply forwards_ask
  intro reply e he
  cases reply <;> cases he
  rfl

theorem forwards_test (id : String) :
    (ask (.test id) : Program N σ (Except Error Bool)).Forwards := by
  apply forwards_ask
  intro reply e he
  cases reply <;> cases he
  rfl

theorem forwards_testAll (ids : List String) :
    (ask (.testAll ids) : Program N σ (Except Error Bool)).Forwards := by
  apply forwards_ask
  intro reply e he
  cases reply <;> cases he
  rfl

theorem forwards_skip (id? : Option String) :
    (ask (.skip id?) : Program N σ (Except Error Bool)).Forwards := by
  apply forwards_ask
  intro reply e he
  cases reply <;> cases he
  rfl

theorem forwards_setSkipper (id? : Option String) :
    (ask (.setSkipper id?) : Program N σ (Except Error (Option String))).Forwards := by
  apply forwards_ask
  intro reply e he
  cases reply <;> cases he
  rfl

theorem forwards_start (rule : String) :
    (ask (.start rule) : Program N σ (Except Error N)).Forwards := by
  apply forwards_ask
  intro reply e he
  cases reply <;> cases he
  rfl

theorem forwards_matchFirst (all ids : List String) :
    (matchFirst all ids : Program N σ (Except Error N)).Forwards := by
  induction ids with
  | nil => exact .call_of_quiet (fun _ => rfl) fun _ => trivial
  | cons id ids ih =>
    intro reply
    match reply with
    | .error e =>
      refine ⟨?_, trivial⟩
      rintro _ ⟨⟩ _
      rfl
    | .ok true => exact ⟨fun _ he => (nomatch he), forwards_matchWith ⟨id, none⟩ []⟩
    | .ok false => exact ⟨fun _ he => (nomatch he), ih⟩

theorem forwards_matchAny (ids : List String) :
    (matchAny ids : Program N σ (Except Error N)).Forwards :=
  forwards_matchFirst ids ids

theorem forwards_parse (file rule : String) :
    (parse file rule : Program N σ (Except Error N)).Forwards := by
  intro reply
  match reply with
  | .error e =>
    refine ⟨?_, trivial⟩
    rintro _ ⟨⟩ _
    rfl
  | .ok () => exact ⟨fun _ he => (nomatch he), forwards_start rule⟩

theorem forwards_parseText (name content rule : String) :
    (parseText name content rule : Program N σ (Except Error N)).Forwards :=
  .call_of_quiet (fun _ => rfl) fun _ => forwards_start rule

end Program

/-- No rule or skipper catches a fatal error. -/
def Setting.Forwards {N σ : Type} (g : Setting N σ) : Prop :=
  g.grammar.All Program.Forwards Program.Forwards

theorem Setting.Forwards.body {N σ : Type} {g : Setting N σ} (hg : g.Forwards) (r : Resolved)
    (params : Params) : (g.body r params).Forwards :=
  Grammar.All.body hg Program.forwards_token r params

/-- What a call has a parser of its own run. -/
def Call.below? {N σ : Type} : Call σ → Option (Program N σ (Except Error N))
  | .parseBelow file rule => some (Program.parse file rule)
  | .parseTextBelow name content rule => some (Program.parseText name content rule)
  | _ => none

/-! What is left when an error has come out. -/

namespace Machine
variable {N σ : Type} {m n k : Machine σ}

/-- From `m` to `n` nothing was run: cursor and skipper may have been put back, and the log may tell
of sessions that have failed. -/
structure Unwinds (m n : Machine σ) : Prop where
  memo : n.parser.memo = m.parser.memo
  stats : n.parser.stats = m.parser.stats
  source : n.parser.cursor.source = m.parser.cursor.source
  tokens : n.shared.tokens = m.shared.tokens
  serial : n.shared.nextSerial = m.shared.nextSerial
  outside : n.shared.outside = m.shared.outside
  events : ∃ failures, n.shared.events = failures ++ m.shared.events ∧
    ∀ e ∈ failures, ∃ source message, e = .failed source message

theorem unwinds_withParser {p : Parser} (hm : p.memo = m.parser.memo)
    (hs : p.stats = m.parser.stats) (hc : p.cursor.source = m.parser.cursor.source) :
    m.Unwinds (m.withParser p) :=
  ⟨hm, hs, hc, rfl, rfl, rfl, [], rfl, fun _ he => nomatch he⟩

theorem Unwinds.refl (m : Machine σ) : m.Unwinds m := unwinds_withParser rfl rfl rfl

theorem Unwinds.trans (h : m.Unwinds n) (h' : n.Unwinds k) : m.Unwinds k where
  memo := h'.memo.trans h.memo
  stats := h'.stats.trans h.stats
  source := h'.source.trans h.source
  tokens := h'.tokens.trans h.tokens
  serial := h'.serial.trans h.serial
  outside := h'.outside.trans h.outside
  events := by
    obtain ⟨failures, hn, hfailures⟩ := h.events
    obtain ⟨failures', hk, hfailures'⟩ := h'.events
    refine ⟨failures' ++ failures, ?_, ?_⟩
    · rw [hk, hn, List.append_assoc]
    · intro e he
      rcases List.mem_append.1 he with he | he
      · exact hfailures' e he
      · exact hfailures e he

theorem unwinds_restore (m : Machine σ) (s : Snapshot) : m.Unwinds (m.restore s) :=
  unwinds_withParser rfl rfl rfl

theorem unwinds_withSkipper (m : Machine σ) (skipper? : Option String) :
    m.Unwinds (m.withSkipper skipper?) :=
  unwinds_withParser rfl rfl rfl

theorem unwinds_failed (m : Machine σ) (source message : String) :
    m.Unwinds (m.emit (.failed source message)) where
  memo := rfl
  stats := rfl
  source := rfl
  tokens := rfl
  serial := rfl
  outside := rfl
  events := by
    refine ⟨[.failed source message], rfl, ?_⟩
    intro e he
    exact ⟨source, message, List.mem_singleton.1 he⟩

/-- Seen from another parser. -/
theorem Unwinds.withParser (h : m.Unwinds n) (p : Parser) :
    (m.withParser p).Unwinds (n.withParser p) :=
  ⟨rfl, rfl, rfl, h.tokens, h.serial, h.outside, h.events⟩

end Machine

namespace Engine
open Packrat.Action Machine Program
variable {N σ α : Type} {g : Setting N σ} {depth : Nat} {m n k : Machine σ} {e : Error}
variable {c : Call σ}

/-- The call itself raises the error, with the machine then as it is told. -/
inductive Raises (g : Setting N σ) : Call σ → Machine σ → Error → Machine σ → Prop where
  | skip {id? : Option String} {id : String} {m : Machine σ}
    (hid : id?.or m.parser.skipper? = some id) (hs : g.grammar.skippers[id]? = none) :
    Raises g (.skip id?) m ⟨.unknownSkipper id, some m.position⟩ m
  | setSkipper {id : String} {m : Machine σ} (hid : id ≠ "")
    (hs : g.grammar.skippers[id]? = none) :
    Raises g (.setSkipper (some id)) m ⟨.unknownSkipper id, some m.position⟩ m
  | matchWith {ref : RuleRef} {params : Params} {id : String} {m : Machine σ}
    (href : ref.skipper? = some id) (hid : id ≠ "") (hs : g.grammar.skippers[id]? = none) :
    Raises g (.matchWith ref params) m ⟨.unknownSkipper id, some m.position⟩ m.matching
  | read {file : String} {trouble : Disk.Trouble} {m : Machine σ}
    (hread : g.disk.read (Path.join m.parser.directory file) = .error trouble) :
    Raises g (.read file) m
      ⟨.readFailed (Path.join m.parser.directory file) trouble.message, none⟩ m

/-- The call runs the program from there. -/
inductive Enters (g : Setting N σ) (depth : Nat) :
    Call σ → Machine σ → {α : Type} → Program N σ (Except Error α) → Machine σ → Prop where
  | invoke {r : Resolved} {params : Params} {m : Machine σ} :
    Enters g depth (.invoke r params) m (g.body r params) m
  | matchWith {ref : RuleRef} {params : Params} {r : Resolved} {m n : Machine σ}
    (href : ref.skipper? = none) (hr : resolve g ref.id m.matching = .ok r n) :
    Enters g depth (.matchWith ref params) m (g.body r params) n
  /-- The skip that comes with a skipper of its own. -/
  | install {ref : RuleRef} {params : Params} {id : String} {skipper : Skipper N σ}
    {m : Machine σ} (href : ref.skipper? = some id) (hid : id ≠ "")
    (hs : g.grammar.skippers[id]? = some skipper) :
    Enters g depth (.matchWith ref params) m skipper (m.matching.installing id)
  | installed {ref : RuleRef} {params : Params} {id : String} {previous? : Option String}
    {r : Resolved} {m n k : Machine σ} (href : ref.skipper? = some id)
    (hset : setSkipper g (run g depth) (some id) m.matching = .ok (.ok previous?) n)
    (hr : resolve g ref.id n = .ok r k) :
    Enters g depth (.matchWith ref params) m (g.body r params) k
  | test {id : String} {r : Resolved} {m n : Machine σ} (hm : g.recall? m id = none)
    (hr : resolve g id m.testing = .ok r n) : Enters g depth (.test id) m (g.body r []) n
  /-- The rules before that one have matched. -/
  | testAll {before after : List String} {id : String} {r : Resolved} {m n k : Machine σ}
    (hbefore : runAll g (run g depth) before m = .ok (.ok ()) n) (hr : resolve g id n = .ok r k) :
    Enters g depth (.testAll (before ++ id :: after)) m (g.body r []) k
  | skip {id? : Option String} {id : String} {skipper : Skipper N σ} {m : Machine σ}
    (hid : id?.or m.parser.skipper? = some id) (hs : g.grammar.skippers[id]? = some skipper) :
    Enters g depth (.skip id?) m skipper m
  | runSkipper {id : String} {skipper : Skipper N σ} {m : Machine σ}
    (hs : g.grammar.skippers[id]? = some skipper) : Enters g depth (.runSkipper id) m skipper m
  | setSkipper {id : String} {skipper : Skipper N σ} {m : Machine σ} (hid : id ≠ "")
    (hs : g.grammar.skippers[id]? = some skipper) :
    Enters g depth (.setSkipper (some id)) m skipper (m.installing id)
  | start {rule : String} {r : Resolved} {m n : Machine σ}
    (hr : resolve g rule (m.emit (.started m.position.source.name rule)).matching = .ok r n) :
    Enters g depth (.start rule) m (g.body r []) n

/-- In the run of a program from `m` the fatal error is raised, at any depth: by a call, or by a
rule or skipper of its own accord. The machine is the one at that moment, seen from the parser of
`m`. -/
inductive Raised (g : Setting N σ) : Nat → {α : Type} → Program N σ (Except Error α) →
    Machine σ → Error → Machine σ → Prop where
  | own {depth : Nat} {α : Type} {e : Error} {m : Machine σ} (he : e.isFatal) :
    Raised g (depth + 1) (.done (.error e) : Program N σ (Except Error α)) m e m
  | call {depth : Nat} {α : Type} {c : Call σ} {next : c.Reply N → Program N σ (Except Error α)}
    {e : Error} {m n : Machine σ} (hc : Raises g c m e n) :
    Raised g (depth + 1) (.call c next) m e n
  | inside {depth : Nat} {α β : Type} {c : Call σ}
    {next : c.Reply N → Program N σ (Except Error α)} {p : Program N σ (Except Error β)}
    {e : Error} {m n k : Machine σ} (hc : Enters g depth c m p n) (hp : Raised g depth p n e k) :
    Raised g (depth + 1) (.call c next) m e k
  | beneath {depth : Nat} {α : Type} {c : Call σ} {next : c.Reply N → Program N σ (Except Error α)}
    {p : Program N σ (Except Error N)} {e : Error} {m n : Machine σ} (hc : c.below? = some p)
    (hp : Raised g depth p m.sub e n) :
    Raised g (depth + 1) (.call c next) m e (n.withParser m.parser)
  | later {depth : Nat} {α : Type} {c : Call σ} {next : c.Reply N → Program N σ (Except Error α)}
    {a : c.Reply N} {e : Error} {m n k : Machine σ}
    (hc : reply g (run g depth) c m = .ok a n) (hnext : Raised g (depth + 1) (next a) n e k) :
    Raised g (depth + 1) (.call c next) m e k

/-- The call comes to the error, and from `n` on to its end nothing is run. -/
def Fails (g : Setting N σ) (depth : Nat) (c : Call σ) (m : Machine σ) (e : Error)
    (n : Machine σ) : Prop :=
  ∃ a e' k, reply g (run g depth) c m = .ok a k ∧ c.error? (N := N) a = some e' ∧ e.Stays e' ∧
    n.Unwinds k

theorem Fails.mono {e e' : Error} (h : Fails g depth c m e' n) (he : e.Stays e')
    (hn : k.Unwinds n) : Fails g depth c m e k := by
  obtain ⟨a, e'', l, hx, ha, hstays, hunwinds⟩ := h
  exact ⟨a, e'', l, hx, ha, he.trans hstays, hn.trans hunwinds⟩

theorem fails_of_ends
    (h : Ends (reply g (run g depth) c) m
      (fun a k => ∃ e', c.error? (N := N) a = some e' ∧ e.Stays e' ∧ n.Unwinds k)
      fun _ _ => False) : Fails g depth c m e n := by
  cases hx : reply g (run g depth) c m with
  | ok a k =>
    obtain ⟨e', ha, hstays, hunwinds⟩ := h.ok hx
    exact ⟨a, e', k, hx, ha, hstays, hunwinds⟩
  | error why k => exact (h.error hx).elim

theorem ends_resolveAndInvoke_of_resolve {id : String} {r : Resolved} {params : Params}
    (hr : resolve g id m = .ok r n) {Q : Except Error N → Machine σ → Prop}
    {E : Halt → Machine σ → Prop} :
    Ends (resolveAndInvoke g (run g depth) id params) m Q E ↔
      Ends (run g depth _ (g.body r params)) n Q E := by
  rw [ends_resolveAndInvoke, ends_of_eq_ok hr]

theorem fails_of_raises (hc : Raises g c m e n) : Fails g depth c m e n := by
  apply fails_of_ends
  cases hc with
  | skip hid hs =>
    apply ends_skip.2
    rw [hid]
    simp only [hs]
    exact ⟨_, rfl, .refl _, .refl m⟩
  | setSkipper hid hs =>
    exact (ends_setSkipper_of_unknown hid hs).2 ⟨_, rfl, .refl _, .refl m⟩
  | matchWith href hid hs =>
    apply ends_matchWith.2
    rw [href]
    exact (ends_setSkipper_of_unknown hid hs).2 ⟨_, rfl, .refl _, .refl _⟩
  | read hread =>
    apply ends_read.2
    rw [hread]
    exact ⟨_, rfl, .refl _, .refl m⟩

theorem Raises.isFatal (hc : Raises g c m e n) : e.isFatal := by
  cases hc <;> rfl

theorem verdict_of_isFatal (he : e.isFatal) : verdict (.error e : Except Error α) = .error e :=
  if_pos he

/-- Rules that matched are left behind. -/
theorem ends_runAll_append {before after : List String}
    (h : runAll g (run g depth) before m = .ok (.ok ()) n) {Q : Except Error Unit → Machine σ → Prop}
    {E : Halt → Machine σ → Prop} :
    Ends (runAll g (run g depth) (before ++ after)) m Q E ↔
      Ends (runAll g (run g depth) after) n Q E := by
  induction before generalizing m with
  | nil =>
    cases h
    rfl
  | cons id ids ih =>
    obtain ⟨outcome, k, hk, h⟩ := exists_of_bind_eq_ok h
    cases outcome with
    | error e => cases h
    | ok node =>
      rw [List.cons_append, ends_runAll_cons, ends_of_eq_ok hk]
      exact ih h

/-- What is run by a call passes its fatal errors on to it. -/
theorem fails_of_enters {p : Program N σ (Except Error α)} (hc : Enters g depth c m p n)
    (hp : run g depth _ p n = .ok (.error e) k) (he : e.isFatal) : Fails g depth c m e k := by
  apply fails_of_ends
  cases hc with
  | invoke =>
    rw [reply_invoke]
    exact (ends_of_eq_ok hp).2 ⟨e, rfl, .refl e, .refl k⟩
  | matchWith href hr =>
    apply ends_matchWith.2
    rw [href]
    apply (ends_resolveAndInvoke_of_resolve hr).2
    exact (ends_of_eq_ok hp).2 ⟨e, rfl, .refl e, .refl k⟩
  | install href hid hs =>
    apply ends_matchWith.2
    rw [href]
    apply (ends_setSkipper_of_skipper hid hs).2
    apply (ends_of_eq_ok hp).2
    dsimp only
    rw [if_pos he]
    exact ⟨e, rfl, .refl e, .refl k⟩
  | installed href hset hr =>
    apply ends_matchWith.2
    rw [href]
    apply (ends_of_eq_ok hset).2
    apply (ends_resolveAndInvoke_of_resolve hr).2
    apply (ends_of_eq_ok hp).2
    exact ⟨e, rfl, .refl e, unwinds_withSkipper k _⟩
  | test hm hr =>
    apply (ends_test_of_miss hm).2
    apply (ends_resolveAndInvoke_of_resolve hr).2
    apply (ends_of_eq_ok hp).2
    rw [verdict_of_isFatal he]
    exact ⟨e, rfl, .refl e, unwinds_restore k _⟩
  | testAll hbefore hr =>
    apply ends_testAll.2
    apply (ends_runAll_append hbefore).2
    apply ends_runAll_cons.2
    apply (ends_resolveAndInvoke_of_resolve hr).2
    apply (ends_of_eq_ok hp).2
    dsimp only
    rw [verdict_of_isFatal he]
    exact ⟨e, rfl, .refl e, unwinds_restore k _⟩
  | skip hid hs =>
    apply (ends_skip_of_skipper hid hs).2
    apply (ends_of_eq_ok hp).2
    dsimp only
    rw [if_pos he]
    exact ⟨e, rfl, .refl e, .refl k⟩
  | runSkipper hs =>
    apply ends_runSkipper.2
    rw [hs]
    exact (ends_of_eq_ok hp).2 ⟨e, rfl, .refl e, .refl k⟩
  | setSkipper hid hs =>
    apply (ends_setSkipper_of_skipper hid hs).2
    apply (ends_of_eq_ok hp).2
    dsimp only
    rw [if_pos he]
    exact ⟨e, rfl, .refl e, .refl k⟩
  | start hr =>
    apply ends_start.2
    apply ends_matchWith.2
    apply (ends_resolveAndInvoke_of_resolve hr).2
    apply (ends_of_eq_ok hp).2
    exact ⟨_, rfl, .orAt e _, unwinds_failed k _ _⟩

/-- What a parser of its own runs for a call passes its fatal errors on to it. -/
theorem fails_of_below {p : Program N σ (Except Error N)} (hc : c.below? = some p)
    (hp : run g depth _ p m.sub = .ok (.error e) n) :
    Fails g depth c m e (n.withParser m.parser) := by
  apply fails_of_ends
  cases c <;> cases hc
  all_goals
    apply ends_below.2
    exact (ends_of_eq_ok hp).2 ⟨e, rfl, .refl e, .refl _⟩

/-- What is entered is a rule or a skipper of the grammar, or a token. -/
theorem Enters.of_grammar {motive : {β : Type} → Program N σ (Except Error β) → Prop}
    {p : Program N σ (Except Error α)} (hc : Enters g depth c m p n)
    (hbody : ∀ (r : Resolved) (params : Params), motive (g.body r params))
    (hskipper : ∀ (id : String) (skipper : Skipper N σ),
      g.grammar.skippers[id]? = some skipper → motive skipper) :
    motive p := by
  cases hc with
  | install href hid hs => exact hskipper _ _ hs
  | skip hid hs => exact hskipper _ _ hs
  | runSkipper hs => exact hskipper _ _ hs
  | setSkipper hid hs => exact hskipper _ _ hs
  | _ => exact hbody _ _

theorem forwards_of_enters (hg : g.Forwards) {p : Program N σ (Except Error α)}
    (hc : Enters g depth c m p n) : p.Forwards :=
  hc.of_grammar (motive := fun p => p.Forwards) hg.body hg.skipper

theorem forwards_of_below {p : Program N σ (Except Error N)} (hc : c.below? = some p) :
    p.Forwards := by
  cases c <;> cases hc
  case parseBelow => exact forwards_parse _ _
  case parseTextBelow => exact forwards_parseText _ _ _

theorem run_call_of_fails {next : c.Reply N → Program N σ (Except Error α)}
    (hnext : (Program.call c next).Forwards) (he : e.isFatal) (h : Fails g depth c m e n) :
    ∃ e' k, run g (depth + 1) _ (.call c next) m = .ok (.error e') k ∧ e.Stays e' ∧ n.Unwinds k := by
  obtain ⟨a, e', k, hx, ha, hstays, hunwinds⟩ := h
  refine ⟨e', k, ?_, hstays, hunwinds⟩
  refine (bind_eq_of_ok hx).trans ?_
  rw [(hnext a).1 e' ha (hstays.isFatal he)]
  rfl

/-- Where rules and skippers catch nothing fatal, a fatal error is what the outermost program ends
with, whatever is in progress when it is raised: no test, skip or choice makes anything else of it,
and nothing is tried, counted or kept on the way out. All calls that have an outcome are such
outermost programs. -/
theorem fatal_errors_reach_the_caller (hg : g.Forwards) (depth : Nat) :
    (∀ (β : Type) (p : Program N σ (Except Error β)) m e k, p.Forwards → Raised g depth p m e k →
      e.isFatal ∧ ∃ e' n, run g depth _ p m = .ok (.error e') n ∧ e.Stays e' ∧ k.Unwinds n) ∧
    (∀ ref params, (ask (.matchWith ref params) : Program N σ (Except Error N)).Forwards) ∧
    (∀ ids, (matchAny ids : Program N σ (Except Error N)).Forwards) ∧
    (∀ id, (ask (.test id) : Program N σ (Except Error Bool)).Forwards) ∧
    (∀ ids, (testAny ids : Program N σ (Except Error (Option String))).Forwards) ∧
    (∀ ids, (ask (.testAll ids) : Program N σ (Except Error Bool)).Forwards) ∧
    (∀ id?, (ask (.skip id?) : Program N σ (Except Error Bool)).Forwards) ∧
    (∀ id?, (ask (.setSkipper id?) : Program N σ (Except Error (Option String))).Forwards) ∧
    (∀ file rule, (parse file rule : Program N σ (Except Error N)).Forwards) ∧
    ∀ name content rule, (parseText name content rule : Program N σ (Except Error N)).Forwards := by
  refine ⟨?_, forwards_matchWith, forwards_matchAny, forwards_test, forwards_testAny,
    forwards_testAll, forwards_skip, forwards_setSkipper, forwards_parse, forwards_parseText⟩
  intro β p m e k hp h
  -- On the way in to where the error is raised: each call fails with what it has run.
  induction h with
  | own he => exact ⟨he, _, _, rfl, .refl _, .refl _⟩
  | call hc => exact ⟨hc.isFatal, run_call_of_fails hp hc.isFatal (fails_of_raises hc)⟩
  | inside hc _ ih =>
    obtain ⟨he, e', l, hx, hstays, hunwinds⟩ := ih (forwards_of_enters hg hc)
    have hfails := fails_of_enters hc hx (hstays.isFatal he)
    exact ⟨he, run_call_of_fails hp he (hfails.mono hstays hunwinds)⟩
  | beneath hc _ ih =>
    obtain ⟨he, e', l, hx, hstays, hunwinds⟩ := ih (forwards_of_below hc)
    have hfails := fails_of_below hc hx
    exact ⟨he, run_call_of_fails hp he (hfails.mono hstays (hunwinds.withParser _))⟩
  | later hc _ ih =>
    obtain ⟨he, e', l, hx, hstays, hunwinds⟩ := ih (hp _).2
    exact ⟨he, e', l, (bind_eq_of_ok hc).trans hx, hstays, hunwinds⟩

/-- Two alternatives, the first of which asks for a skipper that there is not. -/
def lostSetting : Setting Unit Unit where
  grammar := ((Grammar.empty.rule "choice" fun _ => matchAny ["lost", "word"]).rule "lost"
    fun _ => do
      match ← ask (.skip (some "missing")) with
      | .ok _ => token "ab"
      | .error e => return .error e).rule "word" fun _ => token "ab"
  make _ _ := ()
  disk := .empty
  memoizes := true

theorem forwards_lost : lostSetting.Forwards := by
  apply Grammar.All.insert_rule
  · apply Grammar.All.insert_rule
    · exact Grammar.All.insert_rule .empty fun _ => forwards_matchAny _
    · intro params reply
      match reply with
      | .error e =>
        refine ⟨?_, trivial⟩
        rintro _ ⟨⟩ _
        rfl
      | .ok skipped => exact ⟨fun _ he => (nomatch he), forwards_token "ab"⟩
  · intro params
    exact forwards_token "ab"

theorem fatal_errors_reach_the_caller_lost :
    ∃ e n, run lostSetting 3 _ (testAny ["choice", "word"]) (beginning "ab") = .ok (.error e) n ∧
      e.cause = .unknownSkipper "missing" ∧ n.parser.memo.size = 0 := by
  have hraised : Raised lostSetting 3 (testAny ["choice", "word"]) (beginning "ab")
      ⟨.unknownSkipper "missing", some (beginning "ab").position⟩ (beginning "ab").testing.testing :=
    .inside (.test rfl rfl) (.inside (.test rfl rfl) (.call (.skip rfl rfl)))
  obtain ⟨-, e, n, hrun, hstays, hunwinds⟩ :=
    (fatal_errors_reach_the_caller forwards_lost 3).1 _ _ _ _ _ (forwards_testAny _) hraised
  refine ⟨e, n, hrun, hstays.cause, ?_⟩
  rw [hunwinds.memo]
  rfl

end Engine

end Packrat
