import Packrat.Proofs.Sites
import Packrat.Proofs.Upkeep

/-! A condition stands if each step of the engine keeps it: it then holds of every machine that a run
comes to, however deep in rules. What a call puts back is taken from a machine of which it held, too,
and programs may rely on what replies tell them. -/

namespace Packrat
set_option autoImplicit false

/-- The token that an event tells of. -/
def Event.registration? : Event → Option (String × String)
  | .registered id literal => some (id, literal)
  | _ => none

/-- Reading leaves a cursor where it is, or advances it. -/
theorem Cursor.eq_or_advance_of_reading {N σ : Type} {c d : Cursor} {call : Call σ}
    {u : Cursor → Except Fault (call.Reply N × Cursor)} {reply : call.Reply N}
    (hu : call.reading? = some u) (h : u c = .ok (reply, d)) :
    d = c ∨ ∃ n, c.advance n = .ok d := by
  cases call <;> cases hu
  case next =>
    obtain ⟨ahead?, -, h⟩ := bind_eq_ok_iff.1 h
    cases ahead? with
    | none =>
      cases h
      exact .inl rfl
    | some ch =>
      obtain ⟨e, he, h⟩ := bind_eq_ok_iff.1 h
      cases h
      exact .inr ⟨_, he⟩
  case eat =>
    obtain ⟨ahead, -, h⟩ := bind_eq_ok_iff.1 h
    cases ahead with
    | false =>
      cases h
      exact .inl rfl
    | true =>
      obtain ⟨e, he, h⟩ := bind_eq_ok_iff.1 h
      cases h
      exact .inr ⟨_, he⟩
  all_goals
    obtain ⟨a, ha, h⟩ := bind_eq_ok_iff.1 h
    cases h
  case eatWhile =>
    obtain ⟨ahead, -, ha⟩ := bind_eq_ok_iff.1 ha
    obtain ⟨e, he, ha⟩ := bind_eq_ok_iff.1 ha
    cases ha
    exact .inr ⟨_, he⟩
  case eatRegex =>
    obtain ⟨ahead, -, ha⟩ := bind_eq_ok_iff.1 ha
    split at ha
    · cases ha
      exact .inl rfl
    · obtain ⟨e, he, ha⟩ := bind_eq_ok_iff.1 ha
      cases ha
      exact .inr ⟨_, he⟩
  case advance n => exact .inr ⟨n, ha⟩
  all_goals exact .inl rfl

/-- What an outcome gives, if it is none of an error. -/
def Yields {α : Type} (gives : α → Prop) (outcome : Except Error α) : Prop :=
  ∀ a, outcome = .ok a → gives a

theorem yields_error {α : Type} {gives : α → Prop} (e : Error) : Yields gives (.error e) := by
  intro a h
  cases h

theorem yields_ok_iff {α : Type} {gives : α → Prop} {a : α} : Yields gives (.ok a) ↔ gives a := by
  constructor
  · intro h
    exact h a rfl
  · rintro h _ ⟨⟩
    exact h

/-- What is true of the nodes, outside states and skippers that programs are told of. -/
structure Lore (N σ : Type) where
  node : N → Prop
  outside : σ → Prop
  skipper : Option String → Prop

namespace Lore
variable {N σ : Type}

def Tells (lore : Lore N σ) : (c : Call σ) → c.Reply N → Prop
  | .skipper, skipper? => lore.skipper skipper?
  | .setSkipper _, outcome => Yields lore.skipper outcome
  | .invoke .., outcome | .matchWith .., outcome | .start _, outcome | .parseBelow .., outcome
  | .parseTextBelow .., outcome => Yields lore.node outcome
  | .make .., a => lore.node a
  | .consult _, s => lore.outside s
  | _, _ => True

/-- Nothing is known. -/
def blank : Lore N σ := ⟨fun _ => True, fun _ => True, fun _ => True⟩

end Lore

/-- Calls of the rules that match tokens. -/
def Call.Spells {σ : Type} : Call σ → Prop
  | .position | .eat _ | .make .. => True
  | _ => False

theorem Program.Only.abides {N σ α : Type} {may : Call σ → Prop}
    {told : (c : Call σ) → c.Reply N → Prop} {gives : α → Prop} {p : Program N σ α}
    (h : p.Only may) (hgives : ∀ a, gives a) : p.Abides may told gives := by
  induction p with
  | done a => exact hgives a
  | call c next ih =>
    refine ⟨h.1, ?_⟩
    intro reply _
    exact ih reply (h.2 reply trivial)

/-- The terms of a run: what holds of the machines that it comes to and of the one that it halts at,
what programs call, and what they are told. -/
structure Terms (N σ : Type) where
  holds : Machine σ → Prop
  rests : Machine σ → Prop
  may : Call σ → Prop
  lore : Lore N σ

namespace Terms
open Packrat.Action
variable {N σ : Type} (T : Terms N σ)

def Sustains (run : Runner N σ) : Prop :=
  ∀ {β : Type} {p : Program N σ β} {gives : β → Prop} {m : Machine σ},
    p.Abides T.may T.lore.Tells gives → T.holds m →
    Ends (run β p) m (fun a n => gives a ∧ T.holds n) fun _ n => T.rests n

variable {T}

theorem abides_token (h : ∀ c : Call σ, c.Spells → T.may c) (text : String) :
    (Program.token text).Abides T.may T.lore.Tells (Yields T.lore.node) := by
  refine ⟨h _ trivial, ?_⟩
  intro start _
  refine ⟨h _ trivial, ?_⟩
  intro taken _
  cases taken with
  | true =>
    refine ⟨h _ trivial, ?_⟩
    intro node hnode
    exact yields_ok_iff.2 hnode
  | false =>
    refine ⟨h _ trivial, ?_⟩
    intro place _
    exact yields_error _

end Terms

/-- Terms that every run keeps to: rules and skippers do, and so does each step of the engine. -/
structure Standing {N σ : Type} (g : Setting N σ) extends Terms N σ where
  spells : ∀ c : Call σ, c.Spells → may c
  grammar : g.grammar.All (Program.Abides may lore.Tells (Yields lore.node))
    (Program.Abides may lore.Tells fun _ => True)
  make : ∀ kind p, lore.node (g.make kind p)
  halted : ∀ {m}, holds m → rests m
  skipper : ∀ {m}, holds m → lore.skipper m.parser.skipper?
  outside : ∀ {m}, holds m → lore.outside m.shared.outside
  /-- Counters and memo. -/
  parser : ∀ {m p}, holds m → p.directory = m.parser.directory → p.cursor = m.parser.cursor →
    p.skipper? = m.parser.skipper? → holds (m.withParser p)
  emit : ∀ {m e}, holds m → e.registration? = none → holds (m.emit e)
  register : ∀ {m id} literal, holds m → m.shared.tokens.literal? id = none →
    holds (m.register id literal)
  consult : ∀ {m f}, holds m → may (.consult f) → holds (m.withOutside (f m.shared.outside))
  advance : ∀ {m n d}, holds m → m.parser.cursor.advance n = .ok d → holds (m.withCursor d)
  moveTo : ∀ {m p}, holds m → may (.moveTo p) → holds (m.withCursor (m.parser.cursor.moveTo p))
  restore : ∀ {m s}, holds m → may (.restore s) → holds (m.restore s)
  rollback : ∀ {m n}, holds m → holds n → holds (n.restore m.snapshot)
  install : ∀ {m id}, holds m → id ≠ "" → g.grammar.skippers.contains id → holds (m.installing id)
  uninstall : ∀ {m n}, holds m → holds n → holds (n.withSkipper m.parser.skipper?)
  read : ∀ {m file text}, holds m → may (.read file) →
    g.disk.read (Path.join m.parser.directory file) = .ok text →
    holds (m.session (Path.join m.parser.directory file)
      (some (Path.join m.parser.directory file)) text)
  readText : ∀ {m name content}, holds m → may (.readText name content) →
    holds (m.session name none content.toList)
  below : ∀ {run : Runner N σ} {c : Call σ} {q : Program N σ (Except Error N)} {m},
    toTerms.Sustains run → c.below? = some q → holds m →
    Action.Ends (run _ q) m.sub
      (fun outcome n => Yields lore.node outcome ∧ holds (n.withParser m.parser))
      fun _ n => rests n

namespace Standing
open Packrat.Action Engine Machine
variable {N σ α : Type} {g : Setting N σ} {S : Standing g} {run : Runner N σ} {m n : Machine σ}

theorem count (hm : S.holds m) (f : Stats → Stats) : S.holds (m.count f) :=
  S.parser hm rfl rfl rfl

theorem tested (hm : S.holds m) (hn : S.holds n) (rule : String) (answer : Except Error Bool) :
    S.holds (n.tested m.snapshot rule answer) := by
  have hback := S.rollback hm hn
  cases answer with
  | error e => exact hback
  | ok matched => exact S.parser (S.emit hback rfl) rfl rfl rfl

theorem ends_addToken (hm : S.holds m) (id literal : String) :
    Ends (addToken id literal) m (fun _ n => S.holds n) fun _ n => S.rests n := by
  rw [Engine.ends_addToken]
  split
  · exact hm
  · next h => exact S.register literal hm h

theorem ends_resolve (hm : S.holds m) (id : String) :
    Ends (resolve g id) m (fun _ n => S.holds n) fun _ n => S.rests n := by
  rw [Engine.ends_resolve]
  split
  · exact hm
  · exact ends_addToken hm id id

theorem abides_body (S : Standing g) (r : Resolved) (params : Params) :
    (g.body r params).Abides S.may S.lore.Tells (Yields S.lore.node) :=
  Grammar.All.body S.grammar (Terms.abides_token S.spells) r params

theorem ends_resolveAndInvoke (hrun : S.Sustains run) (hm : S.holds m) (id : String)
    (params : Params) :
    Ends (resolveAndInvoke g run id params) m
      (fun outcome n => Yields S.lore.node outcome ∧ S.holds n) fun _ n => S.rests n := by
  rw [Engine.ends_resolveAndInvoke]
  apply (ends_resolve hm id).imp_ok
  intro r n hn
  exact hrun (S.abides_body r params) hn

theorem ends_skip (hrun : S.Sustains run) (hm : S.holds m) (id? : Option String) :
    Ends (skip g run id?) m (fun _ n => S.holds n) fun _ n => S.rests n := by
  rw [Engine.ends_skip]
  split
  · exact hm
  split
  · exact hm
  · next skipper hs =>
    apply (hrun (S.grammar.skipper _ _ hs) hm).imp_ok
    rintro outcome n ⟨-, hn⟩
    cases outcome with
    | ok skipped => exact hn
    | error e =>
      dsimp only
      split
      · exact hn
      · exact S.rollback hm hn

theorem ends_setSkipper (hrun : S.Sustains run) (hm : S.holds m) (id? : Option String) :
    Ends (setSkipper g run id?) m
      (fun outcome n => Yields (· = m.parser.skipper?) outcome ∧ S.holds n) fun _ n => S.rests n := by
  by_cases hid : id? = none ∨ id? = some ""
  · rw [ends_setSkipper_of_empty hid]
    exact ⟨yields_ok_iff.2 rfl, hm⟩
  obtain ⟨id, rfl⟩ := Option.ne_none_iff_exists'.1 fun h => hid (.inl h)
  have hid : id ≠ "" := fun h => hid (.inr (congrArg some h))
  rw [Engine.ends_setSkipper hid]
  split
  · next hs =>
    apply (ends_skip hrun (S.install hm hid hs) none).imp_ok
    intro outcome n hn
    cases outcome with
    | ok skipped => exact ⟨yields_ok_iff.2 rfl, hn⟩
    | error e => exact ⟨yields_error e, hn⟩
  · exact ⟨yields_error _, hm⟩

theorem ends_test (hrun : S.Sustains run) (hm : S.holds m) (id : String) :
    Ends (test g run id) m (fun _ n => S.holds n) fun _ n => S.rests n := by
  have htesting : S.holds m.testing := count hm _
  cases hrecall : g.recall? m id with
  | some matched =>
    rw [ends_test_of_recall hrecall]
    exact S.emit (count htesting _) rfl
  | none =>
    rw [ends_test_of_miss hrecall]
    apply (ends_resolveAndInvoke hrun htesting id []).imp_ok
    rintro outcome n ⟨-, hn⟩
    exact tested hm hn id _

theorem ends_runAll (hrun : S.Sustains run) (hm : S.holds m) (ids : List String) :
    Ends (runAll g run ids) m (fun _ n => S.holds n) fun _ n => S.rests n := by
  induction ids generalizing m with
  | nil => exact hm
  | cons id ids ih =>
    rw [ends_runAll_cons]
    apply (ends_resolveAndInvoke hrun hm id []).imp_ok
    rintro outcome n ⟨-, hn⟩
    cases outcome with
    | ok node => exact ih hn
    | error e => exact hn

theorem ends_testAll (hrun : S.Sustains run) (hm : S.holds m) (ids : List String) :
    Ends (testAll g run ids) m (fun _ n => S.holds n) fun _ n => S.rests n := by
  rw [Engine.ends_testAll]
  apply (ends_runAll hrun hm ids).imp_ok
  intro outcome n hn
  exact S.rollback hm hn

theorem ends_matchWith (hrun : S.Sustains run) (hm : S.holds m) (ref : RuleRef)
    (params : Params) :
    Ends (matchWith g run ref params) m
      (fun outcome n => Yields S.lore.node outcome ∧ S.holds n) fun _ n => S.rests n := by
  have hmatching : S.holds m.matching := count hm _
  rw [Engine.ends_matchWith]
  split
  · exact ends_resolveAndInvoke hrun hmatching ref.id params
  · apply (ends_setSkipper hrun hmatching _).imp_ok
    rintro installed n ⟨hprevious, hn⟩
    cases installed with
    | error e => exact ⟨yields_error e, hn⟩
    | ok previous? =>
      apply (ends_resolveAndInvoke hrun hn ref.id params).imp_ok
      rintro outcome k ⟨houtcome, hk⟩
      rw [yields_ok_iff.1 hprevious]
      exact ⟨houtcome, S.uninstall hmatching hk⟩

theorem ends_start (hrun : S.Sustains run) (hm : S.holds m) (rule : String) :
    Ends (start g run rule) m
      (fun outcome n => Yields S.lore.node outcome ∧ S.holds n) fun _ n => S.rests n := by
  have hstarted : S.holds (m.emit (.started m.position.source.name rule)) := S.emit hm rfl
  rw [Engine.ends_start]
  apply (ends_matchWith hrun hstarted ⟨rule, none⟩ []).imp_ok
  rintro outcome n ⟨houtcome, hn⟩
  cases outcome with
  | ok node => exact ⟨houtcome, S.emit hn rfl⟩
  | error e => exact ⟨yields_error _, S.emit hn rfl⟩

theorem ends_below (hrun : S.Sustains run) (hm : S.holds m) {c : Call σ}
    {q : Program N σ (Except Error N)} (hq : c.below? = some q) :
    Ends (Engine.below run q) m
      (fun outcome n => Yields S.lore.node outcome ∧ S.holds n) fun _ n => S.rests n := by
  rw [Engine.ends_below]
  exact S.below hrun hq hm

theorem ends_reading (run : Runner N σ) (hm : S.holds m) {c : Call σ}
    {u : Cursor → Except Fault (c.Reply N × Cursor)} (hu : c.reading? = some u) :
    Ends (reply g run c) m (fun _ n => S.holds n) fun _ n => S.rests n := by
  rw [Engine.ends_reading hu]
  split
  · next a d hd =>
    rcases Cursor.eq_or_advance_of_reading hu hd with rfl | ⟨n, hn⟩
    · exact hm
    · exact S.advance hm hn
  · exact S.halted hm

theorem ends_reply (hrun : S.Sustains run) (hm : S.holds m) {c : Call σ} (hc : S.may c) :
    Ends (reply g run c) m (fun a n => S.lore.Tells c a ∧ S.holds n) fun _ n => S.rests n := by
  cases c with
  | peek | next | rest | startsWith | eat | eatWhile | eatRegex | advance =>
    exact (ends_reading run hm rfl).imp_ok fun _ _ hn => ⟨trivial, hn⟩
  | atEnd | position | directory | hasRule | hasSkipper | ruleNames | skipperNames | gauge =>
    exact ⟨trivial, hm⟩
  | skipper => exact ⟨S.skipper hm, hm⟩
  | moveTo p => exact ⟨trivial, S.moveTo hm hc⟩
  | restore s => exact ⟨trivial, S.restore hm hc⟩
  | resolve id => exact (ends_resolve hm id).imp_ok fun _ _ hn => ⟨trivial, hn⟩
  | addToken id literal => exact (ends_addToken hm id literal).imp_ok fun _ _ hn => ⟨trivial, hn⟩
  | invoke r params =>
    rw [reply_invoke]
    exact hrun (S.abides_body r params) hm
  | matchWith ref params => exact ends_matchWith hrun hm ref params
  | test id => exact (ends_test hrun hm id).imp_ok fun _ _ hn => ⟨trivial, hn⟩
  | testAll ids => exact (ends_testAll hrun hm ids).imp_ok fun _ _ hn => ⟨trivial, hn⟩
  | skip id? => exact (ends_skip hrun hm id?).imp_ok fun _ _ hn => ⟨trivial, hn⟩
  | runSkipper id =>
    rw [ends_runSkipper]
    split
    · exact ⟨trivial, hm⟩
    · next skipper hs =>
      exact (hrun (S.grammar.skipper _ _ hs) hm).imp_ok fun _ _ hn => ⟨trivial, hn.2⟩
  | setSkipper id? =>
    apply (ends_setSkipper hrun hm id?).imp_ok
    rintro outcome n ⟨hprevious, hn⟩
    refine ⟨?_, hn⟩
    intro previous? h
    rw [hprevious previous? h]
    exact S.skipper hm
  | read file =>
    apply ends_read.2
    split
    · exact ⟨trivial, hm⟩
    · next text htext => exact ⟨trivial, S.read hm hc htext⟩
  | readText name content => exact ⟨trivial, S.readText hm hc⟩
  | start rule => exact ends_start hrun hm rule
  | parseBelow file rule => exact ends_below hrun hm (c := .parseBelow file rule) rfl
  | parseTextBelow name content rule =>
    exact ends_below hrun hm (c := .parseTextBelow name content rule) rfl
  | make kind p => exact ⟨S.make kind p, S.emit hm rfl⟩
  | note label => exact ⟨trivial, S.emit hm rfl⟩
  | consult f => exact ⟨S.outside hm, S.consult hm hc⟩
  | halt why => exact S.halted hm

theorem sustains_run (S : Standing g) (depth : Nat) : S.Sustains (Engine.run g depth) := by
  induction depth with
  | zero =>
    intro β p gives m _ hm
    exact S.halted hm
  | succ depth ih =>
    intro β p gives m hp hm
    induction p generalizing m with
    | done a => exact ⟨hp, hm⟩
    | call c next ihp =>
      obtain ⟨hc, hnext⟩ := hp
      apply ends_bind.2
      apply (ends_reply ih hm hc).imp_ok
      rintro a n ⟨ha, hn⟩
      exact ihp a (hnext a ha) hn

variable {depth i : Nat}

theorem holds_enters {c : Call σ} {p : Program N σ (Except Error α)} (hm : S.holds m)
    (hc : Enters g depth c m p n) : S.holds n := by
  have hrun : S.Sustains (Engine.run g depth) := S.sustains_run depth
  have hresolve {id : String} {r : Resolved} {k l : Machine σ} (hk : S.holds k)
      (hr : resolve g id k = .ok r l) : S.holds l := (ends_resolve hk id).ok hr
  have hmatching : S.holds m.matching := count hm _
  cases hc with
  | invoke => exact hm
  | matchWith href hr => exact hresolve hmatching hr
  | install href hid hs =>
    exact S.install hmatching hid (contains_iff_exists_skipper.2 ⟨_, hs⟩)
  | installed href hset hr => exact hresolve ((ends_setSkipper hrun hmatching _).ok hset).2 hr
  | test hrecall hr => exact hresolve (count hm _) hr
  | testAll hbefore hr => exact hresolve ((ends_runAll hrun hm _).ok hbefore) hr
  | skip hid hs => exact hm
  | runSkipper hs => exact hm
  | setSkipper hid hs => exact S.install hm hid (contains_iff_exists_skipper.2 ⟨_, hs⟩)
  | start hr => exact hresolve (count (S.emit hm rfl) _) hr

theorem abides_enters (S : Standing g) {c : Call σ} {p : Program N σ (Except Error α)}
    (hc : Enters g depth c m p n) : ∃ gives, p.Abides S.may S.lore.Tells gives := by
  apply hc.of_grammar (motive := fun p => ∃ gives, p.Abides S.may S.lore.Tells gives)
  · intro r params
    exact ⟨_, S.abides_body r params⟩
  · intro id skipper hs
    exact ⟨_, S.grammar.skipper id skipper hs⟩

/-- Wherever the run of a program comes to in its session, it keeps to the terms. -/
theorem holds_of_meets {p : Program N σ α} {gives : α → Prop} {s : Site σ}
    (hs : Meets g depth i p m s) (hp : p.Abides S.may S.lore.Tells gives) (hm : S.holds m) :
    S.may s.call ∧ S.holds s.machine := by
  induction hs with
  | here => exact ⟨hp.1, hm⟩
  | inside hc _ ih =>
    obtain ⟨gives, hq⟩ := S.abides_enters hc
    exact ih hq (holds_enters hm hc)
  | later hc _ ih =>
    obtain ⟨ha, hn⟩ := (ends_reply (S.sustains_run _) hm hp.1).ok hc
    exact ih (hp.2 _ ha) hn

end Standing

end Packrat
