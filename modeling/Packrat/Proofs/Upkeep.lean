import Packrat.Proofs.Growth

/-! What every step of the engine keeps is kept by whole runs, those that replace the session they
are in included. The only steps that mix two machines are those where a call puts back what it found
before it had a program run. -/

namespace Packrat
set_option autoImplicit false

namespace Action
variable {σ α β : Type}

/-- However `x` ends but for one halt, `y` ends so; any end is as `Q` says. -/
def Tracks (cut : Halt) (x y : Action σ α) (m : Machine σ) (Q : Machine σ → Prop) : Prop :=
  Ends x m (fun a n => y m = .ok a n ∧ Q n) fun why n => (why ≠ cut → y m = .error why n) ∧ Q n

namespace Tracks
variable {cut : Halt} {x y : Action σ α} {m n : Machine σ} {a : α} {Q Q' : Machine σ → Prop}

theorem imp (h : Tracks cut x y m Q) (hQ : ∀ n, Q n → Q' n) : Tracks cut x y m Q' := by
  apply Ends.imp h
  · rintro a n ⟨hy, hn⟩
    exact ⟨hy, hQ n hn⟩
  · rintro why n ⟨hy, hn⟩
    exact ⟨hy, hQ n hn⟩

theorem self (h : Ends x m (fun _ n => Q n) fun _ n => Q n) : Tracks cut x x m Q := by
  apply ends_iff.2
  constructor
  · intro a n hx
    exact ⟨hx, h.ok hx⟩
  · intro why n hx
    exact ⟨fun _ => hx, h.error hx⟩

theorem bind {f f' : α → Action σ β} (h : Tracks cut x y m Q)
    (hf : ∀ a n, x m = .ok a n → Q n → Tracks cut (f a) (f' a) n Q') (hQ : ∀ n, Q n → Q' n) :
    Tracks cut (x >>= f) (y >>= f') m Q' := by
  apply ends_bind.2
  apply ends_iff.2
  constructor
  · intro a n hx
    obtain ⟨hy, hn⟩ := h.ok hx
    rw [bind_eq_of_ok hy]
    exact hf a n hx hn
  · intro why n hx
    obtain ⟨hy, hn⟩ := h.error hx
    exact ⟨fun hcut => bind_eq_of_error (hy hcut), hQ n hn⟩

theorem ends (h : Tracks cut x y m Q) : Ends x m (fun _ n => Q n) fun _ n => Q n :=
  Ends.imp h (fun _ _ hn => hn.2) fun _ _ hn => hn.2

/-- Both begin with the same step. -/
theorem pre {z : Action σ α} {f f' : α → Action σ β} (hz : z m = .ok a n)
    (h : Tracks cut (f a) (f' a) n Q) : Tracks cut (z >>= f) (z >>= f') m Q := by
  unfold Tracks Ends at h ⊢
  rw [bind_eq_of_ok hz, bind_eq_of_ok hz]
  exact h

end Tracks

end Action

theorem Program.only_of_always {N σ α : Type} (p : Program N σ α) : p.Only fun _ => True :=
  .of_always (fun _ => trivial) (fun _ => trivial) p

theorem Grammar.only_of_always {N σ : Type} (g : Grammar N σ) :
    g.All (Program.Only fun _ => True) (Program.Only fun _ => True) where
  rule _ _ _ _ := Program.only_of_always _
  skipper _ _ _ := Program.only_of_always _

/-- Calls that the engine's own programs make. -/
def Call.Basic {σ : Type} : Call σ → Prop
  | .position | .eat _ | .make .. | .read _ | .readText .. | .start _ => True
  | _ => False

namespace Program
variable {N σ : Type} {may : Call σ → Prop} (hmay : ∀ c, c.Basic → may c)
include hmay

theorem only_token (text : String) :
    (token text : Program N σ (Except Error N)).Only may := by
  refine ⟨hmay _ trivial, ?_⟩
  intro start _
  refine ⟨hmay _ trivial, ?_⟩
  intro taken _
  cases taken with
  | true => exact ⟨hmay _ trivial, fun _ _ => trivial⟩
  | false => exact ⟨hmay _ trivial, fun _ _ => trivial⟩

theorem only_parse (file rule : String) :
    (parse file rule : Program N σ (Except Error N)).Only may := by
  refine ⟨hmay _ trivial, ?_⟩
  intro outcome _
  cases outcome with
  | error e => trivial
  | ok => exact ⟨hmay _ trivial, fun _ _ => trivial⟩

theorem only_parseText (name content rule : String) :
    (parseText name content rule : Program N σ (Except Error N)).Only may := by
  refine ⟨hmay _ trivial, ?_⟩
  intro _ _
  exact ⟨hmay _ trivial, fun _ _ => trivial⟩

end Program

namespace Engine
open Packrat.Action Machine
variable {N σ α : Type}

/-- The call `c` was made at `m`; what it had run has ended at `l`, and it puts back what it had kept
of `m`, which leaves `n`. -/
inductive PutsBack (g : Setting N σ) (run : Runner N σ) :
    Call σ → Machine σ → Machine σ → Machine σ → Prop where
  | test {id : String} {outcome : Except Error N} {m l : Machine σ} (hm : g.recall? m id = none)
    (hx : resolveAndInvoke g run id [] m.testing = .ok outcome l) :
    PutsBack g run (.test id) m l (l.tested m.snapshot id (verdict outcome))
  | testAll {ids : List String} {outcome : Except Error Unit} {m l : Machine σ}
    (hx : runAll g run ids m = .ok outcome l) :
    PutsBack g run (.testAll ids) m l (l.restore m.snapshot)
  | skip {id? : Option String} {id : String} {skipper : Skipper N σ} {e : Error}
    {m l : Machine σ} (hid : id?.or m.parser.skipper? = some id)
    (hs : g.grammar.skippers[id]? = some skipper) (hx : run _ skipper m = .ok (.error e) l)
    (he : ¬e.isFatal) : PutsBack g run (.skip id?) m l (l.restore m.snapshot)
  | setSkipper {id : String} {skipper : Skipper N σ} {e : Error} {m l : Machine σ}
    (hid : id ≠ "") (hs : g.grammar.skippers[id]? = some skipper)
    (hx : run _ skipper (m.installing id) = .ok (.error e) l) (he : ¬e.isFatal) :
    PutsBack g run (.setSkipper (some id)) m l (l.restore (m.installing id).snapshot)
  | install {ref : RuleRef} {params : Params} {id : String} {skipper : Skipper N σ} {e : Error}
    {m l : Machine σ} (href : ref.skipper? = some id) (hid : id ≠ "")
    (hs : g.grammar.skippers[id]? = some skipper)
    (hx : run _ skipper (m.matching.installing id) = .ok (.error e) l) (he : ¬e.isFatal) :
    PutsBack g run (.matchWith ref params) m l
      (l.restore (m.matching.installing id).snapshot)
  | matchWith {ref : RuleRef} {params : Params} {id : String} {previous? : Option String}
    {outcome : Except Error N} {m k l : Machine σ} (href : ref.skipper? = some id)
    (hset : setSkipper g run (some id) m.matching = .ok (.ok previous?) k)
    (hx : resolveAndInvoke g run ref.id params k = .ok outcome l) :
    PutsBack g run (.matchWith ref params) m l (l.withSkipper previous?)

/-- What the call has run leaves another session, and the call then puts something back. -/
def Strays (g : Setting N σ) (c : Call σ) (m : Machine σ) : Prop :=
  ∃ depth l n, PutsBack g (run g depth) c m l n ∧ l.source ≠ m.source

/-- A call that puts something back adds no more to what parsers share than the test that it was. -/
theorem PutsBack.grows {g : Setting N σ} {run : Runner N σ} {c : Call σ} {m l n : Machine σ}
    (h : PutsBack g run c m l n) (hl : m.Grows l) : m.Grows n := by
  have hrestore (s : Snapshot) : m.Grows (l.restore s) :=
    hl.trans (continues_restore l s).toGrows
  cases h with
  | test =>
    unfold tested
    split
    · refine Grows.trans ((hrestore m.snapshot).emit ?_) (continues_memoize _ _ _ _).toGrows
      rintro s hs
      exact .inl (Option.some.inj hs).symm
    · exact hrestore _
  | testAll | skip | setSkipper | install => exact hrestore _
  | matchWith => exact hl.trans (continues_withSkipper l _).toGrows

/-- What is kept from one machine to a later one, with a law for each step of the engine. Programs
make calls as `may` says, and a call is made in a state that `P` allows. -/
structure Upkeep (g : Setting N σ) (may : Call σ → Prop) (P : Call σ → Machine σ → Prop) where
  keeps : Machine σ → Machine σ → Prop
  basic : ∀ c, c.Basic → may c
  refl : ∀ m, keeps m m
  trans : ∀ {m n k}, keeps m n → keeps n k → keeps m k
  emit : ∀ m {e}, e.testSource? = none → keeps m (m.emit e)
  count : ∀ m f, keeps m (m.count f)
  install : ∀ m id, keeps m (m.installing id)
  register : ∀ m {id literal}, id = literal ∨ may (.addToken id literal) →
    keeps m (m.register id literal)
  consult : ∀ m s, keeps m (m.withShared { m.shared with outside := s })
  reads : ∀ {m d}, m.parser.cursor.Reads d → keeps m (m.withCursor d)
  moveTo : ∀ {m p}, P (.moveTo p) m → keeps m (m.withCursor (m.parser.cursor.moveTo p))
  restore : ∀ {m s}, P (.restore s) m → keeps m (m.restore s)
  hit : ∀ {m rule matched}, g.recall? m rule = some matched → keeps m (m.hit rule matched)
  session : ∀ m name path? content, keeps m (m.session name path? content)
  sub : ∀ m, keeps m m.sub
  back : ∀ {m n}, keeps m.sub n → keeps m (n.withParser m.parser)
  putsBack : ∀ {c m l n why depth}, P c m → keeps m l →
    PutsBack g (runWhile g P why depth) c m l n → keeps m n

/-- From what is reached from `start`, `run'` ends as `run` does if this is not cut, and the rest is
kept. -/
structure Upheld {g : Setting N σ} {may : Call σ → Prop} {P : Call σ → Machine σ → Prop}
    (U : Upkeep g may P) (start : Machine σ) (cut : Halt) (run run' : Runner N σ) : Prop where
  grammar : g.grammar.All (Program.Only may) (Program.Only may)
  watched : ∃ why depth, run = runWhile g P why depth
  tracks : ∀ {β : Type} {p : Program N σ β} {m : Machine σ}, p.Only may → U.keeps start m →
    Tracks cut (run β p) (run' β p) m (U.keeps m)

section
variable {g : Setting N σ} {may : Call σ → Prop} {P : Call σ → Machine σ → Prop}
variable {U : Upkeep g may P} {start : Machine σ} {cut : Halt} {run run' : Runner N σ}
variable {m n : Machine σ}

theorem Upkeep.tracks_bind {β : Type} {x y : Action σ α} {f f' : α → Action σ β}
    (hm : U.keeps start m) (h : Tracks cut x y m (U.keeps m))
    (hf : ∀ a n, x m = .ok a n → U.keeps m n → U.keeps start n →
      Tracks cut (f a) (f' a) n (U.keeps n)) :
    Tracks cut (x >>= f) (y >>= f') m (U.keeps m) := by
  refine h.bind ?_ fun _ hn => hn
  intro a n hx hn
  apply (hf a n hx hn (U.trans hm hn)).imp
  intro k hk
  exact U.trans hn hk

/-- Both begin with a step that keeps all. -/
theorem Upkeep.tracks_pre {β : Type} {z : Action σ α} {f f' : α → Action σ β} {a : α}
    (hz : z m = .ok a n) (hn : U.keeps m n) (h : Tracks cut (f a) (f' a) n (U.keeps n)) :
    Tracks cut (z >>= f) (z >>= f') m (U.keeps m) := by
  refine .pre hz (h.imp ?_)
  intro k hk
  exact U.trans hn hk

theorem upkeep_addToken {id literal : String} (h : id = literal ∨ may (.addToken id literal)) :
    Ends (addToken id literal) m (fun _ n => U.keeps m n) fun _ n => U.keeps m n := by
  rw [ends_addToken]
  split
  · exact U.refl m
  · exact U.register m h

theorem upkeep_resolve (id : String) :
    Ends (resolve g id) m (fun _ n => U.keeps m n) fun _ n => U.keeps m n := by
  rw [ends_resolve]
  split
  · exact U.refl m
  · exact upkeep_addToken (.inl rfl)

theorem tracks_invoke (C : Upheld U start cut run run') (hm : U.keeps start m) (r : Resolved)
    (params : Params) :
    Tracks cut (invoke g run r params) (invoke g run' r params) m (U.keeps m) := by
  rw [invoke_eq, invoke_eq]
  exact C.tracks (C.grammar.body (Program.only_token U.basic) r params) hm

theorem tracks_resolveAndInvoke (C : Upheld U start cut run run') (hm : U.keeps start m)
    (id : String) (params : Params) :
    Tracks cut (resolveAndInvoke g run id params) (resolveAndInvoke g run' id params) m
      (U.keeps m) := by
  apply U.tracks_bind hm (.self (upkeep_resolve id))
  intro r n _ _ hn
  exact tracks_invoke C hn r params

/-- What is kept may be told from a machine `b` that the call has left behind. -/
theorem tracks_skip {b : Machine σ} (C : Upheld U start cut run run') (hm : U.keeps start m)
    (hb : U.keeps b m) {id? : Option String}
    (hback : ∀ {id skipper e l}, id?.or m.parser.skipper? = some id →
      g.grammar.skippers[id]? = some skipper → run _ skipper m = .ok (.error e) l → ¬e.isFatal →
      U.keeps b l → U.keeps b (l.restore m.snapshot)) :
    Tracks cut (skip g run id?) (skip g run' id?) m (U.keeps b) := by
  refine .pre (a := m.parser) rfl ?_
  cases hid : id?.or m.parser.skipper? with
  | none => exact .self hb
  | some id =>
    dsimp only
    cases hs : g.grammar.skippers[id]? with
    | none => exact .self hb
    | some skipper =>
      have hskipper := C.tracks (C.grammar.skipper id skipper hs) hm
      refine .pre (a := m.snapshot) rfl (hskipper.bind ?_ fun _ hn => U.trans hb hn)
      intro outcome n hx hn
      have hn := U.trans hb hn
      cases outcome with
      | ok skipped => exact .self hn
      | error e =>
        dsimp only
        split
        · exact .self hn
        · next he => exact .self (hback hid hs hx he hn)

theorem tracks_runSkipper (C : Upheld U start cut run run') (hm : U.keeps start m) (id : String) :
    Tracks cut (reply g run (.runSkipper id)) (reply g run' (.runSkipper id)) m (U.keeps m) := by
  simp only [reply]
  cases hs : g.grammar.skippers[id]? with
  | none => exact .self (U.refl m)
  | some skipper =>
    refine (C.tracks (C.grammar.skipper id skipper hs) hm).bind ?_ fun _ hn => hn
    intro outcome n _ hn
    exact .self hn

theorem tracks_setSkipper {b : Machine σ} (C : Upheld U start cut run run')
    (hm : U.keeps start m) (hb : U.keeps b m) {id? : Option String}
    (hback : ∀ {id skipper e l}, id? = some id → id ≠ "" →
      g.grammar.skippers[id]? = some skipper →
      run _ skipper (m.installing id) = .ok (.error e) l → ¬e.isFatal →
      U.keeps b l → U.keeps b (l.restore (m.installing id).snapshot)) :
    Tracks cut (setSkipper g run id?) (setSkipper g run' id?) m (U.keeps b) := by
  refine .pre (a := m.parser) rfl ?_
  dsimp only
  split
  · exact .self hb
  · exact .self hb
  · next id hid =>
    split
    · have hset := U.install m id
      have hskip : Tracks cut (skip g run none) (skip g run' none) (m.installing id)
          (U.keeps b) := by
        apply tracks_skip C (U.trans hm hset) (U.trans hb hset)
        intro id' skipper e l heq hs
        cases heq
        exact hback rfl (fun h => hid (h ▸ rfl)) hs
      refine .pre (a := ()) rfl (.pre (a := ()) (n := m.installing id) rfl
        (hskip.bind ?_ fun _ hn => hn))
      intro outcome n _ hn
      cases outcome <;> exact .self hn
    · exact .self hb

theorem tracks_test (C : Upheld U start cut run run') (hm : U.keeps start m) (id : String)
    (hP : P (.test id) m) :
    Tracks cut (test g run id) (test g run' id) m (U.keeps m) := by
  obtain ⟨why, depth, rfl⟩ := C.watched
  have htesting : U.keeps m m.testing := U.count m _
  unfold Tracks
  cases hrecall : g.recall? m id with
  | some matched =>
    rw [ends_test_of_recall hrecall]
    exact ⟨test_of_recall hrecall, U.hit hrecall⟩
  | none =>
    have hbody := tracks_resolveAndInvoke C (U.trans hm htesting) id []
    rw [ends_test_of_miss hrecall]
    apply ends_iff.2
    constructor
    · intro outcome n hx
      obtain ⟨hy, hn⟩ := hbody.ok hx
      exact ⟨test_of_miss hrecall hy, U.putsBack hP (U.trans htesting hn) (.test hrecall hx)⟩
    · intro w n hx
      obtain ⟨hy, hn⟩ := hbody.error hx
      exact ⟨fun hw => test_of_miss_error hrecall (hy hw), U.trans htesting hn⟩

theorem tracks_runAll (C : Upheld U start cut run run') (hm : U.keeps start m)
    (ids : List String) : Tracks cut (runAll g run ids) (runAll g run' ids) m (U.keeps m) := by
  induction ids generalizing m with
  | nil => exact .self (U.refl m)
  | cons id ids ih =>
    rw [runAll, runAll]
    apply U.tracks_bind hm (tracks_resolveAndInvoke C hm id [])
    intro outcome n _ _ hn
    cases outcome with
    | ok node => exact ih hn
    | error e => exact .self (U.refl n)

theorem tracks_testAll (C : Upheld U start cut run run') (hm : U.keeps start m)
    (ids : List String) (hP : P (.testAll ids) m) :
    Tracks cut (testAll g run ids) (testAll g run' ids) m (U.keeps m) := by
  obtain ⟨why, depth, rfl⟩ := C.watched
  refine .pre (a := m.snapshot) rfl ((tracks_runAll C hm ids).bind ?_ fun _ hn => hn)
  intro outcome n hx hn
  exact .self (U.putsBack hP hn (.testAll hx))

theorem tracks_matchWith (C : Upheld U start cut run run') (hm : U.keeps start m) (ref : RuleRef)
    (params : Params) (hP : ref.skipper? = none ∨ P (.matchWith ref params) m) :
    Tracks cut (matchWith g run ref params) (matchWith g run' ref params) m (U.keeps m) := by
  obtain ⟨why, depth, rfl⟩ := C.watched
  have hmatching : U.keeps m m.matching := U.count m _
  have hstart := U.trans hm hmatching
  refine .pre (a := ()) (n := m.matching) rfl ?_
  cases href : ref.skipper? with
  | none =>
    apply (tracks_resolveAndInvoke C hstart ref.id params).imp
    intro n hn
    exact U.trans hmatching hn
  | some skipper =>
    have hP := hP.resolve_left fun h => by cases href.symm.trans h
    have hset : Tracks cut (setSkipper g (runWhile g P why depth) (some skipper))
        (setSkipper g run' (some skipper)) m.matching (U.keeps m) := by
      apply tracks_setSkipper C hstart hmatching
      intro id body e l heq hid hs hx he hl
      exact U.putsBack hP hl (.install (href.trans heq) hid hs hx he)
    refine hset.bind ?_ fun _ hn => hn
    intro installed n hinstalled hn
    cases installed with
    | error e => exact .self hn
    | ok previous? =>
      refine (tracks_resolveAndInvoke C (U.trans hm hn) ref.id params).bind ?_
        fun _ hk => U.trans hn hk
      intro outcome k hx hk
      exact .self (U.putsBack hP (U.trans hn hk) (.matchWith href hinstalled hx))

theorem tracks_start (C : Upheld U start cut run run') (hm : U.keeps start m) (rule : String) :
    Tracks cut (Engine.start g run rule) (Engine.start g run' rule) m (U.keeps m) := by
  have hstarted : U.keeps m (m.emit (.started m.source.name rule)) := U.emit m rfl
  refine .pre (a := m.source.name) rfl (U.tracks_pre (a := ()) rfl hstarted ?_)
  have hn := U.trans hm hstarted
  apply U.tracks_bind hn (tracks_matchWith C hn ⟨rule, none⟩ [] (.inl rfl))
  intro outcome k _ _ _
  cases outcome with
  | ok node => exact .self (U.emit k rfl)
  | error e => exact .self (U.emit k rfl)

theorem tracks_below (C : Upheld U start cut run run') (hm : U.keeps start m)
    {program : Program N σ α} (hp : program.Only may) :
    Tracks cut (below run program) (below run' program) m (U.keeps m) := by
  have hsub := U.sub m
  refine .pre (a := m.parser) rfl (.pre (a := m.sub.parser)
    (n := (m.emit (.rooted m.root)).loaded) rfl (.pre (a := ()) (n := m.sub) rfl
    ((C.tracks hp (U.trans hm hsub)).bind ?_ fun _ hn => U.trans hsub hn)))
  intro a n _ hn
  exact .self (U.back hn)

theorem upkeep_reading (run : Runner N σ) {c : Call σ} {u : Cursor → Except Fault (c.Reply N × Cursor)}
    (hu : c.reading? = some u) :
    Ends (reply g run c) m (fun _ n => U.keeps m n) fun _ n => U.keeps m n := by
  rw [ends_reading hu]
  split
  · next a d hd => exact U.reads (Cursor.reads_of_reading hu hd)
  · exact U.refl m

theorem tracks_reply (C : Upheld U start cut run run') (hm : U.keeps start m) {c : Call σ}
    (hc : may c) (hP : P c m) :
    Tracks cut (reply g run c) (reply g run' c) m (U.keeps m) := by
  obtain ⟨why, depth, hrun⟩ := C.watched
  cases c with
  | peek | next | rest | startsWith | eat | eatWhile | eatRegex | advance =>
    exact .self (upkeep_reading run rfl)
  | atEnd | position | skipper | directory | hasRule | hasSkipper | ruleNames | skipperNames
  | gauge =>
    exact .self (U.refl m)
  | moveTo p => exact .self (U.moveTo hP)
  | restore s => exact .self (U.restore hP)
  | resolve id => exact .self (upkeep_resolve id)
  | addToken id literal => exact .self (upkeep_addToken (.inr hc))
  | invoke r params => exact tracks_invoke C hm r params
  | matchWith ref params => exact tracks_matchWith C hm ref params (.inr hP)
  | test id => exact tracks_test C hm id hP
  | testAll ids => exact tracks_testAll C hm ids hP
  | skip id? =>
    subst hrun
    exact tracks_skip C hm (U.refl m) fun hid hs hx he hl => U.putsBack hP hl (.skip hid hs hx he)
  | runSkipper id => exact tracks_runSkipper C hm id
  | setSkipper id? =>
    subst hrun
    apply tracks_setSkipper C hm (U.refl m)
    rintro id skipper e l rfl hid hs hx he hl
    exact U.putsBack hP hl (.setSkipper hid hs hx he)
  | read file =>
    refine .self ((ends_read (g := g)).2 ?_)
    split
    · exact U.refl m
    · exact U.session m _ _ _
  | readText name content => exact .self (U.session m name none content.toList)
  | start rule => exact tracks_start C hm rule
  | parseBelow file rule => exact tracks_below C hm (Program.only_parse U.basic file rule)
  | parseTextBelow name content rule =>
    exact tracks_below C hm (Program.only_parseText U.basic name content rule)
  | make kind p => exact .self (U.emit m rfl)
  | note label => exact .self (U.emit m rfl)
  | consult f => exact .self (U.consult m _)
  | halt why => exact .self (U.refl m)

/-- A watch that allows what another one does from all that is reached sees the same run, if this one
does not cut it. -/
theorem tracks_runWhile (U : Upkeep g may P)
    (hg : g.grammar.All (Program.Only may) (Program.Only may)) {R : Call σ → Machine σ → Prop}
    (hR : ∀ c k, U.keeps start k → P c k → R c k) (cut cut' : Halt) (depth : Nat) {p : Program N σ α}
    (hp : p.Only may) (hm : U.keeps start m) :
    Tracks cut (runWhile g P cut depth α p) (runWhile g R cut' depth α p) m (U.keeps m) := by
  induction depth generalizing α p m with
  | zero => exact .self (U.refl m)
  | succ depth ih =>
    -- The depth is that of rules within rules, the inner induction goes along the calls.
    have C : Upheld U start cut (runWhile g P cut depth) (runWhile g R cut' depth) :=
      ⟨hg, ⟨cut, depth, rfl⟩, ih⟩
    induction p generalizing m with
    | done a => exact .self (U.refl m)
    | call c next ihp =>
      obtain ⟨hc, hnext⟩ := hp
      have hcall : Tracks cut (guarded (P c) cut (reply g (runWhile g P cut depth) c))
          (guarded (R c) cut' (reply g (runWhile g R cut' depth) c)) m (U.keeps m) := by
        apply ends_guarded
        · intro hP
          rw [guarded_pos (hR c m hm hP)]
          exact tracks_reply C hm hc hP
        · intro hP
          exact ⟨fun h => absurd rfl h, U.refl m⟩
      apply U.tracks_bind hm hcall
      intro a n _ _ hn
      exact ihp a (hnext a trivial) hn

theorem upheld_runWhile (U : Upkeep g may P)
    (hg : g.grammar.All (Program.Only may) (Program.Only may)) (start : Machine σ) (cut : Halt)
    (depth : Nat) : Upheld U start cut (runWhile g P cut depth) (Engine.run g depth) where
  grammar := hg
  watched := ⟨cut, depth, rfl⟩
  tracks := by
    intro β p m hp hm
    have h := tracks_runWhile U hg (R := fun _ _ => True) (fun _ _ _ _ => trivial) cut .tooDeep
      depth hp hm
    rwa [runWhile_of_always _ fun _ _ => trivial] at h

/-- Where a run is watched throughout by `P`, all that is kept until a call is made can be relied on
there. -/
theorem throughout_of_upkeep (U : Upkeep g may P)
    (hg : g.grammar.All (Program.Only may) (Program.Only may)) {R : Call σ → Machine σ → Prop}
    (hR : ∀ c k, U.keeps m k → P c k → R c k) {depth : Nat} {p : Program N σ α} (hp : p.Only may)
    (h : Throughout g P depth p m) :
    Throughout g R depth p m ∧
      Ends (Engine.run g depth α p) m (fun _ n => U.keeps m n) fun _ n => U.keeps m n := by
  have htracks (cut cut' : Halt) :=
    tracks_runWhile U hg hR cut cut' depth hp (U.refl m)
  simp only [Tracks, Ends, h _] at htracks
  constructor
  · intro cut'
    cases hx : Engine.run g depth α p m with
    | ok a n =>
      have ht := htracks .tooDeep cut'
      rw [hx] at ht
      exact ht.1
    | error why n =>
      -- The watch is told by a halt that the run itself does not end with.
      obtain ⟨cut, hcut⟩ : ∃ cut : Halt, why ≠ cut := by
        by_cases hdeep : why = .tooDeep
        · exact ⟨.fault .misuse, by rw [hdeep]; exact Halt.noConfusion⟩
        · exact ⟨.tooDeep, hdeep⟩
      have ht := htracks cut cut'
      rw [hx] at ht
      exact ht.1 hcut
  · apply ends_iff.2
    constructor
    · intro a n hx
      have ht := htracks .tooDeep .tooDeep
      rw [hx] at ht
      exact ht.2
    · intro why n hx
      have ht := htracks .tooDeep .tooDeep
      rw [hx] at ht
      exact ht.2

end

/-- Nothing is kept. -/
def Upkeep.nothing (g : Setting N σ) (P : Call σ → Machine σ → Prop) :
    Upkeep g (fun _ => True) P where
  keeps _ _ := True
  basic _ _ := trivial
  refl _ := trivial
  trans _ _ := trivial
  emit _ _ _ := trivial
  count _ _ := trivial
  install _ _ := trivial
  register _ _ _ _ := trivial
  consult _ _ := trivial
  reads _ := trivial
  moveTo _ := trivial
  restore _ := trivial
  hit _ := trivial
  session _ _ _ _ := trivial
  sub _ := trivial
  back _ := trivial
  putsBack _ _ _ := trivial

theorem upheld_nothing (g : Setting N σ) (P : Call σ → Machine σ → Prop) (start : Machine σ)
    (cut : Halt) (depth : Nat) :
    Upheld (.nothing g P) start cut (runWhile g P cut depth) (run g depth) :=
  upheld_runWhile _ g.grammar.only_of_always start cut depth

/-- What parsers share grows. -/
def growing (g : Setting N σ) (P : Call σ → Machine σ → Prop) : Upkeep g (fun _ => True) P where
  keeps := Grows
  basic _ _ := trivial
  refl := .refl
  trans := .trans
  emit _ _ he := (continues_emit_of_quiet he).toGrows
  count m f := (continues_count m f).toGrows
  install m id := (continues_installing m id).toGrows
  register m id literal _ := (continues_register m id literal).toGrows
  consult m s := (continues_withOutside m s).toGrows
  reads hd := (continues_withCursor hd.source).toGrows
  moveTo _ := .of_shared rfl (Nat.le_refl _) rfl (.inl rfl)
  restore _ := (continues_restore _ _).toGrows
  hit _ := (untouched_hit _ _ _).toGrows
  session := grows_session
  sub := grows_sub
  back h := (continues_of_sub h).toGrows
  putsBack _ h hback := hback.grows h

theorem upheld_growing (g : Setting N σ) (P : Call σ → Machine σ → Prop) (start : Machine σ)
    (cut : Halt) (depth : Nat) :
    Upheld (growing g P) start cut (runWhile g P cut depth) (run g depth) :=
  upheld_runWhile _ g.grammar.only_of_always start cut depth

variable {g : Setting N σ} {P : Call σ → Machine σ → Prop} {why : Halt} {depth : Nat}
variable {m n l : Machine σ} {c : Call σ}

theorem grows_runWhile (g : Setting N σ) (P : Call σ → Machine σ → Prop) (why : Halt) (depth : Nat)
    (p : Program N σ α) (m : Machine σ) :
    Ends (runWhile g P why depth α p) m (fun _ n => m.Grows n) fun _ n => m.Grows n :=
  ((upheld_growing g P m why depth).tracks p.only_of_always (.refl m)).ends

theorem grows_reply_runWhile (hP : P c m) :
    Ends (reply g (runWhile g P why depth) c) m (fun _ n => m.Grows n) fun _ n => m.Grows n :=
  (tracks_reply (upheld_growing g P m why depth) (.refl m) trivial hP).ends

theorem grows_run (g : Setting N σ) (depth : Nat) (p : Program N σ α) (m : Machine σ) :
    Ends (run g depth α p) m (fun _ n => m.Grows n) fun _ n => m.Grows n := by
  rw [← runWhile_of_always (P := fun _ _ => True) .tooDeep fun _ _ => trivial]
  exact grows_runWhile g _ .tooDeep depth p m

theorem grows_resolveAndInvoke (g : Setting N σ) (depth : Nat) (id : String) (params : Params)
    (m : Machine σ) :
    Ends (resolveAndInvoke g (run g depth) id params) m (fun _ n => m.Grows n)
      fun _ n => m.Grows n := by
  rw [← runWhile_of_always (P := fun _ _ => True) .tooDeep fun _ _ => trivial]
  exact (tracks_resolveAndInvoke (upheld_growing g _ m .tooDeep depth) (.refl m) id params).ends

theorem grows_runAll (g : Setting N σ) (depth : Nat) (ids : List String) (m : Machine σ) :
    Ends (runAll g (run g depth) ids) m (fun _ n => m.Grows n) fun _ n => m.Grows n := by
  rw [← runWhile_of_always (P := fun _ _ => True) .tooDeep fun _ _ => trivial]
  exact (tracks_runAll (upheld_growing g _ m .tooDeep depth) (.refl m) ids).ends

theorem grows_reply (g : Setting N σ) (depth : Nat) (c : Call σ) (m : Machine σ) :
    Ends (reply g (run g depth) c) m (fun _ n => m.Grows n) fun _ n => m.Grows n := by
  rw [← runWhile_of_always (P := fun _ _ => True) .tooDeep fun _ _ => trivial]
  exact grows_reply_runWhile trivial

/-- What is put back in a run that is watched is put back in the run itself. -/
theorem PutsBack.of_runWhile (h : PutsBack g (runWhile g P why depth) c m l n) :
    PutsBack g (run g depth) c m l n := by
  have C := upheld_nothing g P m why depth
  have hrun {β : Type} {p : Program N σ β} {k : Machine σ} {a : β} {n : Machine σ}
      (hx : runWhile g P why depth β p k = .ok a n) : run g depth β p k = .ok a n :=
    ((C.tracks p.only_of_always trivial).ok hx).1
  have hrule {id : String} {params : Params} {k : Machine σ} {outcome : Except Error N}
      {n : Machine σ}
      (hx : resolveAndInvoke g (runWhile g P why depth) id params k = .ok outcome n) :
      resolveAndInvoke g (run g depth) id params k = .ok outcome n :=
    ((tracks_resolveAndInvoke C trivial id params).ok hx).1
  cases h with
  | test hm hx => exact .test hm (hrule hx)
  | testAll hx => exact .testAll ((tracks_runAll C trivial _).ok hx).1
  | skip hid hs hx he => exact .skip hid hs (hrun hx) he
  | setSkipper hid hs hx he => exact .setSkipper hid hs (hrun hx) he
  | install href hid hs hx he => exact .install href hid hs (hrun hx) he
  | matchWith href hset hx =>
    have hset := ((tracks_setSkipper C trivial (b := m) trivial fun _ _ _ _ _ _ => trivial).ok hset).1
    exact .matchWith href hset (hrule hx)

theorem not_strays_of_never (h : ∀ run l n, ¬PutsBack g run c m l n) : ¬Strays g c m := by
  rintro ⟨_, l, n, hback, -⟩
  exact h _ l n hback

theorem PutsBack.source_eq (h : PutsBack g (runWhile g P why depth) c m l n)
    (hc : ¬Strays g c m) : l.source = m.source := by
  apply Classical.byContradiction
  intro hs
  exact hc ⟨depth, l, n, h.of_runWhile, hs⟩

end Engine

end Packrat
