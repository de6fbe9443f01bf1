import Packrat.Proofs.Sites
import Packrat.Proofs.Transparency

/-! Programs that dwell in a scene: whatever such a program does in a session of a steady grammar, the
memo holds outcomes of tests without it wherever the run comes to, and the skipper is the same. -/

namespace Packrat
set_option autoImplicit false

/-- The call keeps the session and the skipper of the scene, and goes back to known positions only. -/
def Call.Dwells {σ : Type} (disk : Disk) (sc : Scene) : Call σ → Prop
  | .setSkipper id? => id? = none ∨ id? = some "" ∨ id? = sc.skipper?
  | .matchWith ref _ => ref.skipper? = none ∨ ref.skipper? = some "" ∨ ref.skipper? = sc.skipper?
  | .moveTo p => sc.Known p
  | .restore s => sc.Known s.position ∧ s.skipper? = sc.skipper?
  | c => c.KeepsSession disk

/-- The reply tells of this session only. That of `parseBelow` or `parseTextBelow` is a node of
another one. -/
def Call.Within {σ : Type} (sc : Scene) : Call σ → Prop
  | .make _ p => sc.Known p
  | .consult _ | .parseBelow .. | .parseTextBelow .. => False
  | _ => True

/-- What a program that dwells in the scene is told. -/
def Call.Hears {N σ : Type} (view : View N σ) (sc : Scene) (c : Call σ) (reply : c.Reply N) :
    Prop :=
  (c.Steady sc.skipper? → c.TellsSkipper sc.skipper? reply) ∧
    (c.Within sc → view.Tells sc.Known c reply)

/-- As long as replies are those in the scene, calls keep to it. -/
def Program.Dwells {N σ α : Type} (view : View N σ) (disk : Disk) (sc : Scene)
    (p : Program N σ α) : Prop :=
  p.Abides (Call.Dwells disk sc) (Call.Hears view sc) fun _ => True

section
variable {N σ α : Type} {view : View N σ} {disk : Disk} {sc : Scene}

theorem Call.dwells_of_steady {c : Call σ} (hc : c.Steady sc.skipper?)
    (hnames : view.Names sc.Known c) : c.Dwells disk sc := by
  cases c with
  | setSkipper id? => exact hc.imp_right .inl
  | matchWith ref params => exact .inl hc
  | moveTo p => exact hnames
  | restore s => exact ⟨hnames, hc⟩
  | read | readText => exact hc.elim
  | _ => trivial

theorem Call.within_of_steady {c : Call σ} (hc : c.Steady sc.skipper?)
    (hnames : view.Names sc.Known c) : c.Within sc := by
  cases c with
  | make kind p => exact hnames
  | consult | parseBelow | parseTextBelow => exact hc.elim
  | _ => trivial

theorem Program.Stays.dwells {gives : α → Prop} {p : Program N σ α}
    (hp : p.Stays view sc.skipper? sc.Known gives) : p.Dwells view disk sc := by
  induction p with
  | done a => trivial
  | call c next ih =>
    obtain ⟨⟨hc, hnames⟩, hnext⟩ := hp
    refine ⟨Call.dwells_of_steady hc hnames, ?_⟩
    rintro reply ⟨hskipper, htells⟩
    exact ih reply (hnext reply ⟨hskipper hc, htells (Call.within_of_steady hc hnames)⟩)

end

namespace Engine
open Packrat.Action Machine
variable {N σ α : Type} {g : Setting N σ} {view : View N σ} {sc : Scene}
variable {depth i : Nat} {m n : Machine σ}

theorem stays_test (view : View N σ) (sc : Scene) (rule : String) :
    (Program.ask (.test rule)).Stays view sc.skipper? sc.Known fun _ => True :=
  ⟨⟨trivial, trivial⟩, fun _ _ => trivial⟩

/-- The machine is in the scene, and its memo can be trusted. -/
structure Lives (g : Setting N σ) (sc : Scene) (m : Machine σ) : Prop where
  scene : m.In sc
  valid : Valid g sc m

theorem Lives.of_empty (hm : m.parser.cursor.Sound) (hmemo : m.parser.memo = .empty) :
    Lives g m.scene m where
  scene := ⟨rfl, rfl, rfl, hm⟩
  valid := by
    intro offset rule matched hget
    rw [hmemo, Memo.get?_empty] at hget
    cases hget

/-- Changes that neither the scene nor the memo sees. -/
theorem Lives.congr (h : Lives g sc m) (hcursor : n.parser.cursor = m.parser.cursor)
    (hdirectory : n.parser.directory = m.parser.directory)
    (hskipper : n.parser.skipper? = sc.skipper?) (hmemo : n.parser.memo = m.parser.memo)
    (htokens : m.shared.tokens.Within n.shared.tokens) : Lives g sc n where
  scene := {
    source := (congrArg Cursor.source hcursor).trans h.scene.source
    directory := hdirectory.trans h.scene.directory
    skipper := hskipper
    sound := hcursor ▸ h.scene.sound }
  valid := h.valid.of_memo_eq hmemo htokens

theorem Lives.emit (h : Lives g sc m) (e : Event) : Lives g sc (m.emit e) :=
  h.congr rfl rfl h.scene.skipper rfl (.refl _)

theorem Lives.count (h : Lives g sc m) (f : Stats → Stats) : Lives g sc (m.count f) :=
  h.congr rfl rfl h.scene.skipper rfl (.refl _)

theorem Lives.installing (h : Lives g sc m) {id : String} (hid : some id = sc.skipper?) :
    Lives g sc (m.installing id) :=
  h.congr rfl rfl hid rfl (.refl _)

theorem Lives.restore (h : Lives g sc m) {s : Snapshot} (hp : sc.Known s.position)
    (hs : s.skipper? = sc.skipper?) : Lives g sc (m.restore s) where
  scene := {
    source := h.scene.source
    directory := h.scene.directory
    skipper := hs
    sound := Cursor.Sound.moveTo hp.1 (hp.2.trans h.scene.source.symm) }
  valid := h.valid.of_memo_eq rfl (.refl _)

theorem Lives.rollback (h : Lives g sc m) (hn : Lives g sc n) : Lives g sc (n.restore m.snapshot) :=
  hn.restore h.scene.known h.scene.skipper

theorem Lives.related (h : Lives g sc m) : Related g sc g.memoizes false m m where
  left := h.scene
  right := h.scene
  cursor := rfl
  tokens := .refl _
  back _ := .refl _
  validLeft _ := h.valid
  validRight hb := by simp at hb

/-- An answer is as `Q` says, and the memo can still be trusted. -/
def Keeps (g : Setting N σ) (sc : Scene) (x : Action σ α) (m : Machine σ) (Q : α → Prop) : Prop :=
  Ends x m (fun a n => Lives g sc n ∧ Q a) fun _ _ => True

theorem keeps_below (p : Program N σ α) (hm : Lives g sc m) :
    Keeps g sc (below (run g depth) p) m fun _ => True := by
  unfold Keeps
  rw [ends_below]
  apply ends_of_ok
  intro a n hx
  have hn := (grows_run g depth p m.sub).ok hx
  exact ⟨hm.congr rfl rfl hm.scene.skipper rfl (continues_of_sub hn).tokens, trivial⟩

variable (hg : g.Steady view sc.skipper?) (hmemo : g.memoizes = true)
include hmemo

/-- What is followed where tests have no memo can be trusted. -/
theorem keeps_of_follows {x : Action σ α} {y : Nat → Action σ α} {Q : α → Prop}
    (hm : Lives g sc m) (hx : Ends x m (fun _ n => m.Grows n) fun _ n => m.Grows n)
    (hy : Related g sc g.memoizes false m m →
      Follows (Related g sc g.memoizes false) x y m m Q) : Keeps g sc x m Q := by
  apply ends_of_ok
  intro a n ha
  have hwithin : m.shared.tokens.Within n.shared.tokens := (hx.ok ha).tokens
  obtain ⟨hQ, n', -, hn, -⟩ := (hy hm.related).ok ha hwithin.agree.symm
  exact ⟨⟨hn.left, hn.validLeft hmemo⟩, hQ⟩

theorem keeps_resolve (hm : Lives g sc m) (id : String) :
    Keeps g sc (resolve g id) m fun _ => True :=
  keeps_of_follows hmemo hm ((continuing_resolve g id).grows m) fun h => follows_resolve h id

include hg

theorem keeps_run {p : Program N σ α} {gives : α → Prop}
    (hp : p.Stays view sc.skipper? sc.Known gives) (hm : Lives g sc m) :
    Keeps g sc (run g depth α p) m gives :=
  keeps_of_follows hmemo hm (grows_run g depth p m) fun h =>
    followed hg (fun _ => replayed hg) (by simp) depth hp h

theorem keeps_resolveAndInvoke (hm : Lives g sc m) (id : String) (params : Params) :
    Keeps g sc (resolveAndInvoke g (run g depth) id params) m
      (Outcome sc.Known (view.Node sc.Known)) :=
  keeps_of_follows hmemo hm
    (grows_resolveAndInvoke g depth id params m)
    fun h => follows_resolveAndInvoke hg (followed hg (fun _ => replayed hg) (by simp) depth) h id
      params

theorem keeps_steady {c : Call σ} (hc : c.Steady sc.skipper?) (hnames : view.Names sc.Known c)
    (hm : Lives g sc m) : Keeps g sc (reply g (run g depth) c) m (c.Hears view sc) := by
  have hkeeps := keeps_of_follows hmemo hm
    (grows_reply g depth c m) fun h =>
      follows_reply hg (fun _ => replayed hg) (by simp)
        (followed hg (fun _ => replayed hg) (by simp) depth) h hc hnames
  apply hkeeps.imp_ok
  rintro a n ⟨hn, hskipper, htells⟩
  exact ⟨hn, fun _ => hskipper, fun _ => htells⟩

theorem keeps_setSkipper {id? : Option String} (hid : id? = none ∨ id? = some "" ∨ id? = sc.skipper?)
    (hm : Lives g sc m) :
    Keeps g sc (setSkipper g (run g depth) id?) m fun outcome =>
      (∀ previous?, outcome = .ok previous? → previous? = sc.skipper?) ∧
        Outcome sc.Known (fun _ => True) outcome := by
  have hprevious : ∀ previous?, (.ok m.parser.skipper? : Except Error _) = .ok previous? →
      previous? = sc.skipper? := by
    rintro _ ⟨⟩
    exact hm.scene.skipper
  by_cases hempty : id? = none ∨ id? = some ""
  · exact (ends_setSkipper_of_empty hempty).2 ⟨hm, hprevious, trivial⟩
  obtain ⟨id, rfl⟩ := Option.ne_none_iff_exists'.1 fun h => hempty (.inl h)
  have hne : id ≠ "" := fun h => hempty (.inr (congrArg some h))
  obtain hid : some id = sc.skipper? := (hid.resolve_left (by simp)).resolve_left (by simp [hne])
  cases hs : g.grammar.skippers[id]? with
  | none =>
    exact (ends_setSkipper_of_unknown hne hs).2 ⟨hm, by simp, within_unknown hm.scene _⟩
  | some skipper =>
    have hset := hm.installing hid
    apply (ends_setSkipper_of_skipper hne hs).2
    apply (keeps_run hg hmemo ((hg.grammar sc.Known).skipper id skipper hs) hset).imp_ok
    rintro outcome n ⟨hn, houtcome⟩
    cases outcome with
    | ok skipped => exact ⟨hn, hprevious, trivial⟩
    | error e =>
      dsimp only
      split
      · exact ⟨hn, by simp, houtcome⟩
      · exact ⟨hset.rollback hn, hprevious, trivial⟩

theorem keeps_matchWith {ref : RuleRef} (params : Params)
    (href : ref.skipper? = none ∨ ref.skipper? = some "" ∨ ref.skipper? = sc.skipper?)
    (hm : Lives g sc m) :
    Keeps g sc (matchWith g (run g depth) ref params) m (Outcome sc.Known (view.Node sc.Known)) := by
  have hmatching : Lives g sc m.matching := hm.count _
  unfold Keeps
  rw [ends_matchWith]
  cases hid : ref.skipper? with
  | none => exact keeps_resolveAndInvoke hg hmemo hmatching ref.id params
  | some id =>
    rw [hid] at href
    apply (keeps_setSkipper hg hmemo href hmatching).imp_ok
    rintro installed n ⟨hn, hprevious, hinstalled⟩
    cases installed with
    | error e => exact ⟨hn, hinstalled⟩
    | ok previous? =>
      apply (keeps_resolveAndInvoke hg hmemo hn ref.id params).imp_ok
      rintro outcome k ⟨hk, houtcome⟩
      exact ⟨hk.congr rfl rfl (hprevious _ rfl) rfl (.refl _), houtcome⟩

theorem keeps_start (rule : String) (hm : Lives g sc m) :
    Keeps g sc (start g (run g depth) rule) m (Outcome sc.Known (view.Node sc.Known)) := by
  have href : (⟨rule, none⟩ : RuleRef).skipper? = none ∨ (none : Option String) = some "" ∨
      none = sc.skipper? := .inl rfl
  unfold Keeps
  rw [ends_start]
  apply (keeps_matchWith hg hmemo [] href (hm.emit _)).imp_ok
  rintro outcome n ⟨hn, houtcome⟩
  cases outcome with
  | ok node => exact ⟨hn.emit _, houtcome⟩
  | error e => exact ⟨hn.emit _, within_orAt houtcome hn.scene.known⟩

theorem keeps_runAll (ids : List String) (hm : Lives g sc m) :
    Keeps g sc (runAll g (run g depth) ids) m (Outcome sc.Known fun _ => True) :=
  keeps_of_follows hmemo hm
    (grows_runAll g depth ids m)
    fun h => follows_runAll hg (followed hg (fun _ => replayed hg) (by simp) depth) h ids

/-- A call that dwells in the scene. -/
theorem keeps_reply {c : Call σ} (hc : c.Dwells g.disk sc) (hm : Lives g sc m) :
    Keeps g sc (reply g (run g depth) c) m (c.Hears view sc) := by
  cases c with
  | moveTo p => exact keeps_steady hg hmemo trivial hc hm
  | restore s => exact keeps_steady hg hmemo hc.2 hc.1 hm
  | matchWith ref params =>
    apply (keeps_matchWith hg hmemo params hc hm).imp_ok
    rintro outcome n ⟨hn, houtcome⟩
    exact ⟨hn, fun _ => trivial, fun _ => houtcome⟩
  | setSkipper id? =>
    by_cases hempty : id? = none ∨ id? = some ""
    · exact keeps_steady hg hmemo hempty trivial hm
    · apply (keeps_setSkipper hg hmemo hc hm).imp_ok
      rintro outcome n ⟨hn, -, houtcome⟩
      exact ⟨hn, fun h => absurd h hempty, fun _ => houtcome⟩
  | read file =>
    apply ends_read.2
    split
    · exact ⟨hm, fun h => h.elim, fun _ p hp => nomatch hp⟩
    · next text htext => exact absurd htext (hc _ text)
  | readText => exact hc.elim
  | start rule =>
    apply (keeps_start hg hmemo rule hm).imp_ok
    rintro outcome n ⟨hn, houtcome⟩
    exact ⟨hn, fun _ => trivial, fun _ => houtcome⟩
  | parseBelow file rule =>
    apply (keeps_below _ hm).imp_ok
    rintro outcome n ⟨hn, -⟩
    exact ⟨hn, fun _ => trivial, fun h => h.elim⟩
  | parseTextBelow name content rule =>
    apply (keeps_below _ hm).imp_ok
    rintro outcome n ⟨hn, -⟩
    exact ⟨hn, fun _ => trivial, fun h => h.elim⟩
  | gauge => exact ⟨hm, fun _ => trivial, fun _ => trivial⟩
  | make kind p => exact ⟨hm.emit _, fun _ => trivial, fun hp => hg.make _ kind p hp⟩
  | consult f =>
    exact ⟨hm.congr rfl rfl hm.scene.skipper rfl (.refl _), fun h => h.elim, fun h => h.elim⟩
  | _ => exact keeps_steady hg hmemo trivial trivial hm

omit hmemo in
theorem stays_enters {c : Call σ} {p : Program N σ (Except Error α)} (hp : Enters g depth c m p n) :
    ∃ gives, p.Stays view sc.skipper? sc.Known gives :=
  hp.of_grammar (motive := fun p => ∃ gives, p.Stays view sc.skipper? sc.Known gives)
    (fun r params => ⟨_, hg.body sc.Known r params⟩)
    fun id skipper hs => ⟨_, (hg.grammar sc.Known).skipper id skipper hs⟩

theorem lives_enters {c : Call σ} {p : Program N σ (Except Error α)} (hc : c.Dwells g.disk sc)
    (hm : Lives g sc m) (hp : Enters g depth c m p n) : Lives g sc n := by
  have hresolve {id : String} {r : Resolved} {k l : Machine σ} (hk : Lives g sc k)
      (hr : resolve g id k = .ok r l) : Lives g sc l :=
    ((keeps_resolve hmemo hk id).ok hr).1
  cases hp with
  | invoke | skip | runSkipper => exact hm
  | matchWith href hr => exact hresolve (hm.count _) hr
  | install href hid hs =>
    rw [Call.Dwells, href] at hc
    have hid : some _ = sc.skipper? := (hc.resolve_left (by simp)).resolve_left (by simp [hid])
    exact (hm.count _).installing hid
  | installed href hset hr =>
    rw [Call.Dwells, href] at hc
    exact hresolve ((keeps_setSkipper hg hmemo hc (hm.count _)).ok hset).1 hr
  | test hrecall hr => exact hresolve (hm.count _) hr
  | testAll hbefore hr => exact hresolve ((keeps_runAll hg hmemo _ hm).ok hbefore).1 hr
  | setSkipper hid hs =>
    have hid : some _ = sc.skipper? := (hc.resolve_left (by simp)).resolve_left (by simp [hid])
    exact hm.installing hid
  | start hr => exact hresolve ((hm.emit _).count _) hr

/-- A program that dwells in the scene leaves a memo that can be trusted. -/
theorem lives_run {p : Program N σ α} (hp : p.Dwells view g.disk sc) (hm : Lives g sc m) :
    Ends (run g depth α p) m (fun _ n => Lives g sc n) fun _ _ => True := by
  cases depth with
  | zero => trivial
  | succ depth =>
    induction p generalizing m with
    | done a => exact hm
    | call c next ih =>
      obtain ⟨hc, hnext⟩ := hp
      apply ends_bind.2
      apply (keeps_reply hg hmemo hc hm).imp_ok
      rintro a n ⟨hn, ha⟩
      exact ih a (hnext a ha) hn

/-- So it is wherever it comes to. -/
theorem lives_of_meets {p : Program N σ α} {s : Site σ} (hs : Meets g depth i p m s)
    (hp : p.Dwells view g.disk sc) (hm : Lives g sc m) : Lives g sc s.machine := by
  induction hs with
  | here => exact hm
  | inside hc _ ih =>
    obtain ⟨gives, hstays⟩ : ∃ gives, _ := stays_enters hg hc
    exact ih hstays.dwells (lives_enters hg hmemo hp.1 hm hc)
  | later hx _ ih =>
    obtain ⟨hn, ha⟩ := (keeps_reply hg hmemo hp.1 hm).ok hx
    exact ih (hp.2 _ ha) hn

end Engine

end Packrat
