import Packrat.Proofs.Scoping
import Packrat.Proofs.Upkeep

/-! A rule or skipper may begin another session of the parser that runs it. Nothing of the session
before gets into the new one, unless the call that has run it then puts back what it had kept. -/

namespace Packrat
set_option autoImplicit false

/-- A program goes back only to sound positions of the source being read. -/
def Leads {σ : Type} : Call σ → Machine σ → Prop
  | .moveTo p, m => p.Sound ∧ p.source = m.source
  | .restore s, m => s.position.Sound ∧ s.position.source = m.source
  | _, _ => True

namespace Engine
open Packrat.Action Machine
variable {N σ α : Type}

/-- The rule, run at `p`, came to that outcome in the session of `p`. -/
def CameTo (g : Setting N σ) (p : Position) (rule : String) (matched : Bool) : Prop :=
  ∃ depth k outcome l, k.position = p ∧
    resolveAndInvoke g (run g depth) rule [] k = .ok outcome l ∧ verdict outcome = .ok matched ∧
    l.source = p.source

/-- The cursor is sound. The memo has outcomes of tests made in this session only, to which their
rules came there. -/
structure Isolated (g : Setting N σ) (m : Machine σ) : Prop where
  cursor : m.parser.cursor.Sound
  memo : ∀ offset rule matched, m.parser.memo.get? offset rule = some matched →
    ∃ p, p.source = m.source ∧ p.offset = offset ∧
      .tested false rule p matched ∈ m.shared.events ∧ CameTo g p rule matched

/-- What the call has run has left another session, and something of the one before is then put back
that this one did not have. -/
def Displaced (g : Setting N σ) (c : Call σ) (m : Machine σ) : Prop :=
  ∃ depth l n, PutsBack g (run g depth) c m l n ∧ l.source ≠ m.source ∧ n.parser ≠ l.parser

variable {g : Setting N σ} {m n l : Machine σ}

theorem Isolated.congr (h : Isolated g m) (hc : n.parser.cursor.Sound) (hs : n.source = m.source)
    (hmemo : n.parser.memo = m.parser.memo) (hlog : m.shared.events <:+ n.shared.events) :
    Isolated g n where
  cursor := hc
  memo := by
    intro offset rule matched hget
    rw [hmemo] at hget
    obtain ⟨p, hp, ho, he, hcame⟩ := h.memo offset rule matched hget
    exact ⟨p, hp.trans hs.symm, ho, hlog.subset he, hcame⟩

theorem isolated_of_fresh (hc : n.parser.cursor.Sound) (hmemo : n.parser.memo = .empty) :
    Isolated g n where
  cursor := hc
  memo := by
    intro offset rule matched hget
    rw [hmemo, Memo.get?_empty] at hget
    cases hget

theorem Isolated.exists_rest (h : Isolated g m) : ∃ text, m.parser.cursor.rest = .ok text := by
  obtain ⟨before, rest, hb⟩ := h.cursor
  exact ⟨rest, Cursor.rest_eq hb⟩

/-- What is put back is where `m` was. -/
theorem Isolated.restore (hl : Isolated g l) (hm : Isolated g m) (hs : l.source = m.source)
    {s : Snapshot} (hp : s.position = m.position) : Isolated g (l.restore s) := by
  refine hl.congr ?_ rfl rfl List.suffix_rfl
  have hsource : s.position.source = l.source := (congrArg Position.source hp).trans hs.symm
  apply Cursor.Sound.moveTo _ hsource
  rw [hp]
  exact hm.cursor

theorem Isolated.miss (hl : Isolated g l) (hm : Isolated g m) (hs : l.source = m.source)
    {rule : String} {matched : Bool} (hcame : CameTo g m.position rule matched) :
    Isolated g (l.miss m.snapshot rule matched) where
  cursor := (hl.restore hm hs (s := m.snapshot) rfl).cursor
  memo := by
    intro offset id b hget
    change (l.parser.memo.insert m.position.offset rule matched).get? offset id = some b at hget
    rw [Memo.get?_insert] at hget
    split at hget
    · next hkey =>
      obtain ⟨rfl, rfl⟩ := hkey
      cases hget
      exact ⟨m.position, hs.symm, rfl, List.mem_cons_self, hcame⟩
    · obtain ⟨p, hp, ho, he, hcame⟩ := hl.memo offset id b hget
      exact ⟨p, hp, ho, List.mem_cons_of_mem _ he, hcame⟩

theorem Isolated.putsBack {depth : Nat} {c : Call σ} (hl : Isolated g l) (hm : Isolated g m)
    (hs : l.source = m.source) (h : PutsBack g (run g depth) c m l n) : Isolated g n := by
  cases h with
  | test hrecall hx =>
    unfold tested
    split
    · next matched hverdict =>
      refine hl.miss hm hs ⟨depth, m.testing, _, l, rfl, hx, hverdict, hs⟩
    · exact hl.restore hm hs rfl
  | testAll | skip | setSkipper | install => exact hl.restore hm hs rfl
  | matchWith => exact hl.congr hl.cursor rfl rfl List.suffix_rfl

/-- Where nothing is put back into another session, sessions stay isolated. -/
def isolation (g : Setting N σ) :
    Upkeep g (fun _ => True) fun c m => Leads c m ∧ ¬Displaced g c m where
  keeps m n := m.shared.events <:+ n.shared.events ∧ (Isolated g m → Isolated g n)
  basic _ _ := trivial
  refl m := ⟨List.suffix_rfl, id⟩
  trans h h' := ⟨h.1.trans h'.1, h'.2 ∘ h.2⟩
  emit m e _ := ⟨List.suffix_cons _ _, fun h => h.congr h.cursor rfl rfl (List.suffix_cons _ _)⟩
  count m f := ⟨List.suffix_rfl, fun h => h.congr h.cursor rfl rfl List.suffix_rfl⟩
  install m id := ⟨List.suffix_cons _ _, fun h => h.congr h.cursor rfl rfl (List.suffix_cons _ _)⟩
  register m _ _ _ :=
    ⟨List.suffix_cons _ _, fun h => h.congr h.cursor rfl rfl (List.suffix_cons _ _)⟩
  consult m s := ⟨List.suffix_rfl, fun h => h.congr h.cursor rfl rfl List.suffix_rfl⟩
  reads hd :=
    ⟨List.suffix_rfl, fun h => h.congr (hd.sound h.cursor) hd.source rfl List.suffix_rfl⟩
  moveTo hP :=
    ⟨List.suffix_rfl, fun h => h.congr (.moveTo hP.1.1 hP.1.2) rfl rfl List.suffix_rfl⟩
  restore hP :=
    ⟨List.suffix_rfl, fun h => h.congr (.moveTo hP.1.1 hP.1.2) rfl rfl List.suffix_rfl⟩
  hit _ := ⟨List.suffix_cons _ _, fun h => h.congr h.cursor rfl rfl (List.suffix_cons _ _)⟩
  session m _ _ _ :=
    ⟨List.suffix_rfl, fun _ => isolated_of_fresh (Cursor.sound_atStart _) rfl⟩
  sub m := ⟨List.suffix_cons _ _, fun _ => isolated_of_fresh (Cursor.sound_atStart _) rfl⟩
  back := by
    rintro m n ⟨hlog, -⟩
    have hlog := (List.suffix_cons _ _).trans hlog
    exact ⟨hlog, fun h => h.congr h.cursor rfl rfl hlog⟩
  putsBack := by
    rintro c m l n why depth ⟨-, hkept⟩ ⟨hlog, hl⟩ hback
    have hback := hback.of_runWhile
    have hgrows : l.shared.events <:+ n.shared.events := by
      cases hback with
      | test => exact suffix_tested _ _ _ _
      | _ => exact List.suffix_rfl
    refine ⟨hlog.trans hgrows, ?_⟩
    intro hm
    by_cases hs : l.source = m.source
    · exact (hl hm).putsBack hm hs hback
    · have hparser : n.parser = l.parser := by
        apply Classical.byContradiction
        intro hne
        exact hkept ⟨depth, l, n, hback, hs, hne⟩
      refine (hl hm).congr ?_ (congrArg (·.cursor.source) hparser) (congrArg (·.memo) hparser) hgrows
      rw [hparser]
      exact (hl hm).cursor

/-- What the call has run last has left `l`. -/
inductive Leaves (g : Setting N σ) (run : Runner N σ) : Call σ → Machine σ → Machine σ → Prop where
  | invoke {r : Resolved} {params : Params} {outcome : Except Error N} {m l : Machine σ}
    (hx : run _ (g.body r params) m = .ok outcome l) : Leaves g run (.invoke r params) m l
  | test {id : String} {outcome : Except Error N} {m l : Machine σ} (hm : g.recall? m id = none)
    (hx : resolveAndInvoke g run id [] m.testing = .ok outcome l) : Leaves g run (.test id) m l
  | testAll {ids : List String} {outcome : Except Error Unit} {m l : Machine σ}
    (hx : runAll g run ids m = .ok outcome l) : Leaves g run (.testAll ids) m l
  | skip {id? : Option String} {id : String} {skipper : Skipper N σ}
    {outcome : Except Error Bool} {m l : Machine σ} (hid : id?.or m.parser.skipper? = some id)
    (hs : g.grammar.skippers[id]? = some skipper) (hx : run _ skipper m = .ok outcome l) :
    Leaves g run (.skip id?) m l
  | runSkipper {id : String} {skipper : Skipper N σ} {outcome : Except Error Bool}
    {m l : Machine σ} (hs : g.grammar.skippers[id]? = some skipper)
    (hx : run _ skipper m = .ok outcome l) : Leaves g run (.runSkipper id) m l
  | setSkipper {id : String} {skipper : Skipper N σ} {outcome : Except Error Bool}
    {m l : Machine σ} (hid : id ≠ "") (hs : g.grammar.skippers[id]? = some skipper)
    (hx : run _ skipper (m.installing id) = .ok outcome l) :
    Leaves g run (.setSkipper (some id)) m l
  | matchWith {ref : RuleRef} {params : Params} {outcome : Except Error N} {m l : Machine σ}
    (href : ref.skipper? = none)
    (hx : resolveAndInvoke g run ref.id params m.matching = .ok outcome l) :
    Leaves g run (.matchWith ref params) m l
  | install {ref : RuleRef} {params : Params} {id : String} {skipper : Skipper N σ} {e : Error}
    {m l : Machine σ} (href : ref.skipper? = some id) (hid : id ≠ "")
    (hs : g.grammar.skippers[id]? = some skipper)
    (hx : run _ skipper (m.matching.installing id) = .ok (.error e) l) (he : e.isFatal) :
    Leaves g run (.matchWith ref params) m l
  | installed {ref : RuleRef} {params : Params} {id : String} {previous? : Option String}
    {outcome : Except Error N} {m k l : Machine σ} (href : ref.skipper? = some id)
    (hset : setSkipper g run (some id) m.matching = .ok (.ok previous?) k)
    (hx : resolveAndInvoke g run ref.id params k = .ok outcome l) :
    Leaves g run (.matchWith ref params) m l
  | start {rule : String} {outcome : Except Error N} {m l : Machine σ}
    (hx : resolveAndInvoke g run rule []
      (m.emit (.started m.position.source.name rule)).matching = .ok outcome l) :
    Leaves g run (.start rule) m l

/-- A call gives the parser back as what it has run left it, or it puts something back. -/
theorem putsBack_of_leaves {depth : Nat} {c : Call σ} {a : c.Reply N}
    (h : Leaves g (run g depth) c m l) (hx : reply g (run g depth) c m = .ok a n) :
    n.parser = l.parser ∨ PutsBack g (run g depth) c m l n := by
  suffices hends : Ends (reply g (run g depth) c) m
      (fun _ n => n.parser = l.parser ∨ PutsBack g (run g depth) c m l n) fun _ _ => True from
    hends.ok hx
  clear hx
  cases h with
  | invoke hx =>
    rw [reply_invoke]
    exact (ends_of_eq_ok hx).2 (.inl rfl)
  | test hm hx =>
    apply (ends_test_of_miss hm).2
    exact (ends_of_eq_ok hx).2 (.inr (.test hm hx))
  | testAll hx =>
    apply ends_testAll.2
    exact (ends_of_eq_ok hx).2 (.inr (.testAll hx))
  | @skip _ _ _ outcome _ _ hid hs hx =>
    apply (ends_skip_of_skipper hid hs).2
    apply (ends_of_eq_ok hx).2
    cases outcome with
    | ok skipped => exact .inl rfl
    | error e =>
      dsimp only
      split
      · exact .inl rfl
      · next he => exact .inr (.skip hid hs hx he)
  | runSkipper hs hx =>
    apply ends_runSkipper.2
    rw [hs]
    exact (ends_of_eq_ok hx).2 (.inl rfl)
  | @setSkipper _ _ outcome _ _ hid hs hx =>
    apply (ends_setSkipper_of_skipper hid hs).2
    apply (ends_of_eq_ok hx).2
    cases outcome with
    | ok skipped => exact .inl rfl
    | error e =>
      dsimp only
      split
      · exact .inl rfl
      · next he => exact .inr (.setSkipper hid hs hx he)
  | matchWith href hx =>
    apply ends_matchWith.2
    rw [href]
    exact (ends_of_eq_ok hx).2 (.inl rfl)
  | install href hid hs hx he =>
    apply ends_matchWith.2
    rw [href]
    apply (ends_setSkipper_of_skipper hid hs).2
    apply (ends_of_eq_ok hx).2
    dsimp only
    rw [if_pos he]
    exact .inl rfl
  | installed href hset hx =>
    apply ends_matchWith.2
    rw [href]
    apply (ends_of_eq_ok hset).2
    exact (ends_of_eq_ok hx).2 (.inr (.matchWith href hset hx))
  | @start _ outcome _ _ hx =>
    apply ends_start.2
    apply ends_matchWith.2
    apply (ends_of_eq_ok hx).2
    cases outcome <;> exact .inl rfl

/-- What is put back is the place or the skipper that the call had found. -/
theorem kept_of_putsBack {depth : Nat} {c : Call σ} (h : PutsBack g (run g depth) c m l n) :
    n.source = l.source ∧ (n.parser.cursor = l.parser.cursor.moveTo m.position ∨
      n.parser.skipper? = m.parser.skipper?) := by
  cases h with
  | @test _ outcome =>
    cases verdict outcome <;> exact ⟨rfl, .inl rfl⟩
  | testAll | skip | setSkipper | install => exact ⟨rfl, .inl rfl⟩
  | matchWith href hset hx =>
    refine ⟨rfl, .inr ?_⟩
    rcases (ends_install g depth _ m.matching).ok hset with ⟨e, he, -⟩ | ⟨-, he | ⟨e, he, -⟩⟩
    · cases he
    · exact Except.ok.inj he
    · cases he

/-- In a run that goes back to sound positions of the source being read only, sessions stay isolated
as long as no test, soft failure of a skipper or skipper of a rule changes a session begun meanwhile
by what it puts back. Other calls leave a session begun meanwhile as it is; where something is put
back, it is the place or the skipper of the session before. -/
theorem sessions_are_isolated (hm : Isolated g m) (depth : Nat) (p : Program N σ α)
    (h : Throughout g (fun c k => Leads c k ∧ ¬Displaced g c k) depth p m) :
    Throughout g (fun _ k => Isolated g k ∧ ∃ text, k.parser.cursor.rest = .ok text) depth p m ∧
    (∀ a n, run g depth α p m = .ok a n → Isolated g n) ∧
    (∀ why n, run g depth α p m = .error why n → Isolated g n) ∧
    (∀ d (c : Call σ) k l (a : c.Reply N) n, Leaves g (run g d) c k l →
      reply g (run g d) c k = .ok a n → l.source ≠ k.source → ¬Displaced g c k →
      n.parser = l.parser) ∧
    ∀ d (c : Call σ) k l n, PutsBack g (run g d) c k l n → n.source = l.source ∧
      (n.parser.cursor = l.parser.cursor.moveTo k.position ∨
        n.parser.skipper? = k.parser.skipper?) := by
  obtain ⟨hthroughout, hends⟩ := throughout_of_upkeep (isolation g) g.grammar.only_of_always
    (R := fun _ k => Isolated g k ∧ ∃ text, k.parser.cursor.rest = .ok text)
    (fun c k hk _ => ⟨hk.2 hm, (hk.2 hm).exists_rest⟩) p.only_of_always h
  refine ⟨hthroughout, ?_, ?_, ?_, ?_⟩
  · intro a n hx
    exact (hends.ok hx).2 hm
  · intro why n hx
    exact (hends.error hx).2 hm
  · intro d c k l a n hleaves hx hl hkept
    rcases putsBack_of_leaves hleaves hx with hparser | hback
    · exact hparser
    · apply Classical.byContradiction
      intro hne
      exact hkept ⟨d, l, n, hback, hl, hne⟩
  · intro d c k l n hback
    exact kept_of_putsBack hback

/-- A rule that goes on in another text, where it tests a word. -/
def chapter : Rule Unit Unit := fun _ => do
  Program.ask (.readText "chapter" "z")
  let _ ← Program.ask (.test "z")
  return .ok ()

def chapterSetting : Setting Unit Unit where
  grammar := Grammar.empty.rule "chapter" chapter
  make _ _ := ()
  disk := .empty
  memoizes := true

theorem isolated_beginning (text : String) : Isolated chapterSetting (beginning text) :=
  isolated_of_fresh (Cursor.sound_atStart _) rfl

theorem throughout_z :
    Throughout chapterSetting (fun c k => Leads c k ∧ ¬Displaced chapterSetting c k) 1
      (Program.token "z")
      (((beginning "ab").matching.session "chapter" none ['z']).testing.register "z" "z") := by
  apply throughout_call ⟨trivial, fun ⟨_, _, _, h, _⟩ => nomatch h⟩ (fun _ => rfl)
  intro start n h
  cases h
  apply throughout_call ⟨trivial, fun ⟨_, _, _, h, _⟩ => nomatch h⟩ (fun _ => rfl)
  intro taken n h
  cases h
  apply throughout_call ⟨trivial, fun ⟨_, _, _, h, _⟩ => nomatch h⟩ (fun _ => rfl)
  intro node n _
  exact throughout_done _

theorem throughout_chapter :
    Throughout chapterSetting (fun c k => Leads c k ∧ ¬Displaced chapterSetting c k) 2 (chapter [])
      (beginning "ab").matching := by
  apply throughout_call ⟨trivial, fun ⟨_, _, _, h, _⟩ => nomatch h⟩ (fun _ => rfl)
  intro _ n h
  cases h
  apply throughout_call
  · refine ⟨trivial, ?_⟩
    rintro ⟨depth, l, n, hback, hne, -⟩
    cases hback with
    | test hrecall hx =>
      cases depth with
      | zero => cases hx
      | succ depth =>
        cases hx
        exact hne rfl
  · intro why
    refine .trans (eq_ok_iff_ends.2 ?_ : _ = .ok (.ok true) _) rfl
    apply ends_test.2
    apply ends_resolveAndInvoke.2
    exact (ends_of_eq_ok (throughout_z why)).2 ⟨rfl, rfl⟩
  · intro outcome n _
    exact throughout_done _

theorem throughout_match_chapter :
    Throughout chapterSetting (fun c k => Leads c k ∧ ¬Displaced chapterSetting c k) 3
      (Program.matchRule ⟨"chapter", none⟩) (beginning "ab") := by
  apply throughout_call
  · refine ⟨trivial, ?_⟩
    rintro ⟨depth, l, n, hback, -⟩
    cases hback <;> contradiction
  · intro why
    refine .trans (eq_ok_iff_ends.2 ?_ : _ = .ok (.ok ()) _) rfl
    show Ends (matchWith chapterSetting _ ⟨"chapter", none⟩ []) _ _ _
    apply ends_matchWith.2
    apply ends_resolveAndInvoke.2
    exact (ends_of_eq_ok (throughout_chapter why)).2 ⟨rfl, rfl⟩
  · intro outcome n _
    exact throughout_done _

theorem sessions_are_isolated_chapter :
    ∃ n, run chapterSetting 3 _ (Program.matchRule ⟨"chapter", none⟩) (beginning "ab") =
        .ok (.ok ()) n ∧ n.source.content = ['z'] ∧ n.parser.memo.get? 0 "z" = some true ∧
      Isolated chapterSetting n := by
  obtain ⟨n, hn⟩ : ∃ n, run chapterSetting 3 _ (Program.matchRule ⟨"chapter", none⟩)
      (beginning "ab") = .ok (.ok ()) n := ⟨_, rfl⟩
  refine ⟨n, hn, ?_, ?_, (sessions_are_isolated (isolated_beginning "ab") 3 _
    throughout_match_chapter).2.1 _ _ hn⟩
  · cases hn
    rfl
  · cases hn
    decide

/-- A test of the rule at the end of a text puts the cursor beyond the end of the text that the rule
has gone on to, and its outcome into the memo for that text. -/
theorem tested_chapter_is_not_isolated :
    ∃ n, run chapterSetting 4 _ (do
        Program.ask (.advance 2)
        Program.ask (.test "chapter")) (beginning "ab") = .ok (.ok true) n ∧
      n.source.content = ['z'] ∧ n.position.offset = 2 ∧
      n.parser.cursor.peek = .error .offBoundary ∧
      n.parser.memo.get? 2 "chapter" = some true ∧ ¬Isolated chapterSetting n := by
  obtain ⟨n, hn⟩ : ∃ n, run chapterSetting 4 _ (do
      Program.ask (.advance 2)
      Program.ask (.test "chapter")) (beginning "ab") = .ok (.ok true) n := ⟨_, rfl⟩
  refine ⟨n, hn, ?_, ?_, ?_, ?_, ?_⟩
  · cases hn
    rfl
  · cases hn
    rfl
  · cases hn
    rfl
  · cases hn
    decide
  · intro h
    obtain ⟨text, htext⟩ := h.exists_rest
    cases hn
    cases htext

end Engine

end Packrat
