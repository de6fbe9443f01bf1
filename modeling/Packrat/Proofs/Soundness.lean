import Packrat.Proofs.Agreement

/-! A careful run keeps its cursor sound in all states that it reaches, so reading meets no fault and
every position that nodes and errors get is sound. -/

namespace Packrat
set_option autoImplicit false

/-- A program goes back only to positions of the source being read, counts within a machine word and
parses texts that fit into memory. -/
def Careful {σ : Type} : Call σ → Machine σ → Prop
  | .moveTo p, m => p.source = m.source
  | .restore s, m => s.position.source = m.source
  | .advance n, m => m.parser.cursor.offset + n < wordSize
  | .readText _ content, _ => Utf8.size content.toList ≤ maxText
  | _, _ => True

namespace Disk

def Fits (d : Disk) : Prop := ∀ path text, d.read path = .ok text → Utf8.size text ≤ maxText

theorem entry?_of_walk {d : Disk} {here names : List (List Char)} {text : List Char}
    (h : d.walk here names = .ok text) : ∃ place, d.entry? place = some (.file (some text)) := by
  fun_induction d.walk here names with
  | case1 => cases h
  | case2 here name later hidle ih => exact ih h
  | case3 here later hidle ih => exact ih h
  | case4 => cases h
  | case5 => cases h
  | case6 here name later hidle hup hlong hentry ih => exact ih h
  | case7 => cases h
  | case8 here name later hidle hup hlong hlater found hentry =>
    cases h
    exact ⟨_, hentry⟩
  | case9 => cases h

theorem fits_of_entries {d : Disk}
    (h : ∀ place text, (place, Entry.file (some text)) ∈ d.entries → Utf8.size text ≤ maxText) :
    d.Fits := by
  intro path text hread
  have hwalk : d.walk (d.base path.toList) (Path.names path.toList) = .ok text := by
    unfold read at hread
    dsimp only at hread
    split at hread
    · cases hread
    split at hread
    · cases hread
    split at hread
    · cases hread
    exact hread
  obtain ⟨place, hentry⟩ := entry?_of_walk hwalk
  unfold entry? at hentry
  split at hentry
  · next e he =>
    cases hentry
    obtain ⟨_, _, heq, -⟩ := List.lookup_eq_some_iff.1 he
    exact h place text (heq ▸ by simp)
  · split at hentry <;> cases hentry

end Disk

namespace Machine
variable {N σ : Type}

/-- The cursor is sound, and so are all positions kept outside. -/
structure Sound (view : View N σ) (m : Machine σ) : Prop where
  cursor : m.parser.cursor.Sound
  fits : m.source.Fits
  outside : view.Outside Position.Sound m.shared.outside

variable {view : View N σ} {m n : Machine σ}

theorem Sound.withParser {p : Parser} (h : m.Sound view) (hp : p.cursor.Sound)
    (hfits : p.cursor.source.Fits) : (m.withParser p).Sound view :=
  ⟨hp, hfits, h.outside⟩

theorem Sound.withShared {s : Shared σ} (h : m.Sound view)
    (hs : view.Outside Position.Sound s.outside) : (m.withShared s).Sound view :=
  ⟨h.cursor, h.fits, hs⟩

theorem Sound.session (h : m.Sound view) (name : String) (path? : Option String) {text : List Char}
    (hfits : Utf8.size text ≤ maxText) : (m.session name path? text).Sound view :=
  ⟨Cursor.sound_atStart _, hfits, h.outside⟩

/-- What is put back is where `m` was. -/
theorem Sound.restore (h : n.Sound view) (hm : m.Sound view) (hs : n.source = m.source)
    {s : Snapshot} (hp : s.position = m.position) : (n.restore s).Sound view := by
  refine ⟨?_, h.fits, h.outside⟩
  have hsource : s.position.source = n.source := (congrArg Position.source hp).trans hs.symm
  apply Cursor.Sound.moveTo _ hsource
  rw [hp]
  exact hm.cursor

end Machine

namespace Engine
open Packrat.Action Machine
variable {N σ α : Type} {g : Setting N σ} {view : View N σ} {m n l : Machine σ}

/-- What is true of a careful run wherever a call is made. -/
structure Orderly (N : Type) {σ : Type} (c : Call σ) (m : Machine σ) : Prop where
  cursor : m.parser.cursor.Sound
  reads : ∀ u, c.reading? (N := N) = some u → ∃ r, u m.parser.cursor = .ok r
  makes : ∀ kind p, c = .make kind p → p.Sound

theorem sound_of_putsBack {run : Runner N σ} {c : Call σ} (hm : m.Sound view) (hl : l.Sound view)
    (hs : l.source = m.source) (h : PutsBack g run c m l n) : n.Sound view := by
  cases h with
  | test =>
    have hrestore : (l.restore m.snapshot).Sound view := hl.restore hm hs rfl
    unfold tested
    split
    · exact ⟨hrestore.cursor, hrestore.fits, hrestore.outside⟩
    · exact hrestore
  | testAll | skip | setSkipper | install => exact hl.restore hm hs rfl
  | matchWith => exact hl.withParser hl.cursor hl.fits

/-- A run is careful, and no call in it puts anything back into a session begun meanwhile. -/
def soundness (hg : g.Respects view Position.Sound) (hdisk : g.disk.Fits) :
    Invariant g view fun c m => Careful c m ∧ ¬Strays g c m where
  known := Position.Sound
  holds m := m.Sound view
  faults _ m := m.parser.cursor.Sound
  respects := hg
  knows h := h.cursor
  outside h := h.outside
  parser h hc _ := h.withParser (hc ▸ h.cursor) (hc ▸ h.fits)
  emit h _ := h.withShared h.outside
  tokens _ h := h.withShared h.outside
  consult h hs := h.withShared hs
  reads h hd := h.withParser (hd.sound h.cursor) (hd.source ▸ h.fits)
  moves h hp hsource := by
    refine h.withParser (Cursor.Sound.moveTo hp ?_) h.fits
    rcases hsource with hs | ⟨_, hs⟩ <;> exact hs.1
  hit h _ := h.withShared h.outside
  putsBack hm hl hP hback := sound_of_putsBack hm hl (hback.source_eq hP.2) hback
  read name path? h ht := h.session name path? (hdisk _ _ ht)
  readText h hP := h.session _ none hP.1
  sub h := ⟨Cursor.sound_atStart _, Nat.zero_le _, h.outside⟩
  back h hn _ := hn.withParser h.cursor h.fits
  reading h _ _ _ := h.cursor
  halt h _ := h.cursor
  tooDeep h := h.cursor

theorem orderly_of_careful {c : Call σ} (hm : m.Sound view)
    (hc : view.Names Position.Sound c) (hP : Careful c m) : Orderly N c m where
  cursor := hm.cursor
  reads := by
    intro u hu
    apply Cursor.reading_ok hu hm.cursor hm.fits
    rintro n rfl
    exact hP
  makes := by
    rintro kind p rfl
    exact hc

theorem ends_sound (hg : g.Respects view Position.Sound) (hdisk : g.disk.Fits)
    {p : Program N σ α} {gives : α → Prop}
    (hp : p.Abides (view.Names Position.Sound) (view.Tells Position.Sound) gives)
    (hm : m.Sound view) {depth : Nat}
    (hcareful : Throughout g (fun c k => Careful c k ∧ ¬Strays g c k) depth p m) :
    Ends (run g depth α p) m (fun a n => gives a ∧ n.Sound view) fun _ n =>
      n.parser.cursor.Sound := by
  have hends := ends_of_throughout (I := soundness hg hdisk) (R := fun _ _ => True) hp hm
    hcareful (fun _ _ _ _ _ _ => trivial) .tooDeep
  apply hends.imp
  · intro a n hn
    exact hn.2
  · intro why n hn
    exact hn.2

theorem exists_position_orAt (e : Error) (p : Position) : ∃ q, (e.orAt p).position? = some q := by
  cases he : e.position? with
  | none => exact ⟨p, by rw [Error.orAt, he]; rfl⟩
  | some q => exact ⟨q, by rw [Error.orAt, he]; rfl⟩

theorem exists_position_of_start {run : Runner N σ} {rule : String} {e : Error}
    (h : start g run rule m = .ok (.error e) n) : ∃ p, e.position? = some p := by
  have hends : Ends (start g run rule) m
      (fun outcome _ => ∀ e, outcome = .error e → ∃ p, e.position? = some p) fun _ _ => True := by
    rw [ends_start]
    apply ends_iff.2
    constructor
    · intro outcome k _
      cases outcome with
      | ok node =>
        intro e he
        cases he
      | error e =>
        rintro _ ⟨⟩
        exact exists_position_orAt e k.position
    · intro _ _ _
      trivial
  exact hends.ok h e rfl

/-- In a careful run in which no call strays, every call is made at a sound cursor, no reading meets
a fault, and all nodes are made at sound positions. The run ends at a sound cursor, and the positions
that it tells of are sound. An error of a parsed text always has a position. -/
theorem careful_runs_are_sound (hg : g.Respects view Position.Sound) (hdisk : g.disk.Fits)
    (hm : m.Sound view) (depth : Nat) :
    (∀ (α : Type) (p : Program N σ α) (gives : α → Prop),
      p.Abides (view.Names Position.Sound) (view.Tells Position.Sound) gives →
      Throughout g (fun c k => Careful c k ∧ ¬Strays g c k) depth p m →
      Throughout g (fun c k => Careful c k ∧ Orderly N c k) depth p m ∧
        (∀ a n, run g depth α p m = .ok a n → gives a ∧ n.Sound view) ∧
        ∀ why n, run g depth α p m = .error why n → n.parser.cursor.Sound) ∧
    ∀ name content rule e n,
      run g depth _ (Program.parseText name content rule) m = .ok (.error e) n →
      ∃ p, e.position? = some p ∧
        (Throughout g (fun c k => Careful c k ∧ ¬Strays g c k) depth
          (Program.parseText name content rule) m → p.Sound) := by
  constructor
  · intro α p gives hp hcareful
    have hends := ends_sound hg hdisk hp hm hcareful
    refine ⟨?_, ?_, ?_⟩
    · apply throughout_of_invariant (I := soundness hg hdisk) hp hm hcareful
      intro c k hk hc hP _
      exact ⟨hP.1, orderly_of_careful hk hc hP.1⟩
    · intro a n ha
      exact hends.ok ha
    · intro why n hn
      exact hends.error hn
  · intro name content rule e n h
    obtain ⟨p, hp⟩ : ∃ p, e.position? = some p := by
      cases depth with
      | zero => cases h
      | succ depth =>
        obtain ⟨_, k, -, h⟩ := exists_of_bind_eq_ok (x := reply g (run g depth) _) h
        obtain ⟨outcome, _, hstart, h⟩ :=
          exists_of_bind_eq_ok (x := reply g (run g depth) (.start rule)) h
        cases h
        exact exists_position_of_start hstart
    refine ⟨p, hp, ?_⟩
    intro hcareful
    have hrespects := Setting.Respects.parseText view Position.Sound name content rule
    exact ((ends_sound hg hdisk hrespects hm hcareful).ok h).1 p hp

/-- Goes on with another text where this one has ended. -/
def lookahead : Rule Position Unit := fun _ => do
  let start ← Program.ask .position
  match ← Program.ask .next with
  | none => Program.parseText "more" "é\n" "line"
  | some _ =>
    Program.ask (.moveTo start)
    Program.token "é\n"

def lookaheadSetting : Setting Position Unit where
  grammar := Grammar.empty.rule "line" lookahead
  make _ p := p
  disk := .empty
  memoizes := true

def lookaheadView : View Position Unit where
  node a p := p = a
  outside _ _ := False

theorem throughout_lookahead :
    Throughout lookaheadSetting (fun c k => Careful c k ∧ ¬Strays lookaheadSetting c k) 2
      (Program.ask (.invoke (.rule "line") [])) (beginning "é\nb") := by
  have hline : Throughout lookaheadSetting
      (fun c k => Careful c k ∧ ¬Strays lookaheadSetting c k) 1 (lookahead []) (beginning "é\nb") := by
    apply throughout_call ⟨trivial, not_strays_of_never fun _ _ _ => nofun⟩ (fun _ => rfl)
    intro start n h
    cases h
    apply throughout_call ⟨trivial, not_strays_of_never fun _ _ _ => nofun⟩ (fun _ => rfl)
    intro ch n h
    cases h
    -- The cursor is taken back within its own source.
    apply throughout_call ⟨rfl, not_strays_of_never fun _ _ _ => nofun⟩ (fun _ => rfl)
    intro _ n h
    cases h
    apply throughout_call ⟨trivial, not_strays_of_never fun _ _ _ => nofun⟩ (fun _ => rfl)
    intro start n h
    cases h
    apply throughout_call ⟨trivial, not_strays_of_never fun _ _ _ => nofun⟩ (fun _ => rfl)
    intro taken n h
    cases h
    apply throughout_call ⟨trivial, not_strays_of_never fun _ _ _ => nofun⟩ (fun _ => rfl)
    intro node n _
    exact throughout_done _
  apply throughout_call ⟨trivial, not_strays_of_never fun _ _ _ => nofun⟩
  · intro why
    rw [reply_invoke, reply_invoke]
    exact hline why
  · intro outcome n _
    exact throughout_done _

theorem respects_lookahead (known : Position → Prop) :
    lookaheadSetting.Respects lookaheadView known := by
  constructor
  · apply Grammar.All.insert_rule .empty
    intro params
    refine ⟨trivial, ?_⟩
    intro start hstart
    refine ⟨trivial, ?_⟩
    intro ch _
    cases ch with
    | none => exact Setting.Respects.parseText lookaheadView known "more" "é\n" "line"
    | some ch =>
      refine ⟨hstart, ?_⟩
      intro _ _
      exact Setting.Respects.token lookaheadView known "é\n"
  · intro kind p hp q hq
    cases hq
    exact hp

theorem careful_runs_are_sound_lookahead :
    Throughout lookaheadSetting (fun c k => Careful c k ∧ Orderly Position c k) 2
      (Program.ask (.invoke (.rule "line") [])) (beginning "é\nb") := by
  have hdisk : lookaheadSetting.disk.Fits := by
    apply Disk.fits_of_entries
    intro place text h
    cases h
  have hfits : (beginning "é\nb").source.Fits := by
    unfold Source.Fits
    decide
  have hstart : (beginning "é\nb").Sound lookaheadView :=
    ⟨Cursor.sound_atStart _, hfits, fun _ h => h.elim⟩
  have hp : (Program.ask (.invoke (.rule "line") [])).Abides (lookaheadView.Names Position.Sound)
      (lookaheadView.Tells Position.Sound)
      (Outcome Position.Sound (lookaheadView.Node Position.Sound)) :=
    ⟨trivial, fun _ houtcome => houtcome⟩
  exact ((careful_runs_are_sound (respects_lookahead _) hdisk hstart 2).1
    _ _ _ hp throughout_lookahead).1

end Engine

end Packrat
