import Packrat.Proofs.Growth

/-! Steady programs read the text only, and stay under one skipper. -/

namespace Packrat
set_option autoImplicit false

section
variable {N σ : Type}

/-- The call keeps the active skipper, and what it replies does not depend on counters, on other
texts or on an outside state. Included files are other texts, so `parseBelow` and `parseTextBelow`
are no such calls. -/
def Call.Steady (skipper? : Option String) : Call σ → Prop
  | .setSkipper id? => id? = none ∨ id? = some ""
  | .matchWith ref _ => ref.skipper? = none
  | .restore s => s.skipper? = skipper?
  | .read _ | .readText .. | .start _ | .parseBelow .. | .parseTextBelow .. | .gauge
  | .consult _ => False
  | _ => True

/-- A reply that tells of the active skipper tells of that one. -/
def Call.TellsSkipper (skipper? : Option String) : (c : Call σ) → c.Reply N → Prop
  | .skipper, id? => id? = skipper?
  | .setSkipper _, outcome => outcome = .ok skipper?
  | _, _ => True

/-- As long as replies are those under the skipper and tell of known positions, calls are steady and
name known positions. -/
def Program.Stays {α : Type} (view : View N σ) (skipper? : Option String)
    (known : Position → Prop) (gives : α → Prop) (p : Program N σ α) : Prop :=
  p.Abides (fun c => c.Steady skipper? ∧ view.Names known c)
    (fun c reply => c.TellsSkipper skipper? reply ∧ view.Tells known c reply) gives

/-- Rules and skippers keep the skipper and the session and make up no position. What they read
besides the text are the replies of steady calls. -/
structure Setting.Steady (g : Setting N σ) (view : View N σ) (skipper? : Option String) :
    Prop where
  keeps : g.KeepsSessions
  grammar : ∀ known, g.grammar.All
    (Program.Stays view skipper? known (Outcome known (view.Node known)))
    (Program.Stays view skipper? known (Outcome known fun _ => True))
  make : ∀ known kind p, known p → view.Node known (g.make kind p)

namespace Setting.Steady
variable {g : Setting N σ} {view : View N σ} {skipper? : Option String}

theorem token (view : View N σ) (skipper? : Option String) (known : Position → Prop)
    (text : String) :
    (Program.token text).Stays view skipper? known (Outcome known (view.Node known)) := by
  refine ⟨⟨trivial, trivial⟩, ?_⟩
  intro start hstart
  refine ⟨⟨trivial, trivial⟩, ?_⟩
  intro taken _
  cases taken with
  | true =>
    refine ⟨⟨trivial, hstart.2⟩, ?_⟩
    intro node hnode
    exact hnode.2
  | false =>
    refine ⟨⟨trivial, trivial⟩, ?_⟩
    intro place hplace p hp
    cases hp
    exact hplace.2

theorem body (hg : g.Steady view skipper?) (known : Position → Prop) (r : Resolved)
    (params : Params) :
    (g.body r params).Stays view skipper? known (Outcome known (view.Node known)) :=
  (hg.grammar known).body (token view skipper? known) r params

end Setting.Steady

end

/-- The text, the directory and the skipper that a run stays with. -/
structure Scene where
  source : Source
  directory : String
  skipper? : Option String

/-- The position is a sound one of the text. -/
def Scene.Known (sc : Scene) (p : Position) : Prop := p.Sound ∧ p.source = sc.source

namespace Machine
variable {σ : Type} {m n : Machine σ} {sc : Scene}

structure In (sc : Scene) (m : Machine σ) : Prop where
  source : m.source = sc.source
  directory : m.parser.directory = sc.directory
  skipper : m.parser.skipper? = sc.skipper?
  sound : m.parser.cursor.Sound

/-- The scene that the machine is in. -/
def scene (m : Machine σ) : Scene := ⟨m.source, m.parser.directory, m.parser.skipper?⟩

theorem In.known (h : m.In sc) : sc.Known m.position := ⟨h.sound, h.source⟩

theorem In.withCursor {c : Cursor} (h : m.In sc) (hc : c.Sound) (hs : c.source = m.source) :
    (m.withCursor c).In sc :=
  ⟨hs.trans h.source, h.directory, h.skipper, hc⟩

theorem In.withShared (h : m.In sc) (s : Shared σ) : (m.withShared s).In sc :=
  ⟨h.source, h.directory, h.skipper, h.sound⟩

theorem In.count (h : m.In sc) (f : Stats → Stats) : (m.count f).In sc :=
  ⟨h.source, h.directory, h.skipper, h.sound⟩

theorem In.untouched (h : m.In sc) (hn : m.Untouched n) : n.In sc where
  source := hn.source.trans h.source
  directory := hn.directory.trans h.directory
  skipper := hn.skipper.trans h.skipper
  sound := by
    rw [hn.cursor]
    exact h.sound

/-- In a scene an offset says where a machine is. -/
theorem In.cursor_eq (h : m.In sc) (h' : n.In sc)
    (ho : n.parser.cursor.offset = m.parser.cursor.offset) : n.parser.cursor = m.parser.cursor := by
  apply Cursor.eq_of_position
  have hsource : n.source = m.source := h'.source.trans h.source.symm
  exact Position.Sound.eq_of_offset h'.sound h.sound hsource ho

end Machine

end Packrat
