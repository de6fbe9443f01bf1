import Packrat.Proofs.Standing
import Packrat.Workspace

/-! Terms of two kinds. Some are those of one parser alone: they tell where it is, whatever other
parsers do. Some all parsers of a grammar keep to at once: they tell which skippers may be active and
what is true of tokens, log and outside state, which the parsers share. -/

namespace Packrat
set_option autoImplicit false

/-- Terms of a parser alone, on its directory and its cursor. -/
structure Local {N σ : Type} (g : Setting N σ) where
  parser : Parser → Prop
  may : Call σ → Prop
  spells : ∀ c : Call σ, c.Spells → may c
  grammar : g.grammar.All (Program.Only may) (Program.Only may)
  same : ∀ {p q}, parser p → q.directory = p.directory → q.cursor = p.cursor → parser q
  advance : ∀ {p n d}, parser p → p.cursor.advance n = .ok d → parser { p with cursor := d }
  moveTo : ∀ {p place}, parser p → may (.moveTo place) →
    parser { p with cursor := p.cursor.moveTo place }
  restore : ∀ {p s}, parser p → may (.restore s) →
    parser { p with cursor := p.cursor.moveTo s.position }
  rollback : ∀ {p q}, parser p → parser q →
    parser { q with cursor := q.cursor.moveTo p.cursor.position }
  read : ∀ {p file text} source, parser p → may (.read file) →
    g.disk.read (Path.join p.directory file) = .ok text →
    parser (Engine.freshParser p.directory source)
  readText : ∀ {p name content} source, parser p → may (.readText name content) →
    parser (Engine.freshParser p.directory source)

namespace Local
open Packrat.Action
variable {N σ α : Type} {g : Setting N σ}

def standing (L : Local g) : Standing g where
  holds m := L.parser m.parser
  rests _ := True
  may := L.may
  lore := .blank
  spells := L.spells
  grammar := by
    constructor
    · intro id rule params h
      exact (L.grammar.rule id rule params h).abides fun _ _ _ => trivial
    · intro id skipper h
      exact (L.grammar.skipper id skipper h).abides fun _ => trivial
  make _ _ := trivial
  halted _ := trivial
  skipper _ := trivial
  outside _ := trivial
  parser hm hdirectory hcursor _ := L.same hm hdirectory hcursor
  emit hm _ := hm
  register _ hm _ := hm
  consult hm _ := hm
  advance hm hd := L.advance hm hd
  moveTo hm hc := L.moveTo hm hc
  restore hm hc := L.same (L.restore hm hc) rfl rfl
  rollback hm hn := L.same (L.rollback hm hn) rfl rfl
  install hm _ _ := L.same hm rfl rfl
  uninstall _ hn := L.same hn rfl rfl
  read hm hc htext := L.read _ hm hc htext
  readText hm hc := L.readText _ hm hc
  -- Whatever the parser for included files has come to, this one is found as it was left.
  below _ _ hm := ends_iff.2 ⟨fun _ _ _ => ⟨fun _ _ => trivial, hm⟩, fun _ _ _ => trivial⟩

theorem abides (L : Local g) {p : Program N σ α} (hp : p.Only L.may) :
    p.Abides L.standing.may L.standing.lore.Tells fun _ => True :=
  hp.abides fun _ => trivial

end Local

/-- Terms that all parsers of a grammar keep to. What holds of a parser holds of those that it makes
for included files. -/
structure Common {N σ : Type} (g : Setting N σ) where
  shared : Shared σ → Prop
  may : Call σ → Prop
  lore : Lore N σ
  basic : ∀ c : Call σ, c.Basic → may c
  grammar : g.grammar.All (Program.Abides may lore.Tells (Yields lore.node))
    (Program.Abides may lore.Tells fun _ => True)
  make : ∀ kind p, lore.node (g.make kind p)
  inactive : lore.skipper none
  install : ∀ {id}, id ≠ "" → g.grammar.skippers.contains id → lore.skipper (some id)
  restore : ∀ {s}, may (.restore s) → lore.skipper s.skipper?
  outside : ∀ {s}, shared s → lore.outside s.outside
  emit : ∀ {s e}, shared s → e.registration? = none → shared { s with events := e :: s.events }
  load : ∀ {s}, shared s → shared { s with nextSerial := s.nextSerial + 1 }
  register : ∀ {s id} literal, shared s → s.tokens.literal? id = none →
    shared { s with events := .registered id literal :: s.events
                    tokens := s.tokens.add id literal }
  consult : ∀ {s f}, shared s → may (.consult f) → shared { s with outside := f s.outside }

namespace Common
open Packrat.Action Engine Machine
variable {N σ α : Type} {g : Setting N σ} (C : Common g)

def holds (m : Machine σ) : Prop := C.lore.skipper m.parser.skipper? ∧ C.shared m.shared

variable {C} {m n : Machine σ}

theorem holds_sub (hm : C.holds m) : C.holds m.sub := ⟨C.inactive, C.load (C.emit hm.2 rfl)⟩

theorem abides_below {c : Call σ} {q : Program N σ (Except Error N)} (hq : c.below? = some q) :
    q.Abides C.may C.lore.Tells (Yields C.lore.node) := by
  have hstart (rule : String) :
      (Program.ask (.start rule)).Abides C.may C.lore.Tells (Yields C.lore.node) :=
    ⟨C.basic _ trivial, fun _ houtcome => houtcome⟩
  cases c <;> cases hq
  case parseBelow file rule =>
    refine ⟨C.basic _ trivial, ?_⟩
    intro outcome _
    cases outcome with
    | error e => exact yields_error e
    | ok => exact hstart rule
  case parseTextBelow name content rule => exact ⟨C.basic _ trivial, fun _ _ => hstart rule⟩

/-- What is shared is left as it was found or as the parser for included files has left it. -/
def standing (C : Common g) : Standing g where
  holds := C.holds
  rests := C.holds
  may := C.may
  lore := C.lore
  spells := by
    intro c hc
    apply C.basic
    cases c <;> trivial
  grammar := C.grammar
  make := C.make
  halted hm := hm
  skipper hm := hm.1
  outside hm := C.outside hm.2
  parser := by
    intro m p hm _ _ hskipper
    exact ⟨hskipper ▸ hm.1, hm.2⟩
  emit hm he := ⟨hm.1, C.emit hm.2 he⟩
  register literal hm h := ⟨hm.1, C.register literal hm.2 h⟩
  consult hm hf := ⟨hm.1, C.consult hm.2 hf⟩
  advance hm _ := hm
  moveTo hm _ := hm
  restore hm hs := ⟨C.restore hs, hm.2⟩
  rollback hm hn := ⟨hm.1, hn.2⟩
  install hm hid hs := ⟨C.install hid hs, C.emit hm.2 rfl⟩
  uninstall hm hn := ⟨hm.1, hn.2⟩
  read hm _ _ := ⟨C.inactive, C.load hm.2⟩
  readText hm _ := ⟨C.inactive, C.load hm.2⟩
  below := by
    intro run c q m hrun hq hm
    apply (hrun (abides_below hq) (holds_sub hm)).imp_ok
    rintro outcome n ⟨houtcome, hn⟩
    exact ⟨houtcome, hm.1, hn.2⟩

/-- Wherever the run of a program comes to, in sessions beneath its own too, it keeps to the terms. -/
theorem holds_of_reaches {depth : Nat} {p : Program N σ α} {s : Site σ}
    (hs : Reaches g depth p m s) (hp : ∃ gives, p.Abides C.may C.lore.Tells gives)
    (hm : C.holds m) : C.may s.call ∧ C.holds s.machine := by
  induction hs with
  | met hs =>
    obtain ⟨gives, hp⟩ := hp
    exact C.standing.holds_of_meets hs hp hm
  | beneath hs hq _ ih =>
    obtain ⟨gives, hp⟩ := hp
    obtain ⟨-, hs⟩ := C.standing.holds_of_meets hs hp hm
    exact ih ⟨_, abides_below hq⟩ (holds_sub hs)

end Common

namespace Workspace
open Packrat.Action Engine
variable {N σ α : Type} {g : Setting N σ} {w : Workspace σ}

/-- Each parser keeps to the terms. -/
structure Keeps (w : Workspace σ) (C : Common g) : Prop where
  parsers : ∀ p ∈ w.parsers, C.lore.skipper p.skipper?
  shared : C.shared w.shared

variable {C : Common g}

theorem Keeps.holds (h : w.Keeps C) : C.holds w.machine :=
  ⟨h.parsers _ (List.get_mem _ _), h.shared⟩

theorem Keeps.update {m : Machine σ} (h : w.Keeps C) (hm : C.holds m) : (w.update m).Keeps C where
  parsers := by
    intro p hp
    rcases List.mem_or_eq_of_mem_set hp with hp | rfl
    · exact h.parsers p hp
    · exact hm.1
  shared := hm.2

theorem Keeps.add {p : Parser} (h : w.Keeps C) (hp : C.lore.skipper p.skipper?) :
    (w.add p).Keeps C where
  parsers := by
    intro q hq
    rcases List.mem_append.1 hq with hq | hq
    · exact h.parsers q hq
    · obtain rfl := List.mem_singleton.1 hq
      exact hp
  shared := h.shared

theorem Keeps.use (h : w.Keeps C) (i : Nat) : (w.use i).Keeps C := by
  unfold Workspace.use
  split
  · exact ⟨h.parsers, h.shared⟩
  · exact h

theorem Keeps.act {x : Action σ α} {gives : α → Prop} (h : w.Keeps C)
    (hx : Ends x w.machine (fun a n => gives a ∧ C.holds n) fun _ n => C.holds n) :
    (∀ a, (w.act x).1 = .ok a → gives a) ∧ (w.act x).2.Keeps C := by
  unfold Workspace.act
  cases hrun : x.run w.machine with
  | ok a n =>
    obtain ⟨ha, hn⟩ := hx.ok hrun
    refine ⟨?_, h.update hn⟩
    rintro _ ⟨⟩
    exact ha
  | error why n => exact ⟨fun _ hok => (nomatch hok), h.update (hx.error hrun)⟩

theorem Keeps.addBy {x : Action σ Parser} (h : w.Keeps C)
    (hx : Ends x w.machine (fun p n => C.lore.skipper p.skipper? ∧ C.holds n) fun _ n => C.holds n) :
    (w.addBy x).Keeps C := by
  have hact := h.act hx
  unfold Workspace.addBy
  generalize w.act x = r at hact
  obtain ⟨p | why, w'⟩ := r
  · exact hact.2
  · exact hact.2.add (hact.1 _ rfl)

theorem Keeps.newParser (h : w.Keeps C) (directory : String) :
    (w.addBy (Engine.newParser directory)).Keeps C := by
  apply h.addBy
  exact ⟨C.inactive, h.holds.1, C.load h.shared⟩

theorem Keeps.subparser (h : w.Keeps C) : (w.addBy Engine.subparser).Keeps C := by
  apply h.addBy
  exact ⟨C.inactive, h.holds.1, C.load (C.emit h.shared rfl)⟩

end Workspace

end Packrat
