import Packrat.Engine

/-! A workspace holds several parsers of one grammar, one of which is current. Each keeps its own
session; tokens, events and the outside state are common to all. -/

namespace Packrat
set_option autoImplicit false

structure Workspace (σ : Type) where
  parsers : List Parser
  current : Nat
  shared : Shared σ
  current_lt : current < parsers.length

namespace Workspace
variable {N σ α : Type}

def new (directory : String) (outside : σ) : Workspace σ where
  parsers := [Engine.freshParser directory ⟨0, Engine.emptyName, none, []⟩]
  current := 0
  shared := ⟨.empty, 1, [], outside⟩
  current_lt := by simp

def parser (w : Workspace σ) : Parser := w.parsers.get ⟨w.current, w.current_lt⟩

def machine (w : Workspace σ) : Machine σ := ⟨w.parser, w.shared⟩

def update (w : Workspace σ) (m : Machine σ) : Workspace σ where
  parsers := w.parsers.set w.current m.parser
  current := w.current
  shared := m.shared
  current_lt := by simpa using w.current_lt

def act (w : Workspace σ) (x : Action σ α) : Except Halt α × Workspace σ :=
  match x.run w.machine with
  | .ok a m => (.ok a, w.update m)
  | .error why m => (.error why, w.update m)

def add (w : Workspace σ) (p : Parser) : Workspace σ where
  parsers := w.parsers ++ [p]
  current := w.parsers.length
  shared := w.shared
  current_lt := by simp

/-- Makes parser number `i` the current one, if there is one. -/
def use (w : Workspace σ) (i : Nat) : Workspace σ :=
  if h : i < w.parsers.length then { w with current := i, current_lt := h } else w

def addBy (w : Workspace σ) (x : Action σ Parser) : Workspace σ :=
  match w.act x with
  | (.ok p, w) => w.add p
  | (.error _, w) => w

def forgetEvents (w : Workspace σ) : Workspace σ :=
  { w with shared := { w.shared with events := [] } }

end Workspace

end Packrat
