import Packrat.Cursor
import Packrat.Disk
import Packrat.Event
import Packrat.Grammar
import Packrat.Memo
import Packrat.Tokens

/-! Machines run programs. A parser holds one session at a time: a source with a cursor, the active
skipper and the memo. What parsers of one grammar share stands beside it. -/

namespace Packrat
set_option autoImplicit false

structure Parser where
  directory : String
  cursor : Cursor
  skipper? : Option String
  memo : Memo
  stats : Stats

structure Shared (σ : Type) where
  tokens : Tokens
  nextSerial : Nat
  /-- The latest first. -/
  events : List Event
  outside : σ

structure Machine (σ : Type) where
  parser : Parser
  shared : Shared σ

inductive Halt where
  | fault (why : Fault)
  /-- Rules ran inside rules deeper than the given number of levels. -/
  | tooDeep
  deriving DecidableEq, Repr

/-- Steps of a machine. A halted machine keeps the state it was in. -/
abbrev Action (σ : Type) := EStateM Halt (Machine σ)

structure Setting (N σ : Type) where
  grammar : Grammar N σ
  make : String → Position → N
  disk : Disk
  /-- Whether tests are answered from the memo. -/
  memoizes : Bool

namespace Action
variable {σ α : Type}

def parser : Action σ Parser := return (← get).parser

def modifyParser (f : Parser → Parser) : Action σ Unit :=
  modify fun m => { m with parser := f m.parser }

def modifyShared (f : Shared σ → Shared σ) : Action σ Unit :=
  modify fun m => { m with shared := f m.shared }

def emit (e : Event) : Action σ Unit := modifyShared fun s => { s with events := e :: s.events }

def lift (x : Except Fault α) : Action σ α :=
  match x with
  | .ok a => return a
  | .error why => throw (.fault why)

def look (f : Cursor → Except Fault α) : Action σ α := do
  lift (f (← parser).cursor)

def move (f : Cursor → Except Fault (α × Cursor)) : Action σ α := do
  let (a, cursor) ← look f
  modifyParser fun p => { p with cursor }
  return a

def snapshot : Action σ Snapshot := do
  let p ← parser
  return ⟨p.cursor.position, p.skipper?⟩

def restore (s : Snapshot) : Action σ Unit :=
  modifyParser fun p => { p with cursor := p.cursor.moveTo s.position, skipper? := s.skipper? }

def failAt (cause : Error.Cause) : Action σ Error := do
  return ⟨cause, some (← parser).cursor.position⟩

def count (f : Stats → Stats) : Action σ Unit :=
  modifyParser fun p => { p with stats := f p.stats }

end Action

end Packrat
