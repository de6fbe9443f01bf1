import Packrat.Error
import Packrat.Event
import Packrat.Fault
import Packrat.Regex.Basic

/-! Rules and skippers are programs: trees of calls to a parser, each followed by what to do with
its reply. A program reads the text and the state of its parser through calls only, so that what it
may do can be told from the calls in it. -/

namespace Packrat
set_option autoImplicit false

abbrev Params := List (String × String)

structure RuleRef where
  id : String
  skipper? : Option String
  deriving DecidableEq, Repr

inductive Resolved where
  | rule (id : String)
  | token (literal : String)
  deriving DecidableEq, Repr

/-- The part of a parser's state that a failed attempt puts back. -/
structure Snapshot where
  position : Position
  skipper? : Option String

instance : BEq Snapshot where
  beq a b := a.position == b.position && a.skipper? == b.skipper?

structure Gauge where
  stats : Stats
  memoSize : Nat
  tokens : Nat
  deriving DecidableEq, Repr

/-- Calls to a parser. `σ` is a state outside of it. -/
inductive Call (σ : Type) where
  | peek
  | next
  | atEnd
  | rest
  | startsWith (text : String)
  | eat (text : String)
  | eatWhile (p : Char → Bool)
  | eatRegex (r : Regex)
  | advance (n : Nat)
  | position
  | moveTo (p : Position)
  | skipper
  | restore (s : Snapshot)
  /-- Resolves a rule's name, which registers a token if there is no such rule. -/
  | resolve (id : String)
  | addToken (id literal : String)
  /-- Runs a resolved rule, as it is. -/
  | invoke (r : Resolved) (params : Params)
  /-- Runs a rule to consume, under a skipper of its own if it names one. -/
  | matchWith (ref : RuleRef) (params : Params)
  /-- Whether a rule would match here. -/
  | test (id : String)
  /-- Whether rules would match here, one behind the other. -/
  | testAll (ids : List String)
  | skip (id? : Option String)
  /-- Runs a skipper, as it is; no reply if there is none of that name. -/
  | runSkipper (id : String)
  | setSkipper (id? : Option String)
  | read (file : String)
  | readText (name content : String)
  | start (rule : String)
  | parseBelow (file rule : String)
  | parseTextBelow (name content rule : String)
  | directory
  | hasRule (id : String)
  | hasSkipper (id : String)
  | ruleNames
  | skipperNames
  | gauge
  | make (kind : String) (p : Position)
  | note (label : String)
  /-- Changes the outside state and replies what it was. -/
  | consult (f : σ → σ)
  | halt (why : Fault)

/-- What a call replies; `N` is the type of nodes. -/
@[reducible] def Call.Reply {σ : Type} (N : Type) : Call σ → Type
  | .peek | .next => Option Char
  | .atEnd | .startsWith _ | .eat _ | .hasRule _ | .hasSkipper _ => Bool
  | .rest | .eatWhile _ | .directory => String
  | .eatRegex _ | .skipper => Option String
  | .position => Position
  | .advance _ | .moveTo _ | .restore _ | .readText .. | .note _ => Unit
  | .resolve _ | .addToken .. => Resolved
  | .invoke .. | .matchWith .. | .start _ | .parseBelow .. | .parseTextBelow .. => Except Error N
  | .test _ | .testAll _ | .skip _ => Except Error Bool
  | .runSkipper _ => Option (Except Error Bool)
  | .setSkipper _ => Except Error (Option String)
  | .read _ => Except Error Unit
  | .ruleNames | .skipperNames => List String
  | .gauge => Gauge
  | .make .. => N
  | .consult _ => σ
  | .halt _ => Empty

/-- A finite tree: on every path the calls come to an end. A rule that goes round for as long as the
text lets it is covered through its unrollings only: a run of it that ends is the run of a program
that has rounds enough written out (`Engine.loopEnds_iff_unrolled`). -/
inductive Program (N σ α : Type) where
  | done (a : α)
  | call (c : Call σ) (next : c.Reply N → Program N σ α)

namespace Program
variable {N σ α β : Type}

def bind (p : Program N σ α) (f : α → Program N σ β) : Program N σ β :=
  match p with
  | .done a => f a
  | .call c next => .call c fun reply => (next reply).bind f

instance : Monad (Program N σ) where
  pure := .done
  bind := bind

theorem bind_done (p : Program N σ α) : p.bind .done = p := by
  induction p with
  | done a => rfl
  | call c next ih => exact congrArg (Program.call c) (funext ih)

theorem bind_assoc {γ : Type} (p : Program N σ α) (f : α → Program N σ β)
    (h : β → Program N σ γ) : (p.bind f).bind h = p.bind fun a => (f a).bind h := by
  induction p with
  | done a => rfl
  | call c next ih => exact congrArg (Program.call c) (funext ih)

instance : LawfulMonad (Program N σ) :=
  LawfulMonad.mk' _ bind_done (fun _ _ => rfl) bind_assoc

def ask (c : Call σ) : Program N σ (c.Reply N) := .call c .done

def answer {m : Type → Type} [Monad m] (h : (c : Call σ) → m (c.Reply N)) : Program N σ α → m α
  | .done a => pure a
  | .call c next => do (next (← h c)).answer h

/-- Answering a sequence of programs is answering the one and then the other. -/
theorem answer_bind {m : Type → Type} [Monad m] [LawfulMonad m]
    (h : (c : Call σ) → m (c.Reply N)) (p : Program N σ α) (f : α → Program N σ β) :
    (p.bind f).answer h = p.answer h >>= fun a => (f a).answer h := by
  induction p with
  | done a => simp [bind, answer]
  | call c next ih => simp [bind, answer, ih]

def snapshot : Program N σ Snapshot := do
  return ⟨← ask .position, ← ask .skipper⟩

def matchRule (ref : RuleRef) : Program N σ (Except Error N) := ask (.matchWith ref [])

def failure (cause : Error.Cause) : Program N σ Error := do
  return ⟨cause, some (← ask .position)⟩

def customError (message : String) : Program N σ Error :=
  failure (.custom (if message = "" then "Unknown error" else message))

def expected (ids : List String) : Program N σ Error := failure (.expected ids)

def backtrack : Error := ⟨.backtrack, none⟩

def node (kind : String) : Program N σ N := do
  ask (.make kind (← ask .position))

/-- The rule that matches a text and names its node after it. -/
def token (literal : String) : Program N σ (Except Error N) := do
  let start ← ask .position
  if ← ask (.eat literal) then return .ok (← ask (.make literal start))
  else return .error (← expected [literal])

/-- Matches the token of that text, even where a rule has that name. -/
def literal (text : String) : Program N σ (Except Error N) := do
  ask (.invoke (← ask (.addToken text text)) [])

def testAny : List String → Program N σ (Except Error (Option String))
  | [] => return .ok none
  | id :: ids => do
    match ← ask (.test id) with
    | .error e => return .error e
    | .ok true => return .ok (some id)
    | .ok false => testAny ids

/-- Tries the rules in order; `all` of them are told of if none would match. -/
def matchFirst (all : List String) : List String → Program N σ (Except Error N)
  | [] => return .error (← expected all)
  | id :: ids => do
    match ← ask (.test id) with
    | .error e => return .error e
    | .ok true => matchRule ⟨id, none⟩
    | .ok false => matchFirst all ids

def matchAny (ids : List String) : Program N σ (Except Error N) := matchFirst ids ids

def parse (file rule : String) : Program N σ (Except Error N) := do
  match ← ask (.read file) with
  | .error e => return .error e
  | .ok () => ask (.start rule)

def parseText (name content rule : String) : Program N σ (Except Error N) := do
  ask (.readText name content)
  ask (.start rule)

/-- Skips what the expression matches; says whether that was anything. -/
def skipRegex (r : Regex) : Program N σ (Except Error Bool) := do
  match ← ask (.eatRegex r) with
  | some text => return .ok (text ≠ "")
  | none => return .ok false

end Program

end Packrat
