import Packrat.Machine

/-! The engine answers the calls of programs. Running a rule inside a rule takes one of a number of
levels; more levels never change an answer. -/

namespace Packrat
set_option autoImplicit false

abbrev Runner (N σ : Type) := (α : Type) → Program N σ α → Action σ α

namespace Engine
open Packrat.Action
variable {N σ α : Type}

/-! Rules. -/

def addToken (id literal : String) : Action σ Resolved := do
  let tokens := (← get).shared.tokens
  match tokens.literal? id with
  | some known => return .token known
  | none =>
    emit (.registered id literal)
    modifyShared fun s => { s with tokens := s.tokens.add id literal }
    return .token literal

/-- A rule of the grammar comes before a token of the same name. -/
def resolve (g : Setting N σ) (id : String) : Action σ Resolved :=
  if g.grammar.rules.contains id then return .rule id else addToken id id

/-- Runs a rule, as it is. A name that the grammar does not have stands for its own text. -/
def invoke (g : Setting N σ) (run : Runner N σ) (r : Resolved) (params : Params) :
    Action σ (Except Error N) :=
  match r with
  | .token literal => run _ (Program.token literal)
  | .rule id =>
    match g.grammar.rules[id]? with
    | some rule => run _ (rule params)
    | none => run _ (Program.token id)

def resolveAndInvoke (g : Setting N σ) (run : Runner N σ) (id : String) (params : Params) :
    Action σ (Except Error N) := do
  invoke g run (← resolve g id) params

/-! Skippers. -/

/-- An error of a skipper that is not fatal counts as nothing skipped and leaves no trace. -/
def skip (g : Setting N σ) (run : Runner N σ) (id? : Option String) :
    Action σ (Except Error Bool) := do
  match id?.or (← parser).skipper? with
  | none => return .ok false
  | some id =>
    match g.grammar.skippers[id]? with
    | none => return .error (← failAt (.unknownSkipper id))
    | some skipper =>
      let before ← snapshot
      match ← run _ skipper with
      | .ok skipped => return .ok skipped
      | .error e =>
        if e.isFatal then return .error e
        else
          restore before
          return .ok false

/-- Makes a skipper the active one and skips at once; gives the one that was active before. No name,
or an empty one, changes nothing. -/
def setSkipper (g : Setting N σ) (run : Runner N σ) (id? : Option String) :
    Action σ (Except Error (Option String)) := do
  let previous? := (← parser).skipper?
  match id? with
  | none | some "" => return .ok previous?
  | some id =>
    if g.grammar.skippers.contains id then
      emit (.skipperSet previous? id)
      modifyParser fun p => { p with skipper? := some id }
      match ← skip g run none with
      | .ok _ => return .ok previous?
      | .error e => return .error e
    else return .error (← failAt (.unknownSkipper id))

/-! Attempts. -/

def verdict (outcome : Except Error α) : Except Error Bool :=
  match outcome with
  | .ok _ => .ok true
  | .error e => if e.isFatal then .error e else .ok false

/-- Runs rule `id` and takes back what it did to cursor and skipper. The outcome is kept in the memo
for the offset where the test was made; it does not depend on the skipper then active. -/
def test (g : Setting N σ) (run : Runner N σ) (id : String) : Action σ (Except Error Bool) := do
  count fun s => { s with tests := s.tests + 1 }
  let p ← parser
  let place := p.cursor.position
  match if g.memoizes then p.memo.get? place.offset id else none with
  | some matched =>
    count fun s => { s with hits := s.hits + 1 }
    emit (.tested true id place matched)
    return .ok matched
  | none =>
    let before ← snapshot
    let outcome ← resolveAndInvoke g run id []
    restore before
    match verdict outcome with
    | .error e => return .error e
    | .ok matched =>
      emit (.tested false id place matched)
      modifyParser fun p => { p with memo := p.memo.insert place.offset id matched }
      return .ok matched

def runAll (g : Setting N σ) (run : Runner N σ) : List String → Action σ (Except Error Unit)
  | [] => return .ok ()
  | id :: ids => do
    match ← resolveAndInvoke g run id [] with
    | .ok _ => runAll g run ids
    | .error e => return .error e

def testAll (g : Setting N σ) (run : Runner N σ) (ids : List String) :
    Action σ (Except Error Bool) := do
  let before ← snapshot
  let outcome ← runAll g run ids
  restore before
  return verdict outcome

/-- Runs a rule to consume. A skipper of its own is set before and put back behind it. -/
def matchWith (g : Setting N σ) (run : Runner N σ) (ref : RuleRef) (params : Params) :
    Action σ (Except Error N) := do
  count fun s => { s with runs := s.runs + 1 }
  match ref.skipper? with
  | none => resolveAndInvoke g run ref.id params
  | some skipper =>
    match ← setSkipper g run (some skipper) with
    | .error e => return .error e
    | .ok previous? =>
      let result ← resolveAndInvoke g run ref.id params
      modifyParser fun p => { p with skipper? := previous? }
      return result

/-! Sessions. -/

def load (name : String) (path? : Option String) (content : List Char) : Action σ Source := do
  let serial := (← get).shared.nextSerial
  modifyShared fun s => { s with nextSerial := serial + 1 }
  return ⟨serial, name, path?, content⟩

def freshParser (directory : String) (source : Source) : Parser :=
  ⟨directory, .atStart source, none, .empty, .zero⟩

def beginSession (source : Source) : Action σ Unit :=
  modifyParser fun p => freshParser p.directory source

def read (g : Setting N σ) (file : String) : Action σ (Except Error Unit) := do
  let path := Path.join (← parser).directory file
  match g.disk.read path with
  | .error trouble => return .error ⟨.readFailed path trouble.message, none⟩
  | .ok content =>
    beginSession (← load path (some path) content)
    return .ok ()

def readText (name content : String) : Action σ Unit := do
  beginSession (← load name none content.toList)

def sourceName : Action σ String := return (← parser).cursor.source.name

/-- Matches the first rule of a session; an error without a place is put at the cursor. -/
def start (g : Setting N σ) (run : Runner N σ) (rule : String) : Action σ (Except Error N) := do
  emit (.started (← sourceName) rule)
  match ← matchWith g run ⟨rule, none⟩ [] with
  | .ok node =>
    let p ← parser
    emit (.finished (← sourceName) p.memo.size p.stats)
    return .ok node
  | .error e =>
    let e := e.orAt (← parser).cursor.position
    emit (.failed (← sourceName) e.message)
    return .error e

def emptyName : String := "<empty>"

def newParser (directory : String) : Action σ Parser := do
  return freshParser directory (← load emptyName none [])

/-- A parser for included files. It begins where the file being read is, or where the parser of an
unfiled text is. -/
def subparser : Action σ Parser := do
  let p ← parser
  let directory := (p.cursor.source.path?.bind Path.parent?).getD p.directory
  emit (.rooted directory)
  newParser directory

def below (run : Runner N σ) (program : Program N σ α) : Action σ α := do
  let p ← parser
  let sub ← subparser
  modifyParser fun _ => sub
  let result ← run _ program
  modifyParser fun _ => p
  return result

/-! Calls. -/

def make (g : Setting N σ) (kind : String) (p : Position) : Action σ N := do
  emit (.made kind p)
  return g.make kind p

def note (label : String) : Action σ Unit := do
  let p ← parser
  emit (.noted label p.cursor.position p.skipper?)

def consult (f : σ → σ) : Action σ σ := do
  let s := (← get).shared.outside
  modifyShared fun sh => { sh with outside := f sh.outside }
  return s

def gauge : Action σ Gauge := do
  let m ← get
  return ⟨m.parser.stats, m.parser.memo.size, m.shared.tokens.size⟩

def reply (g : Setting N σ) (run : Runner N σ) : (c : Call σ) → Action σ (c.Reply N)
  | .peek => look Cursor.peek
  | .next => move Cursor.next
  | .atEnd => return (← parser).cursor.atEnd
  | .rest => return String.ofList (← look Cursor.rest)
  | .startsWith text => look fun c => c.startsWith text.toList
  | .eat text => move fun c => c.eat text.toList
  | .eatWhile p => return String.ofList (← move fun c => c.eatWhile p)
  | .eatRegex r => return (← move fun c => c.eatRegex r).map String.ofList
  | .advance n => move fun c => return ((), ← c.advance n)
  | .position => return (← parser).cursor.position
  | .moveTo p => modifyParser fun q => { q with cursor := q.cursor.moveTo p }
  | .skipper => return (← parser).skipper?
  | .restore s => restore s
  | .resolve id => resolve g id
  | .addToken id literal => addToken id literal
  | .invoke r params => invoke g run r params
  | .matchWith ref params => matchWith g run ref params
  | .test id => test g run id
  | .testAll ids => testAll g run ids
  | .skip id? => skip g run id?
  | .runSkipper id =>
    match g.grammar.skippers[id]? with
    | none => return none
    | some skipper => return some (← run _ skipper)
  | .setSkipper id? => setSkipper g run id?
  | .read file => read g file
  | .readText name content => readText name content
  | .start rule => start g run rule
  | .parseBelow file rule => below run (Program.parse file rule)
  | .parseTextBelow name content rule => below run (Program.parseText name content rule)
  | .directory => return (← parser).directory
  | .hasRule id => return g.grammar.rules.contains id
  | .hasSkipper id => return g.grammar.skippers.contains id
  | .ruleNames => return g.grammar.rules.keys
  | .skipperNames => return g.grammar.skippers.keys
  | .gauge => gauge
  | .make kind p => make g kind p
  | .note label => note label
  | .consult f => consult f
  | .halt why => throw (.fault why)

/-- Runs a program, with `depth` levels for the rules in it. -/
def run (g : Setting N σ) : Nat → Runner N σ
  | 0, _, _ => throw .tooDeep
  | depth + 1, _, program => program.answer (reply g (run g depth))

end Engine

end Packrat
