import Packrat.Script.Eval
import Packrat.Workspace

/-! Sessions of scripts: commands that run one after the other in a workspace, and a report on each.
A command that fails leaves the session going; one that halts the machine is the last. -/

namespace Packrat.Script
set_option autoImplicit false

inductive Command where
  /-- Adds a parser for files of a directory, the home directory if none is named. -/
  | newParser (directory? : Option String)
  | subparser
  | use (i : Nat)
  | step (s : Step)

structure Plan where
  definitions : Definitions
  disk : Disk
  directory? : Option String
  input? : Option (String × String)
  commands : List Command

structure Report where
  result : Except Error Value
  position : Position
  skipper? : Option String
  gauge : Gauge
  records : List (Event.Level × String)

structure Outcome where
  reports : List Report
  /-- Whether the command behind the last report halted the machine. -/
  halted : Bool
  events : List Event
  tally : Tally

/-- How many levels a session has for rules inside rules. -/
def levels : Nat := 1000000

def homeDirectory (d : Disk) : String :=
  String.ofList (d.home.flatMap fun name => '/' :: name)

def Plan.setting (plan : Plan) : Setting Node Tally :=
  ⟨plan.definitions.toGrammar, Node.leaf, plan.disk, true⟩

structure Session where
  workspace : Workspace Tally
  locals : Locals
  /-- The latest first, without those of the workspace. -/
  events : List Event

namespace Session

def start (plan : Plan) : Session :=
  let w := Workspace.new (plan.directory?.getD (homeDirectory plan.disk)) []
  match plan.input? with
  | none => ⟨w, [], []⟩
  | some (name, content) => ⟨(w.act (Engine.readText name content)).2, [], []⟩

/-- The answer of a step, and the variables it leaves. What is given outside of rules is the answer,
too. -/
def answer (x : Except Exit Value × Locals) : Except Error Value × Locals :=
  (match x.1 with
    | .ok v | .error (.gave v) => .ok v
    | .error .left => .ok .null
    | .error (.failed e) => .error e, x.2)

def perform (g : Setting Node Tally) (s : Session) :
    Command → Option (Except Error Value) × Session
  | .newParser directory? =>
    let w := s.workspace.addBy (Engine.newParser (directory?.getD (homeDirectory g.disk)))
    (some (.ok (.number w.current)), { s with workspace := w })
  | .subparser =>
    let w := s.workspace.addBy Engine.subparser
    (some (.ok (.number w.current)), { s with workspace := w })
  | .use i => (some (.ok (.number i)), { s with workspace := s.workspace.use i })
  | .step step =>
    match s.workspace.act (Engine.run g levels _ ((eval [] step).run.run s.locals)) with
    | (.ok x, w) =>
      let (result, locals) := answer x
      (some result, { s with workspace := w, locals })
    | (.error _, w) => (none, { s with workspace := w })

/-- Moves the events of the workspace to those of the session. -/
def collect (s : Session) : Session :=
  { s with workspace := s.workspace.forgetEvents
           events := s.workspace.shared.events ++ s.events }

def report (s : Session) (result : Except Error Value) : Report :=
  let p := s.workspace.parser
  ⟨result, p.cursor.position, p.skipper?,
    ⟨p.stats, p.memo.size, s.workspace.shared.tokens.size⟩,
    s.workspace.shared.events.reverse.filterMap Event.record?⟩

def performAll (g : Setting Node Tally) (s : Session) :
    List Command → List Report × Bool × Session
  | [] => ([], false, s)
  | c :: cs =>
    match s.perform g c with
    | (none, s) => ([], true, s.collect)
    | (some result, s) =>
      let (reports, halted, last) := performAll g s.collect cs
      (s.report result :: reports, halted, last)

end Session

def Plan.outcome (plan : Plan) : Outcome :=
  let (reports, halted, s) := (Session.start plan).collect.performAll plan.setting plan.commands
  ⟨reports, halted, s.events.reverse, s.workspace.shared.outside⟩

end Packrat.Script
