import Packrat.Grammar
import Packrat.Script.Value

/-! Scripts are programs with variables that may end early, by leaving a loop, giving an answer or
failing. Variables keep what they were set to before the end. -/

namespace Packrat.Script
set_option autoImplicit false

inductive Exit where
  | left
  | gave (v : Value)
  | failed (e : Error)

abbrev Locals := List (String × Value)

/-- How often each name was counted. -/
abbrev Tally := List (String × Nat)

def Tally.get (t : Tally) (name : String) : Nat := (t.lookup name).getD 0

def Tally.bump (t : Tally) (name : String) : Tally :=
  if t.any (·.1 = name) then t.map fun e => if e.1 = name then (e.1, e.2 + 1) else e
  else t ++ [(name, 1)]

abbrev Prog := Program Node Tally

abbrev EvalM := ExceptT Exit (StateT Locals Prog)

def lift {α : Type} (p : Prog α) : EvalM α := ExceptT.lift (StateT.lift p)

def ask (c : Call Tally) : EvalM (c.Reply Node) := lift (Program.ask c)

def raise {α : Type} (x : Except Error α) : EvalM α :=
  match x with
  | .ok a => return a
  | .error e => throw (.failed e)

/-- The value of a step that fits no meaning. -/
def misuse {α : Type} : EvalM α := do
  nomatch ← ask (.halt .misuse)

def observe {α : Type} (x : EvalM α) : EvalM (Except Exit α) := ExceptT.lift x.run

def askNode (c : Prog (Except Error Node)) : EvalM Value := do
  return .node (← raise (← lift c))

end Packrat.Script
