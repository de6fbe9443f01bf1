import Packrat.Script.Apply

/-! The meaning of steps, and of the rules and skippers that are written as steps. -/

namespace Packrat.Script
set_option autoImplicit false

def maxRounds : Nat := 1000

def rounds (body : EvalM Value) : Nat → EvalM Unit
  | 0 => return ()
  | n + 1 => do
    match ← observe body with
    | .ok _ => rounds body n
    | .error .left => return ()
    | .error e => throw e

mutual

def eval (params : Params) : Step → EvalM Value
  | .const v => return v
  | .var name => return ((← get).lookup name).getD .null
  | .assign name e => do
    let v ← eval params e
    modify fun locals => (name, v) :: locals.filter (·.1 ≠ name)
    return v
  | .not e => return .bool !(← eval params e).isTrue
  | .block body => evalBody params body
  | .branch condition yes no => do
    if (← eval params condition).isTrue then evalBody params yes else evalBody params no
  | .loop body => do
    rounds (evalBody params body) maxRounds
    return .null
  | .leave => throw .left
  | .give e => do throw (.gave (← eval params e))
  | .fail e => do
    match ← eval params e with
    | .error e => throw (.failed e)
    | _ => misuse
  | .attempt body => do
    match ← observe (evalBody params body) with
    | .ok _ => return .null
    | .error (.failed e) => return .error e
    | .error e => throw e
  | .count name limit? => do
    let n := (← ask (.consult fun t => t.bump name)).get name + 1
    return .bool (limit?.all (n ≤ ·))
  | .note label => do
    ask (.note label)
    return .null
  | .param key => return .ofText? (params.lookup key)
  | .op o args => do o.apply (← evalArgs params args)

def evalArgs (params : Params) : List Step → EvalM (List Value)
  | [] => return []
  | e :: es => do
    let v ← eval params e
    return v :: (← evalArgs params es)

def evalBody (params : Params) : List Step → EvalM Value
  | [] => return .null
  | [e] => eval params e
  | e :: f :: es => do
    let _ ← eval params e
    evalBody params (f :: es)

end

def alone {α : Type} (x : EvalM α) : Prog (Except Exit α) := do
  return (← x.run.run []).1

/-- A rule ends with the node that its steps give, or with one of its own name at its start. -/
def ruleOf (name : String) (body : List Step) : Rule Node Tally := fun params => do
  let start ← Program.ask .position
  match ← alone (evalBody params body) with
  | .error (.gave (.node n)) => return .ok n
  | .error (.gave _) => nomatch ← Program.ask (.halt .misuse)
  | .error (.failed e) => return .error e
  | .error .left | .ok _ => return .ok (← Program.ask (.make name start))

/-- Steps that give nothing have skipped nothing. -/
def skipperOf : SkipperBody → Prog (Except Error Bool)
  | .pattern text =>
    match Pattern.read library text.toList with
    | .ok r => Program.skipRegex r
    | .error _ => do nomatch ← Program.ask (.halt .misuse)
  | .steps body => do
    match ← alone (evalBody [] body) with
    | .error (.gave v) => return .ok v.isTrue
    | .error (.failed e) => return .error e
    | .error .left | .ok _ => return .ok false

def Definitions.toGrammar (d : Definitions) : Grammar Node Tally :=
  let g := if d.stock then Grammar.withStock else Grammar.empty
  let g := d.skippers.foldl (fun g (name, body) => g.skipper name (skipperOf body)) g
  d.rules.foldl (fun g (name, body) => g.rule name (ruleOf name body)) g

end Packrat.Script
