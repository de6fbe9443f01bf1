import Packrat.Pattern.Reader
import Packrat.Script.Basic
import Packrat.Script.Library
import Packrat.Script.Step

/-! What the operations of steps do with the values of their arguments. -/

namespace Packrat.Script
set_option autoImplicit false

/-- With `bad` for a text that is no pattern. -/
def withPattern (text : List Char) (bad : EvalM Value) (k : Regex → EvalM Value) : EvalM Value :=
  match Pattern.read library text with
  | .ok r => k r
  | .error .refused => bad
  | .error .unknown => misuse

def eatPattern (r : Regex) : EvalM Value := do
  return .ofText? (← ask (.eatRegex r))

def comparison (p q : Position) : Value :=
  .comparison (p.sameSource q) (p == q) (p.compare? q)

def reveal (p : Position) : String :=
  "Position \x7b source: " ++ quoted p.source.name ++ ", offset: " ++ toString p.offset ++
    ", line: " ++ toString p.line ++ ", column: " ++ toString p.column ++ " \x7d"

def Op.apply (o : Op) (args : List Value) : EvalM Value :=
  match o, args with
  | .matchRule skipper? params, [.text id] =>
    askNode (Program.ask (.matchWith ⟨id, skipper?⟩ params))
  | .literal, [.text text] => askNode (Program.literal text)
  | .test, [.text id] => do return .bool (← raise (← ask (.test id)))
  | .testAny ids, [] => do return .ofText? (← raise (← lift (Program.testAny ids)))
  | .testAll ids, [] => do return .bool (← raise (← ask (.testAll ids)))
  | .matchAny ids, [] => askNode (Program.matchAny ids)
  | .resolve, [.text id] => do
    let _ ← ask (.resolve id)
    return .null
  | .invoke params, [.text id] =>
    askNode do Program.ask (.invoke (← Program.ask (.resolve id)) params)
  | .skip, [] | .skip, [.null] => do return .bool (← raise (← ask (.skip none)))
  | .skip, [.text id] => do return .bool (← raise (← ask (.skip (some id))))
  | .setSkipper, [.null] => do return .ofText? (← raise (← ask (.setSkipper none)))
  | .setSkipper, [.text id] => do return .ofText? (← raise (← ask (.setSkipper (some id))))
  | .skipper, [] => do return .ofText? (← ask .skipper)
  | .snapshot, [] => do return .state (← lift Program.snapshot)
  | .restore, [.state s] => do
    ask (.restore s)
    return .null
  | .makeSnapshot skipper?, [.position p] => return .state ⟨p, skipper?⟩
  | .sameSnapshot, [.state a, .state b] => return .bool (a == b)
  | .read, [.text file] => do
    raise (← ask (.read file))
    return .null
  | .readText, [.text name, .text content] => do
    ask (.readText name content)
    return .null
  | .parse, [.text file, .text rule] => askNode (Program.parse file rule)
  | .parseText, [.text name, .text content, .text rule] =>
    askNode (Program.parseText name content rule)
  | .parseBelow, [.text file, .text rule] => askNode (Program.ask (.parseBelow file rule))
  | .parseTextBelow, [.text name, .text content, .text rule] =>
    askNode (Program.ask (.parseTextBelow name content rule))
  | .directory, [] => do return .text (← ask .directory)
  | .node, [.text kind] => do return .node (← lift (Program.node kind))
  | .node, [.text kind, .position p] => do return .node (← ask (.make kind p))
  | .customError, [.text message] => do return .error (← lift (Program.customError message))
  | .expected ids, [] => do return .error (← lift (Program.expected ids))
  | .backtrack, [] => return .error Program.backtrack
  | .peek, [] => do return .ofOption (fun c => .text c.toString) (← ask .peek)
  | .next, [] => do return .ofOption (fun c => .text c.toString) (← ask .next)
  | .atEnd, [] => do return .bool (← ask .atEnd)
  | .rest, [] => do return .text (← ask .rest)
  | .offset, [] => do return .number (← ask .position).offset
  | .startsWith, [.text text] => do return .bool (← ask (.startsWith text))
  | .eat, [.text text] => do return .bool (← ask (.eat text))
  | .eatWhile reach, [] => do return .text (← ask (.eatWhile reach.has))
  | .eatRegex, [.text pattern] => withPattern pattern.toList misuse eatPattern
  | .anchored, [.text pattern] =>
    let text := Pattern.anchored pattern.toList
    withPattern text (return .badPattern) fun _ => return .text (String.ofList text)
  | .eatAnchored, [.text pattern] =>
    withPattern (Pattern.anchored pattern.toList) (return .badPattern) eatPattern
  | .advance, [.number n] => do
    ask (.advance n)
    return .null
  | .position, [] => do return .position (← ask .position)
  | .moveTo, [.position p] => do
    ask (.moveTo p)
    return .null
  | .startPosition, [] => do return .position (.start (← ask .position).source)
  | .makePosition, [.number n, .number line, .number column] => do
    return .position ⟨n, line, column, (← ask .position).source⟩
  | .describe, [.position p] => return .text p.describe
  | .showPosition, [.position p] => return .list [.text p.toText, .text (reveal p)]
  | .comparePositions, [.position p, .position q] => return comparison p q
  | .withValue, [.node n, .text value] => return .node (n.withValue value)
  | .push, [.node n, .node m] => return .node (n.push m)
  | .child, [.node n, .text kind] => return .ofOption .node (n.child? kind)
  | .nodeOffset, [.node n] => return .number n.position.offset
  | .sameNode, [.node a, .node b] => return .bool (a == b)
  | .makeError cause, [] => return .error ⟨cause, none⟩
  | .makeError cause, [.position p] => return .error ⟨cause, some p⟩
  | .errorAt, [.error e, .position p] => return .error (e.orAt p)
  | .errorPosition, [.error e] => return .ofOption .position e.position?
  | .sameError, [.error a, .error b] => return .bool (a.cause = b.cause)
  | .addToken, [.text id, .text text] => do
    let _ ← ask (.addToken id text)
    return .null
  | .runToken, [.text id, .text text] =>
    askNode do Program.ask (.invoke (← Program.ask (.addToken id text)) [])
  | .runSkipper, [.text id] => do
    match ← ask (.runSkipper id) with
    | none => return .null
    | some outcome => return .bool (← raise outcome)
  | .hasRule, [.text id] => do return .bool (← ask (.hasRule id))
  | .hasSkipper, [.text id] => do return .bool (← ask (.hasSkipper id))
  | .ruleNames, [] => do return .list ((← ask .ruleNames).map .text)
  | .skipperNames, [] => do return .list ((← ask .skipperNames).map .text)
  | _, _ => misuse

end Packrat.Script
