import Packrat.Pattern.Bracket

/-! Patterns are the written form of regular expressions. A reader takes one character at a time:
`step` says what a character does, `finish?` what was read. The reader holds the groups that are
open, so a pattern is read the same way inside a group as alone, up to a `)` that it leaves
unmatched. -/

namespace Packrat.Pattern
set_option autoImplicit false

def trimBlanks (text : List Char) : List Char :=
  ((text.dropWhile isBlank).reverse.dropWhile isBlank).reverse

def bound? (text : List Char) : Option Nat :=
  let digits := trimBlanks text
  let value := digits.foldl (fun n c => 10 * n + (c.toNat - '0'.toNat)) 0
  if digits ≠ [] ∧ digits.all Char.isDigit ∧ value < 0x100000000 then some value else none

/-- Bounds of a repetition, as they are written between braces. -/
def bounds? (text : List Char) : Option (Nat × Option Nat) :=
  match text.span (· ≠ ',') with
  | (least, []) => (bound? least).map fun n => (n, some n)
  | (least, [_]) => (bound? least).map fun n => (n, none)
  | (least, _ :: most) =>
    match bound? least, bound? most with
    | some m, some n => if m ≤ n then some (m, some n) else none
    | _, _ => none

structure Group where
  /-- Alternatives before the one being read, the last first. -/
  alternatives : List Piece
  pieces : List Piece
  /-- Whether `.` stands for `\n`, too. -/
  dotAll : Bool
  /-- Unless the group is a mere pair of parentheses. -/
  number? : Option Nat

namespace Group

def opened (dotAll : Bool) (number? : Option Nat) : Group := ⟨[], [], dotAll, number?⟩

def push (g : Group) (p : Piece) : Group := { g with pieces := p :: g.pieces }

def alternative (g : Group) : Piece := .cat g.pieces.reverse

def nextAlternative (g : Group) : Group :=
  { g with alternatives := g.alternative :: g.alternatives, pieces := [] }

def content (g : Group) : Piece := .anyOf (g.alternatives.reverse ++ [g.alternative])

end Group

inductive Mode where
  | plain
  | repeated (piece : Piece) (least : Nat) (most? : Option Nat)
  /-- In braces behind `piece`; their text, the last character first. A name may stand there. -/
  | bounds (piece : Piece) (text : List Char)
  | escape (m : EscapeMode)
  | bracket (b : Bracket)
  | opened
  /-- Behind `(?`. -/
  | marked
  /-- Behind `(?s`. -/
  | markedDotAll
  /-- Behind `(?P`. -/
  | markedName
  | name (text : List Char)

structure Reader where
  mode : Mode
  group : Group
  outer : List Group
  numbered : Nat
  /-- Names that groups have, each once; the letters in reverse. -/
  names : List (List Char)

namespace Reader

def start : Reader := ⟨.plain, .opened false none, [], 0, []⟩

def push (s : Reader) (p : Piece) : Reader :=
  { s with mode := .plain, group := s.group.push p }

def enter (s : Reader) (dotAll : Bool) : Reader :=
  { s with mode := .plain, group := .opened dotAll none, outer := s.group :: s.outer }

def enterNumbered (s : Reader) : Reader :=
  { s with
    mode := .plain
    group := .opened s.group.dotAll (some s.numbered)
    outer := s.group :: s.outer
    numbered := s.numbered + 1 }

def leave? (s : Reader) : Option Reader :=
  match s.outer with
  | [] => none
  | g :: outer =>
    some { s with mode := .plain, group := g.push (s.group.content.group s.group.number?), outer }

def repeat? (s : Reader) (mode : Piece → Mode) : Option Reader :=
  match s.group.pieces with
  | [] => none
  | piece :: pieces => some { s with mode := mode piece, group := { s.group with pieces } }

def dot (dotAll : Bool) : Regex :=
  .oneOf (if dotAll then CharSet.empty.compl else (CharSet.single '\n').compl)

def pushPlain (s : Reader) (r : Regex) : Reader := s.push (.plain r)

def pushEscaped (s : Reader) : Escaped → Reader
  | .char c => s.pushPlain (.literal [c])
  | .set set => s.pushPlain (.ofSet set)
  | .edge e => s.pushPlain (.edge e)

def plainStep (s : Reader) (c : Char) : Option Reader :=
  match c with
  | '(' => some { s with mode := .opened }
  | ')' => s.leave?
  | '|' => some { s with mode := .plain, group := s.group.nextAlternative }
  | '[' => some { s with mode := .bracket .start }
  | '*' => s.repeat? fun p => .repeated p 0 none
  | '+' => s.repeat? fun p => .repeated p 1 none
  | '?' => s.repeat? fun p => .repeated p 0 (some 1)
  | '\x7b' => s.repeat? fun p => .bounds p []
  | '\\' => some { s with mode := .escape .opened }
  | '.' => some (s.pushPlain (dot s.group.dotAll))
  | '^' => some (s.pushPlain (.edge .start))
  | '$' => some (s.pushPlain (.edge .finish))
  | c => some (s.pushPlain (.literal [c]))

/-- The edge of a word that `\b` means with a name in braces behind it. A `\b` in a group takes no
name. -/
def sideOfWord? (piece : Piece) (name : List Char) : Option Edge :=
  match piece with
  | ⟨.edge (.word words), 0⟩ =>
    [("start", Edge.wordStart words), ("end", .wordEnd words), ("start-half", .noWordBefore words),
      ("end-half", .noWordBehind words)].lookup (String.ofList name)
  | _ => none

/-- Any character beyond ASCII may be a letter. -/
def isNameStart (c : Char) : Bool := c.isAlpha || c = '_' || 128 ≤ c.toNat

def isNameRest (c : Char) : Bool :=
  isNameStart c || c.isDigit || c = '.' || c = '[' || c = ']'

def isName : List Char → Bool
  | [] => false
  | c :: rest => isNameStart c && rest.all isNameRest

/-- The letters of the name are in reverse. Of characters beyond ASCII it is not known which are
letters. -/
def enterNamed (s : Reader) (name : List Char) : Except Trouble Reader :=
  if !isName name.reverse then .error .refused
  else if name.any (128 ≤ ·.toNat) then .error .unknown
  else if name ∈ s.names then .error .refused
  else .ok { s.enterNumbered with names := name :: s.names }

/-- Flags are not read but for `s` alone. A `-` turns off those behind it. -/
def flagTrouble (known : List Char) (c : Char) : Trouble :=
  if c ∈ known then .unknown else .refused

def step (lib : Library) (s : Reader) (c : Char) : Except Trouble Reader :=
  match s.mode with
  | .plain => orRefused (s.plainStep c)
  | .repeated piece least most? =>
    if c = '?' then .ok (s.push (piece.times least most? false))
    else orRefused ((s.push (piece.times least most? true)).plainStep c)
  | .bounds piece text =>
    if c = '\x7d' then
      match bounds? text.reverse, sideOfWord? piece text.reverse with
      | some (least, most?), _ => .ok { s with mode := .repeated piece least most? }
      | none, some e => .ok (s.pushPlain (.edge e))
      | none, none => .error .refused
    else .ok { s with mode := .bounds piece (c :: text) }
  | .escape m =>
    match m.step lib c with
    | .ok (.inl m) => .ok { s with mode := .escape m }
    | .ok (.inr e) => .ok (s.pushEscaped e)
    | .error why => .error why
  | .bracket b =>
    match b.step lib c with
    | .ok (.inl b) => .ok { s with mode := .bracket b }
    | .ok (.inr p) => .ok (s.push p)
    | .error why => .error why
  | .opened =>
    if c = '?' then .ok { s with mode := .marked } else orRefused (s.enterNumbered.plainStep c)
  | .marked =>
    if c = ':' then .ok (s.enter s.group.dotAll)
    else if c = 's' then .ok { s with mode := .markedDotAll }
    else if c = 'P' then .ok { s with mode := .markedName }
    else if c = '<' then .ok { s with mode := .name [] }
    else .error (flagTrouble ['i', 'm', 'R', 'U', 'u', 'x', '-'] c)
  | .markedDotAll =>
    if c = ':' then .ok (s.enter true)
    else .error (flagTrouble ['i', 'm', 'R', 'U', 'u', 'x', '-', ')'] c)
  | .markedName => if c = '<' then .ok { s with mode := .name [] } else .error .refused
  | .name text => if c = '>' then s.enterNamed text else .ok { s with mode := .name (c :: text) }

def finish? (s : Reader) : Option Piece :=
  match s.outer, s.mode with
  | [], .plain => some s.group.content
  | [], .repeated piece least most? => some (s.push (piece.times least most? true)).group.content
  | _, _ => none

end Reader

/-- What a text writes, whatever its size. -/
def piece (lib : Library) (text : List Char) : Except Trouble Piece := do
  orRefused (← text.foldlM (Reader.step lib) Reader.start).finish?

/-- It is within the limits that patterns have. -/
def Piece.Allowed (lib : Library) (p : Piece) : Prop :=
  p.depth ≤ Piece.mostDepth ∧ lib.hasRoom p.regex

instance (lib : Library) (p : Piece) : Decidable (p.Allowed lib) :=
  inferInstanceAs (Decidable (_ ∧ _))

/-- The expression that a pattern writes. Read are characters and `.`, escapes, brackets with all
that may stand in them, groups, alternatives, repetitions and edges. Of what stands behind `(?`,
names in ASCII and `s:` are read; other flags are unknown, and so are properties of characters.
Where nothing unknown comes before, a text is refused if what has been read begins no pattern, if it
ends too early, or if it is not allowed. -/
def read (lib : Library) (text : List Char) : Except Trouble Regex := do
  let p ← piece lib text
  if p.Allowed lib then .ok p.regex else .error .refused

/-- The pattern in a group behind a mark for the start of the text. Only its text is put there: a
pattern with an unmatched `)` closes the group itself. -/
def anchored (text : List Char) : List Char := "\\A(?:".toList ++ text ++ [')']

end Packrat.Pattern
