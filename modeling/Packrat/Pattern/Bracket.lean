import Packrat.Pattern.Escape
import Packrat.Pattern.Named
import Packrat.Pattern.Piece

/-! Sets in brackets, read one character at a time. Items that stand side by side are joined, and
brackets are items of the brackets around them. `&&`, `--` and `~~` take all that is before them in
the same brackets as their left side. A dash stands for itself at the start, at the end and behind a
range; a `]` stands for itself where no item comes before it. -/

namespace Packrat.Pattern
set_option autoImplicit false

inductive SetOperator where
  | inter
  | diff
  | symmDiff

namespace SetOperator

/-- Written twice. -/
def ofChar? : Char → Option SetOperator
  | '&' => some .inter
  | '-' => some .diff
  | '~' => some .symmDiff
  | _ => none

def apply : SetOperator → CharSet → CharSet → CharSet
  | .inter => .inter
  | .diff => .diff
  | .symmDiff => .symmDiff

end SetOperator

/-- A set as it is written, with the depth to which its parts are nested. -/
structure SetPart where
  set : CharSet
  depth : Nat

structure Items where
  count : Nat
  set : CharSet
  depth : Nat

namespace Items

def none : Items := ⟨0, .empty, 0⟩

def add (s : Items) (item : SetPart) : Items :=
  ⟨s.count + 1, s.set.union item.set, max s.depth item.depth⟩

/-- Several items are a list, one is there by itself. -/
def part (s : Items) : SetPart := ⟨s.set, if 2 ≤ s.count then s.depth + 1 else s.depth⟩

end Items

structure Level where
  negated : Bool
  left? : Option (SetPart × SetOperator)
  items : Items

namespace Level

def opened : Level := ⟨false, none, .none⟩

def part (l : Level) : SetPart :=
  match l.left? with
  | some (left, o) =>
    ⟨o.apply left.set l.items.part.set, max left.depth l.items.part.depth + 1⟩
  | none => l.items.part

def operate (l : Level) (o : SetOperator) : Level := ⟨l.negated, some (l.part, o), .none⟩

def close (l : Level) : SetPart :=
  ⟨if l.negated then l.part.set.compl else l.part.set, l.part.depth + 1⟩

end Level

/-- The item that was read last in a bracket, for it may open a range. -/
inductive BracketMode where
  | opened
  /-- Only dashes, which stand for themselves, have been read. -/
  | leading
  | between
  /-- Behind an item; `bare?` is its character if it was not escaped. -/
  | behind (e : Escaped) (bare? : Option Char)
  | dashed (e : Escaped)
  /-- In an escape; with `first?` it closes a range. -/
  | escape (m : EscapeMode) (first? : Option Escaped)
  /-- In what may be written for a named set, the last character first. -/
  | named (text : List Char)

structure Bracket where
  mode : BracketMode
  level : Level
  outer : List Level

namespace Bracket

def start : Bracket := ⟨.opened, .opened, []⟩

def addPart (b : Bracket) (item : SetPart) (mode : BracketMode) : Bracket :=
  { b with mode, level := { b.level with items := b.level.items.add item } }

def add (b : Bracket) (set : CharSet) (mode : BracketMode) : Bracket := b.addPart ⟨set, 0⟩ mode

def add? (b : Bracket) (e : Escaped) : Option Bracket :=
  match e with
  | .char c => some (b.add (.single c) .between)
  | .set set => some (b.add set .between)
  | .edge _ => none

def addRange? (b : Bracket) : Escaped → Escaped → Option Bracket
  | .char first, .char last =>
    if first ≤ last then some (b.add (.range first last) .between) else none
  | _, _ => none

def negate (b : Bracket) : Bracket :=
  { b with mode := .leading, level := { b.level with negated := true } }

def operate (b : Bracket) (o : SetOperator) : Bracket :=
  { b with mode := .between, level := b.level.operate o }

def enter (b : Bracket) : Bracket := ⟨.opened, .opened, b.level :: b.outer⟩

def close (b : Bracket) : Bracket ⊕ Piece :=
  match b.outer with
  | [] => .inr ⟨.ofSet b.level.close.set, b.level.close.depth⟩
  | level :: outer => .inl (Bracket.addPart ⟨.between, level, outer⟩ b.level.close .between)

def itemStep (b : Bracket) (c : Char) : Bracket ⊕ Piece :=
  if c = '[' then .inl { b with mode := .named [c] }
  else if c = ']' then b.close
  else if c = '\\' then .inl { b with mode := .escape .opened none }
  else .inl { b with mode := .behind (.char c) (some c) }

def leadingStep (b : Bracket) (c : Char) : Bracket ⊕ Piece :=
  if c = '-' then .inl (b.add (.single '-') .leading)
  else if c = ']' ∧ b.level.items.count = 0 then .inl (b.add (.single ']') .between)
  else b.itemStep c

def plainStep (lib : Library) (b : Bracket) (c : Char) : Except Trouble (Bracket ⊕ Piece) :=
  match b.mode with
  | .opened =>
    .ok (if c = '^' then .inl b.negate else b.leadingStep c)
  | .leading => .ok (b.leadingStep c)
  | .between => .ok (b.itemStep c)
  | .behind e bare? =>
    if c = '-' ∧ bare? ≠ some c then .ok (.inl { b with mode := .dashed e })
    else
      match (bare?.filter (· = c)).bind SetOperator.ofChar? with
      | some o => .ok (.inl (b.operate o))
      | none => orRefused ((b.add? e).map fun b => b.itemStep c)
  | .dashed e =>
    if c = ']' then orRefused ((b.add? e).map fun b => (b.add (.single '-') .between).close)
    else if c = '-' then orRefused ((b.add? e).map fun b => .inl (b.operate .diff))
    else if c = '\\' then .ok (.inl { b with mode := .escape .opened (some e) })
    else orRefused ((b.addRange? e (.char c)).map .inl)
  | .escape m first? =>
    match m.step lib c, first? with
    | .ok (.inl m), _ => .ok (.inl { b with mode := .escape m first? })
    | .ok (.inr e), none => .ok (.inl { b with mode := .behind e none })
    | .ok (.inr e), some first => orRefused ((b.addRange? first e).map .inl)
    | .error why, _ => .error why
  | .named _ => .error .refused

def plainSteps (lib : Library) (b : Bracket) (cs : List Char) : Except Trouble Bracket :=
  cs.foldlM (fun b c => do orRefused (← b.plainStep lib c).getLeft?) b

/-- What is not written for a named set is a bracket inside. -/
def step (lib : Library) (b : Bracket) (c : Char) : Except Trouble (Bracket ⊕ Piece) :=
  match b.mode with
  | .named text =>
    let written := (c :: text).reverse
    match namedSets.lookup written with
    | some set => .ok (.inl (b.add set .between))
    | none =>
      if namedSets.any fun (long, _) => written.isPrefixOf long then
        .ok (.inl { b with mode := .named (c :: text) })
      else do (← b.enter.plainSteps lib text.reverse.tail).plainStep lib c
  | _ => b.plainStep lib c

end Bracket

end Packrat.Pattern
