import Packrat.Regex.Basic

/-! Escapes of patterns. A backslash makes most ASCII characters stand for themselves; `<`, `>`
and a few letters name a character, a set or an edge, and three letters are followed by a code
point in hexadecimal. Which characters are digits or make up words, and how much an expression may
take when it is compiled, is known to the library that compiles patterns. -/

namespace Packrat.Pattern
set_option autoImplicit false

/-- What is taken from the library that compiles patterns. -/
structure Library where
  /-- What `\d` stands for. -/
  digits : CharSet
  /-- What `\w` stands for, and what words are made of where one begins or ends. -/
  words : CharSet
  /-- Whether an expression is within the limit on what it takes when it is compiled. -/
  hasRoom : Regex → Bool

/-- Why a text is not read. -/
inductive Trouble where
  /-- It is no pattern. -/
  | refused
  /-- It goes on with syntax that is not read here: it may be a pattern or not. -/
  | unknown
  deriving DecidableEq

def orRefused {α : Type} : Option α → Except Trouble α
  | some a => .ok a
  | none => .error .refused

@[simp] theorem orRefused_eq_ok_iff {α : Type} {x : Option α} {a : α} :
    orRefused x = .ok a ↔ x = some a := by
  cases x <;> simp [orRefused]

theorem orRefused_map {α β : Type} (f : α → β) (x : Option α) :
    orRefused (x.map f) = (orRefused x).map f := by
  cases x <;> rfl

inductive Escaped where
  | char (c : Char)
  | set (set : CharSet)
  | edge (e : Edge)

/-- How far an escape has been read behind its backslash. -/
inductive EscapeMode where
  | opened
  /-- After `\x` or its like, which takes `width` digits or any number in braces. -/
  | hex (width : Nat)
  | hexDigits (value : Nat) (missing : Nat)
  | hexBraces (value? : Option Nat)

def hexValue? (c : Char) : Option Nat :=
  if '0' ≤ c ∧ c ≤ '9' then some (c.toNat - '0'.toNat)
  else if 'a' ≤ c ∧ c ≤ 'f' then some (c.toNat - 'a'.toNat + 10)
  else if 'A' ≤ c ∧ c ≤ 'F' then some (c.toNat - 'A'.toNat + 10)
  else none

def charOf? (code : Nat) : Option Char :=
  if code.isValidChar then some (Char.ofNat code) else none

/-- `\p` and `\P` are followed by the name of a property. -/
def namedEscape (lib : Library) (c : Char) : Except Trouble (EscapeMode ⊕ Escaped) :=
  match c with
  | 'a' => .ok (.inr (.char '\x07'))
  | 'f' => .ok (.inr (.char '\x0c'))
  | 't' => .ok (.inr (.char '\t'))
  | 'n' => .ok (.inr (.char '\n'))
  | 'r' => .ok (.inr (.char '\r'))
  | 'v' => .ok (.inr (.char '\x0b'))
  | 'A' => .ok (.inr (.edge .start))
  | 'z' => .ok (.inr (.edge .finish))
  | 'b' => .ok (.inr (.edge (.word lib.words)))
  | 'B' => .ok (.inr (.edge (.noWord lib.words)))
  | '<' => .ok (.inr (.edge (.wordStart lib.words)))
  | '>' => .ok (.inr (.edge (.wordEnd lib.words)))
  | 's' => .ok (.inr (.set .blank))
  | 'S' => .ok (.inr (.set CharSet.blank.compl))
  | 'd' => .ok (.inr (.set lib.digits))
  | 'D' => .ok (.inr (.set lib.digits.compl))
  | 'w' => .ok (.inr (.set lib.words))
  | 'W' => .ok (.inr (.set lib.words.compl))
  | 'x' => .ok (.inl (.hex 2))
  | 'u' => .ok (.inl (.hex 4))
  | 'U' => .ok (.inl (.hex 8))
  | 'p' | 'P' => .error .unknown
  | _ => .error .refused

/-- ASCII characters other than letters and digits stand for themselves, but for `<` and `>`. -/
def isEscapable (c : Char) : Bool :=
  c.toNat < 128 && !c.isAlphanum && c != '<' && c != '>'

def hexStep (value missing : Nat) (c : Char) : Option (EscapeMode ⊕ Escaped) :=
  match hexValue? c, missing with
  | some d, n + 2 => some (.inl (.hexDigits (16 * value + d) (n + 1)))
  | some d, _ => (charOf? (16 * value + d)).map fun c => .inr (.char c)
  | none, _ => none

def bracesStep (value? : Option Nat) (c : Char) : Option (EscapeMode ⊕ Escaped) :=
  if c = '\x7d' then (value?.bind charOf?).map fun c => .inr (.char c)
  else (hexValue? c).map fun d => .inl (.hexBraces (some (16 * value?.getD 0 + d)))

def EscapeMode.step (lib : Library) : EscapeMode → Char → Except Trouble (EscapeMode ⊕ Escaped)
  | .opened, c => if isEscapable c then .ok (.inr (.char c)) else namedEscape lib c
  | .hex width, c =>
    if c = '\x7b' then .ok (.inl (.hexBraces none)) else orRefused (hexStep 0 width c)
  | .hexDigits value missing, c => orRefused (hexStep value missing c)
  | .hexBraces value?, c => orRefused (bracesStep value? c)

end Packrat.Pattern
