import Std.Data.TreeMap
import Packrat.Program
import Packrat.Regex.Basic

/-! Grammars name rules and skippers. A name that is registered again stands for the later one. The
stock skippers pass over white space and comments. -/

namespace Packrat
set_option autoImplicit false

abbrev Rule (N σ : Type) := Params → Program N σ (Except Error N)

/-- Says whether it skipped anything. -/
abbrev Skipper (N σ : Type) := Program N σ (Except Error Bool)

structure Grammar (N σ : Type) where
  rules : Std.TreeMap String (Rule N σ)
  skippers : Std.TreeMap String (Skipper N σ)

namespace Grammar
variable {N σ : Type}

def empty : Grammar N σ := ⟨∅, ∅⟩

def rule (g : Grammar N σ) (name : String) (body : Rule N σ) : Grammar N σ :=
  { g with rules := g.rules.insert name body }

def skipper (g : Grammar N σ) (name : String) (body : Skipper N σ) : Grammar N σ :=
  { g with skippers := g.skippers.insert name body }

def inlineBlank : CharSet := .ofList [' ', '\t']
def notLineEnd : CharSet := (CharSet.single '\n').compl
def anyChar : CharSet := CharSet.empty.compl

/-- `\s+` -/
def blankRun : Regex := .rep (.oneOf .blank) 1 none true

/-- `//[^\n]*` -/
def lineComment : Regex := .seq (.literal ['/', '/']) (.rep (.oneOf notLineEnd) 0 none true)

/-- `/\*(?s:.*?)\*/` -/
def blockComment : Regex :=
  .seq (.literal ['/', '*']) (.seq (.rep (.oneOf anyChar) 0 none false) (.literal ['*', '/']))

def stock : List (String × Regex) :=
  [("whitespace", .seq (.edge .start) blankRun),
   ("inline_whitespace", .seq (.edge .start) (.rep (.oneOf inlineBlank) 1 none true)),
   ("line_comment", .seq (.edge .start) lineComment),
   ("whitespace_and_comments",
    .seq (.edge .start) (.rep (.alt blankRun (.alt lineComment blockComment)) 1 none true))]

def withStock : Grammar N σ :=
  stock.foldl (fun g (name, r) => g.skipper name (Program.skipRegex r)) empty

end Grammar

end Packrat
