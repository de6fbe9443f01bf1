import Packrat.Node
import Packrat.Program

/-! Values that steps of a script pass on. -/

namespace Packrat.Script
set_option autoImplicit false

inductive Value where
  | null
  | bool (b : Bool)
  | number (n : Nat)
  | text (s : String)
  | position (p : Position)
  | state (s : Snapshot)
  | node (n : Node)
  | error (e : Error)
  | list (items : List Value)
  | comparison (sameSource equal : Bool) (order? : Option Ordering)
  /-- A pattern that is none. -/
  | badPattern

namespace Value

def isTrue : Value → Bool
  | .null | .bool false => false
  | _ => true

def ofOption {α : Type} (f : α → Value) : Option α → Value
  | none => .null
  | some a => f a

def ofText? : Option String → Value := ofOption .text

end Value

end Packrat.Script
