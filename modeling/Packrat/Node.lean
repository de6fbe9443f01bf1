import Packrat.Position

/-! Syntax trees for grammars that need none of their own: a kind, the point where the match began,
an optional text and the parts in order. -/

namespace Packrat
set_option autoImplicit false

structure Node where
  kind : String
  position : Position
  value? : Option String
  children : List Node

namespace Node

def leaf (kind : String) (p : Position) : Node := ⟨kind, p, none, []⟩

def withValue (n : Node) (value : String) : Node := { n with value? := some value }

def push (n child : Node) : Node := { n with children := n.children ++ [child] }

def child? (n : Node) (kind : String) : Option Node := n.children.find? (·.kind = kind)

mutual

def beq : Node → Node → Bool
  | ⟨kind, p, value?, children⟩, ⟨kind', p', value?', children'⟩ =>
    kind == kind' && p == p' && value? == value?' && beqAll children children'

def beqAll : List Node → List Node → Bool
  | [], [] => true
  | n :: ns, m :: ms => beq n m && beqAll ns ms
  | _, _ => false

end

instance : BEq Node := ⟨beq⟩

mutual

/-- The trees of a tree, each before its parts, with their depths. -/
def preorder (depth : Nat) : Node → List (Nat × Node)
  | ⟨kind, p, value?, children⟩ =>
    (depth, ⟨kind, p, value?, children⟩) :: preorderAll (depth + 1) children

def preorderAll (depth : Nat) : List Node → List (Nat × Node)
  | [] => []
  | n :: ns => preorder depth n ++ preorderAll depth ns

end

end Node

end Packrat
