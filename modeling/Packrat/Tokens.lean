import Std.Data.TreeMap

/-! Literal tokens: names that stand for a text of their own where the grammar has no rule. The
first registration of a name is kept for ever. -/

namespace Packrat
set_option autoImplicit false

structure Tokens where
  table : Std.TreeMap String String

namespace Tokens

def empty : Tokens := ⟨∅⟩

def literal? (t : Tokens) (id : String) : Option String := t.table[id]?

def size (t : Tokens) : Nat := t.table.size

def add (t : Tokens) (id literal : String) : Tokens :=
  match t.literal? id with
  | some _ => t
  | none => ⟨t.table.insert id literal⟩

@[simp] theorem literal?_empty (id : String) : empty.literal? id = none := by
  simp [empty, literal?]

theorem literal?_add (t : Tokens) (id literal other : String) :
    (t.add id literal).literal? other =
      if id = other then some ((t.literal? id).getD literal) else t.literal? other := by
  unfold add
  split
  · next found h =>
    split
    · next heq => rw [← heq, h, Option.getD_some]
    · rfl
  · next h =>
    have hget (k : String) : (⟨t.table.insert id literal⟩ : Tokens).literal? k =
        if id = k then some literal else t.literal? k := by
      simp [literal?, Std.TreeMap.getElem?_insert]
    rw [hget, h, Option.getD_none]

end Tokens

end Packrat
