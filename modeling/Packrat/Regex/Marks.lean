/-! Marks on places, which are numbers. -/

namespace Packrat
set_option autoImplicit false

structure Marks where
  /-- By places; those behind the end have no mark. -/
  flags : Array Bool

namespace Marks

def none : Marks := ⟨#[]⟩

def has (m : Marks) (place : Nat) : Bool := m.flags[place]?.getD false

def add (m : Marks) (place : Nat) : Marks :=
  if h : place < m.flags.size then ⟨m.flags.set place true h⟩
  else ⟨(m.flags ++ Array.replicate (place - m.flags.size) false).push true⟩

@[simp] theorem has_none (place : Nat) : none.has place = false := rfl

@[simp] theorem has_add (m : Marks) (place other : Nat) :
    (m.add place).has other = (other == place || m.has other) := by
  unfold add has
  split
  · simp only [Array.getElem?_set]
    split
    · simp_all
    · have : other ≠ place := Ne.symm (by assumption)
      simp [this]
  · simp only [Array.getElem?_push, Array.getElem?_append, Array.getElem?_replicate]
    grind

end Marks

end Packrat
