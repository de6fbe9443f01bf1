/-! Faults end a run at once. They are no answers of a grammar: a program that meets one has broken
a rule of use, and nothing after it is run. -/

namespace Packrat
set_option autoImplicit false

inductive Fault where
  /-- Text was asked for at an offset beyond the end or inside a character. -/
  | offBoundary
  | overflow
  /-- An operation was given a value that it has no meaning for. -/
  | misuse
  deriving DecidableEq, Repr

def wordSize : Nat := 0x10000000000000000

def addCount (m n : Nat) : Except Fault Nat :=
  if m + n < wordSize then .ok (m + n) else .error .overflow

theorem addCount_eq_ok_iff {m n k : Nat} :
    addCount m n = .ok k ↔ m + n < wordSize ∧ m + n = k := by
  unfold addCount
  by_cases h : m + n < wordSize <;> simp [h]

end Packrat
