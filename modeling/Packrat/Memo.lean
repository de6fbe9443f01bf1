import Std.Data.TreeMap

/-! The memo of a session: which rules were tried at which offsets, and whether they matched. -/

namespace Packrat
set_option autoImplicit false

namespace Memo

abbrev Key := Nat × String

def order : Key → Key → Ordering := compareLex (compareOn Prod.fst) (compareOn Prod.snd)

instance : Std.TransCmp order :=
  inferInstanceAs (Std.TransCmp (compareLex (compareOn Prod.fst) (compareOn Prod.snd)))

theorem order_eq_eq_iff {a b : Key} : order a b = .eq ↔ a = b := by
  simp [order, compareLex, compareOn, Ordering.then_eq_eq, Prod.ext_iff]

instance : Std.LawfulEqCmp order where
  eq_of_compare := order_eq_eq_iff.mp
  compare_self := order_eq_eq_iff.mpr rfl

end Memo

structure Memo where
  table : Std.TreeMap Memo.Key Bool Memo.order

namespace Memo

def empty : Memo := ⟨∅⟩

def get? (m : Memo) (offset : Nat) (rule : String) : Option Bool := m.table[(offset, rule)]?

/-- The later outcome for a key stands. -/
def insert (m : Memo) (offset : Nat) (rule : String) (matched : Bool) : Memo :=
  ⟨m.table.insert (offset, rule) matched⟩

def size (m : Memo) : Nat := m.table.size

@[simp] theorem get?_empty (offset : Nat) (rule : String) : empty.get? offset rule = none := by
  simp [empty, get?]

theorem get?_insert (m : Memo) (k l : Nat) (a b : String) (matched : Bool) :
    (m.insert k a matched).get? l b = if k = l ∧ a = b then some matched else m.get? l b := by
  simp only [insert, get?, Std.TreeMap.getElem?_insert, order_eq_eq_iff, Prod.mk.injEq]

@[simp] theorem size_empty : empty.size = 0 := Std.TreeMap.size_emptyc

theorem size_insert (m : Memo) (offset : Nat) (rule : String) (matched : Bool) :
    (m.insert offset rule matched).size =
      if m.get? offset rule = none then m.size + 1 else m.size := by
  have hc : m.table.contains (offset, rule) = (m.get? offset rule).isSome :=
    Std.TreeMap.contains_eq_isSome_getElem?
  simp only [insert, size, Std.TreeMap.size_insert, hc]
  cases m.get? offset rule <;> rfl

end Memo

end Packrat
