import Packrat.Regex.Net

/-! What an expression takes of a text. It is read where a text begins; a match elsewhere is found
by a search, which tries one gap after the other. -/

namespace Packrat.Regex
set_option autoImplicit false

def eaten? (r : Regex) (text : List Char) : Option (List Char) :=
  (r.length? none text).map text.take

/-- How many characters stand before the leftmost match, of them `skipped` before this text, and how
many it takes. -/
def searchFrom (r : Regex) (before? : Option Char) (skipped : Nat) : List Char → Option (Nat × Nat)
  | [] => (r.length? before? []).map fun n => (skipped, n)
  | c :: rest =>
    match r.length? before? (c :: rest) with
    | some n => some (skipped, n)
    | none => r.searchFrom (some c) (skipped + 1) rest

def search (r : Regex) (text : List Char) : Option (Nat × Nat) := r.searchFrom none 0 text

theorem le_of_searchFrom {r : Regex} {text : List Char} : ∀ {before? : Option Char}
    {skipped start n : Nat}, r.searchFrom before? skipped text = some (start, n) →
    skipped ≤ start := by
  induction text with
  | nil =>
    intro before? skipped start n h
    obtain ⟨_, _, h⟩ := Option.map_eq_some_iff.1 h
    exact Nat.le_of_eq (Prod.mk.inj h).1
  | cons c rest ih =>
    intro before? skipped start n h
    unfold searchFrom at h
    split at h
    · exact Nat.le_of_eq (Prod.mk.inj (Option.some.inj h)).1
    · exact Nat.le_of_succ_le (ih h)

/-- It is the leftmost match if that one has nothing before it. -/
theorem eaten?_eq_search (r : Regex) (text : List Char) :
    r.eaten? text =
      match r.search text with
      | some (0, n) => some (text.take n)
      | _ => none := by
  unfold eaten? search
  cases text with
  | nil => unfold searchFrom; cases r.length? none [] <;> rfl
  | cons c rest =>
    unfold searchFrom
    cases r.length? none (c :: rest) with
    | some n => rfl
    | none =>
      cases h : r.searchFrom (some c) (0 + 1) rest with
      | none => rfl
      | some m =>
        obtain ⟨start, n⟩ := m
        obtain ⟨start, rfl⟩ := Nat.exists_eq_add_of_le' (le_of_searchFrom h)
        rfl

theorem append_of_eaten? {r : Regex} {text eaten : List Char} (h : r.eaten? text = some eaten) :
    ∃ rest, text = eaten ++ rest := by
  obtain ⟨n, _, rfl⟩ := Option.map_eq_some_iff.1 h
  exact ⟨text.drop n, (List.take_append_drop n text).symm⟩

/-! Rounds that take nothing, and edges in a loop. -/

/-- `(?:.*?)*b` -/
example : (seq (.rep (.rep (.oneOf (CharSet.single '\n').compl) 0 none false) 0 none true)
    (.literal ['b'])).eaten? "abbaa".toList = some ['a', 'b'] := by decide +kernel

/-- `(?:\b|a)*` -/
example :
    (Regex.rep (.alt (.edge (.word (.range 'a' 'z'))) (.literal ['a'])) 0 none true).eaten?
      "aa".toList = some [] := by
  decide +kernel

end Packrat.Regex
