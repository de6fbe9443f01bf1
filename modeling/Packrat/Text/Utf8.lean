/-! Texts are lists of characters and offsets count their UTF-8 bytes. `size` is the length of a
text in bytes, `drop?` the text behind an offset, `cover` the whole characters a byte count reaches.
An offset inside a character has no text behind it. -/

namespace Packrat.Utf8
set_option autoImplicit false

def size : List Char → Nat
  | [] => 0
  | c :: text => c.utf8Size + size text

/-- The text behind the first `n` bytes; none if they are too many or end inside a character. -/
def drop? : Nat → List Char → Option (List Char)
  | 0, text => some text
  | _ + 1, [] => none
  | n + 1, c :: text =>
    if c.utf8Size ≤ n + 1 then drop? (n + 1 - c.utf8Size) text else none

def take? : Nat → List Char → Option (List Char)
  | 0, _ => some []
  | _ + 1, [] => none
  | n + 1, c :: text =>
    if c.utf8Size ≤ n + 1 then (take? (n + 1 - c.utf8Size) text).map (c :: ·) else none

/-- The fewest whole characters that take at least `n` bytes, or all of them. -/
def cover : Nat → List Char → List Char
  | 0, _ => []
  | _ + 1, [] => []
  | n + 1, c :: text => c :: cover (n + 1 - c.utf8Size) text

@[simp] theorem size_nil : size [] = 0 := rfl

@[simp] theorem size_cons (c : Char) (text : List Char) :
    size (c :: text) = c.utf8Size + size text := rfl

@[simp] theorem size_append (a b : List Char) : size (a ++ b) = size a + size b := by
  induction a with
  | nil => simp
  | cons c a ih => simp [ih, Nat.add_assoc]

@[simp] theorem drop?_zero (text : List Char) : drop? 0 text = some text := by
  cases text <;> rfl

theorem drop?_cons_size (c : Char) (n : Nat) (text : List Char) :
    drop? (c.utf8Size + n) (c :: text) = drop? n text := by
  obtain ⟨k, hk⟩ := Nat.exists_eq_succ_of_ne_zero (Nat.ne_of_gt c.utf8Size_pos)
  have h : c.utf8Size + n = (k + n) + 1 := by omega
  rw [h, drop?, if_pos (by omega)]
  congr 1
  omega

/-- An offset found by reading a text from its start leads to what is left of it. -/
theorem drop?_size_append (a b : List Char) : drop? (size a) (a ++ b) = some b := by
  induction a with
  | nil => simp
  | cons c a ih => rw [List.cons_append, size_cons, drop?_cons_size, ih]

theorem drop?_eq_some_iff {n : Nat} {text b : List Char} :
    drop? n text = some b ↔ ∃ a, text = a ++ b ∧ size a = n := by
  constructor
  · fun_induction drop? n text with
    | case1 text => intro h; exact ⟨[], by simpa using h, rfl⟩
    | case2 => simp
    | case3 n c text hc ih =>
      intro h
      obtain ⟨a, rfl, ha⟩ := ih h
      exact ⟨c :: a, rfl, by rw [size_cons, ha]; omega⟩
    | case4 => simp
  · rintro ⟨a, rfl, rfl⟩
    exact drop?_size_append a b

end Packrat.Utf8
