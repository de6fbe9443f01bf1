import Mathlib.Data.Finset.Image
import Mathlib.Data.Finset.Range
import Packrat.Proofs.Place

/-! Offsets of a text. The boundaries are those between characters; what lies between two of them is
a text of its own. Any other offset is inside the character behind the last boundary before it. -/

namespace Packrat
set_option autoImplicit false

namespace Utf8

theorem take?_size_append (a b : List Char) : take? (size a) (a ++ b) = some a := by
  induction a with
  | nil => cases b <;> rfl
  | cons c a ih =>
    obtain ⟨k, hk⟩ := Nat.exists_eq_succ_of_ne_zero (Nat.ne_of_gt c.utf8Size_pos)
    have h : size (c :: a) = (k + size a) + 1 := by
      rw [size_cons]
      omega
    rw [h, List.cons_append, take?, if_pos (by omega),
      show k + size a + 1 - c.utf8Size = size a by omega, ih]
    rfl

theorem take?_eq_some_iff {n : Nat} {text a : List Char} :
    take? n text = some a ↔ ∃ b, text = a ++ b ∧ size a = n := by
  constructor
  · fun_induction take? n text generalizing a with
    | case1 text =>
      rintro ⟨⟩
      exact ⟨text, rfl, rfl⟩
    | case2 => simp
    | case3 n c text hc ih =>
      intro h
      obtain ⟨a, ha, rfl⟩ := Option.map_eq_some_iff.1 h
      obtain ⟨b, rfl, hsize⟩ := ih ha
      exact ⟨b, rfl, by rw [size_cons, hsize]; omega⟩
    | case4 => simp
  · rintro ⟨b, rfl, rfl⟩
    exact take?_size_append a b

theorem size_lt_of_begins {a b : List Char} (h : a <+: b) (hne : a ≠ b) : size a < size b := by
  obtain ⟨more, rfl⟩ := h
  cases more with
  | nil => exact absurd (List.append_nil a).symm hne
  | cons c more =>
    have hc := c.utf8Size_pos
    rw [size_append, size_cons]
    omega

/-- Of two beginnings of a text the shorter one begins the other. -/
theorem begins_of_size_le {a b text : List Char} (ha : a <+: text) (hb : b <+: text)
    (h : size a ≤ size b) : a <+: b := by
  rcases List.prefix_or_prefix_of_prefix ha hb with hab | hba
  · exact hab
  · by_cases heq : b = a
    · exact heq ▸ List.prefix_rfl
    · have hlt := size_lt_of_begins hba heq
      omega

@[simp] theorem cover_nil (n : Nat) : cover n [] = [] := by
  cases n <;> rfl

theorem cover_cons {n : Nat} (hn : 0 < n) (c : Char) (text : List Char) :
    cover n (c :: text) = c :: cover (n - c.utf8Size) text := by
  obtain ⟨k, rfl⟩ := Nat.exists_eq_succ_of_ne_zero (Nat.ne_of_gt hn)
  rfl

theorem cover_size_append (a b : List Char) : cover (size a) (a ++ b) = a := by
  induction a with
  | nil => cases b <;> rfl
  | cons c a ih =>
    have hc := c.utf8Size_pos
    rw [List.cons_append, size_cons, cover_cons (by omega), Nat.add_sub_cancel_left, ih]

/-- More bytes than there are cover no more than all. -/
theorem cover_min (n : Nat) (text : List Char) : cover (min n (size text)) text = cover n text := by
  induction text generalizing n with
  | nil => simp
  | cons c text ih =>
    have hc := c.utf8Size_pos
    rcases Nat.eq_zero_or_pos n with rfl | hn
    · simp
    · rw [size_cons, cover_cons (by omega), cover_cons hn, ← ih (n - c.utf8Size)]
      congr 2
      omega

theorem le_size_cover {n : Nat} {text : List Char} (hn : n ≤ size text) :
    n ≤ size (cover n text) := by
  induction text generalizing n with
  | nil => simpa using hn
  | cons c text ih =>
    rcases Nat.eq_zero_or_pos n with rfl | hpos
    · exact Nat.zero_le _
    · rw [size_cons] at hn
      have hle := ih (n := n - c.utf8Size) (by omega)
      rw [cover_cons hpos, size_cons]
      omega

/-- What covers a number of bytes is no longer than any beginning of the text that has as many. -/
theorem size_cover_le {n : Nat} {a : List Char} (b : List Char) (hn : n ≤ size a) :
    size (cover n (a ++ b)) ≤ size a := by
  induction a generalizing n with
  | nil =>
    obtain rfl : n = 0 := by simpa using hn
    cases b <;> exact Nat.le_refl 0
  | cons c a ih =>
    rcases Nat.eq_zero_or_pos n with rfl | hpos
    · exact Nat.zero_le _
    · rw [size_cons] at hn
      have hle := ih (n := n - c.utf8Size) (by omega)
      rw [List.cons_append, cover_cons hpos, size_cons, size_cons]
      omega

/-- An offset that many bytes behind the start of the text is not behind its first character. -/
def InFirst (k : Nat) : List Char → Prop
  | [] => k = 0
  | c :: _ => k < c.utf8Size

theorem inFirst_zero (text : List Char) : InFirst 0 text := by
  cases text with
  | nil => rfl
  | cons c text => exact c.utf8Size_pos

theorem InFirst.le_size {k : Nat} {text : List Char} (h : InFirst k text) : k ≤ size text := by
  cases text with
  | nil => exact Nat.le_of_eq h
  | cons c text =>
    have hk : k < c.utf8Size := h
    rw [size_cons]
    omega

theorem exists_inFirst {n : Nat} {text : List Char} (hn : n ≤ size text) :
    ∃ before rest k, text = before ++ rest ∧ n = size before + k ∧ InFirst k rest := by
  induction text generalizing n with
  | nil => exact ⟨[], [], 0, rfl, by simpa using hn, rfl⟩
  | cons c text ih =>
    by_cases hc : n < c.utf8Size
    · exact ⟨[], c :: text, n, rfl, by simp, hc⟩
    · rw [size_cons] at hn
      obtain ⟨before, rest, k, rfl, hk, hin⟩ := ih (n := n - c.utf8Size) (by omega)
      exact ⟨c :: before, rest, k, rfl, by rw [size_cons]; omega, hin⟩

end Utf8

namespace Source

/-- The offsets between characters, those before the first and behind the last included. -/
def boundaries (s : Source) : Finset Nat :=
  (Finset.range (s.content.length + 1)).image fun k => Utf8.size (s.content.take k)

theorem mem_boundaries_iff {s : Source} {offset : Nat} : offset ∈ s.boundaries ↔
    ∃ before rest, s.content = before ++ rest ∧ Utf8.size before = offset := by
  constructor
  · intro h
    obtain ⟨k, -, hk⟩ := Finset.mem_image.1 h
    exact ⟨_, _, (List.take_append_drop k s.content).symm, hk⟩
  · rintro ⟨before, rest, htext, hsize⟩
    refine Finset.mem_image.2 ⟨before.length, Finset.mem_range.2 ?_, ?_⟩
    · rw [htext, List.length_append]
      omega
    · rwa [htext, List.take_left]

/-- The text between two offsets, if they are boundaries in that order. -/
def slice? (s : Source) (start stop : Nat) : Option (List Char) :=
  if start ≤ stop then (Utf8.drop? start s.content).bind (Utf8.take? (stop - start)) else none

theorem slice?_eq {s : Source} {before text rest : List Char}
    (h : s.content = before ++ text ++ rest) :
    s.slice? (Utf8.size before) (Utf8.size (before ++ text)) = some text := by
  have hdrop : Utf8.drop? (Utf8.size before) s.content = some (text ++ rest) := by
    rw [h, List.append_assoc, Utf8.drop?_size_append]
  rw [slice?, Utf8.size_append, if_pos (by omega), hdrop, Option.bind_some,
    Nat.add_sub_cancel_left, Utf8.take?_size_append]

end Source

theorem Cursor.Sound.mem_boundaries {c : Cursor} (h : c.Sound) :
    c.offset ∈ c.source.boundaries := by
  obtain ⟨before, rest, hb⟩ := h
  exact Source.mem_boundaries_iff.2 ⟨before, rest, hb.text, hb.offset.symm⟩

end Packrat
