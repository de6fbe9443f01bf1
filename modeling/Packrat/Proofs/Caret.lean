import Packrat.Proofs.LineAt

/-! The line and column that a cursor has counted against those that are found again when its place
is shown. The line is found by its bytes and shown without what ends it. The caret is put under the
cursor's column unless the cursor is inside a line's end, where bytes are counted for characters. -/

namespace Packrat
set_option autoImplicit false

theorem trimLineEnd_append_of_forall {line more : List Char} (h : ∀ c ∈ more, isLineEnd c) :
    trimLineEnd (line ++ more) = trimLineEnd line := by
  have hmore : more.reverse.dropWhile isLineEnd = [] :=
    List.dropWhile_eq_nil_iff.2 fun c hc => h c (List.mem_reverse.1 hc)
  simp [trimLineEnd, List.dropWhile_append, hmore]

theorem trimLineEnd_begins (line : List Char) : trimLineEnd line <+: line := by
  have h := (List.dropWhile_suffix isLineEnd (l := line.reverse)).reverse
  rwa [List.reverse_reverse] at h

/-- Trimming takes from a line if it takes all that follows and the line's own last character. -/
theorem prefix_trimLineEnd_append_iff {line more : List Char} :
    line <+: trimLineEnd (line ++ more) ↔
      ¬((∀ c ∈ more, isLineEnd c) ∧ ∃ c ∈ line.getLast?, isLineEnd c) := by
  constructor
  · rintro h ⟨hmore, c, hlast, hc⟩
    obtain ⟨short, rfl⟩ := List.getLast?_eq_some_iff.1 hlast
    rw [trimLineEnd_append_of_forall hmore,
      trimLineEnd_append_of_forall (List.forall_mem_singleton.2 hc)] at h
    have hle := h.length_le.trans (trimLineEnd_begins short).length_le
    rw [List.length_append, List.length_singleton] at hle
    omega
  · intro h
    by_cases hmore : ∀ c ∈ more, isLineEnd c
    · rw [trimLineEnd_append_of_forall hmore]
      rcases List.eq_nil_or_concat' line with rfl | ⟨short, c, rfl⟩
      · exact List.nil_prefix
      · have hc : isLineEnd c = false := by
          simpa using fun hc => h ⟨hmore, c, List.getLast?_concat, hc⟩
        simp [trimLineEnd, hc]
    · have hdrop : more.reverse.dropWhile isLineEnd ≠ [] := fun hnil =>
        hmore fun c hc => List.dropWhile_eq_nil_iff.1 hnil c (List.mem_reverse.2 hc)
      simp [trimLineEnd, List.dropWhile_append, hdrop]

theorem Utf8.take?_eq_none {n : Nat} {text : List Char} (h : Utf8.size text < n) :
    Utf8.take? n text = none := by
  fun_induction Utf8.take? n text with
  | case1 => omega
  | case2 => rfl
  | case3 n c text hc ih =>
    rw [Utf8.size_cons] at h
    rw [ih (by omega)]
    rfl
  | case4 => rfl

/-- A text takes as many bytes as it has characters if none of them takes more than one. -/
theorem Utf8.size_eq_length_iff {text : List Char} :
    Utf8.size text = text.length ↔ ∀ c ∈ text, c.utf8Size = 1 := by
  induction text with
  | nil => simp
  | cons c text ih =>
    have hle := Utf8.length_le_size text
    have hc := c.utf8Size_pos
    rw [Utf8.size_cons, List.length_cons, List.forall_mem_cons, ← ih]
    omega

/-- Inside the end of its line, behind a `\r` of it. -/
def InLineEnd (before rest : List Char) : Prop :=
  rest ≠ [] ∧ (∀ c ∈ firstLine rest, isLineEnd c) ∧ (lastLine before).getLast? = some '\r'

/-- What is shown reaches the point unless that is inside the end of its line. -/
theorem prefix_shownLine_iff {before rest : List Char} :
    lastLine before <+: shownLine before rest ↔ ¬InLineEnd before rest := by
  have hend : (∃ c ∈ (lastLine before).getLast?, isLineEnd c) ↔
      (lastLine before).getLast? = some '\r' := by
    constructor
    · rintro ⟨c, hc, he⟩
      have hne : c ≠ '\n' := fun h => notMem_lastLine before (h ▸ List.mem_of_mem_getLast? hc)
      obtain rfl : c = '\r' := by simpa [isLineEnd, hne] using he
      exact hc
    · intro h
      exact ⟨'\r', h, rfl⟩
  rw [shownLine, InLineEnd]
  by_cases hrest : rest = []
  · simp [hrest]
  · rw [if_neg hrest, prefix_trimLineEnd_append_iff, hend]
    simp [hrest]

theorem InLineEnd.size_shownLine_lt {before rest : List Char} (h : InLineEnd before rest) :
    Utf8.size (shownLine before rest) < Utf8.size (lastLine before) := by
  have hnot : ¬lastLine before <+: shownLine before rest := fun hp => prefix_shownLine_iff.1 hp h
  have hshown : shownLine before rest = trimLineEnd (lastLine before) := by
    rw [shownLine, if_neg h.1, trimLineEnd_append_of_forall h.2.1]
  rw [hshown] at hnot ⊢
  exact Utf8.size_lt_of_begins (trimLineEnd_begins _) fun he => hnot (he.symm ▸ List.prefix_rfl)

namespace Position

/-- Behind a `\r` that is part of its line's end, where the line has a character of more than one
byte before it. -/
def PastWide (p : Position) : Prop :=
  ∃ before rest, p.Between before rest ∧ InLineEnd before rest ∧
    ∃ c ∈ lastLine before, c.utf8Size ≠ 1

theorem Between.pastWide_iff {p : Position} {before rest : List Char} (h : p.Between before rest) :
    p.PastWide ↔ InLineEnd before rest ∧ ∃ c ∈ lastLine before, c.utf8Size ≠ 1 := by
  constructor
  · rintro ⟨before', rest', h', hin, hchar⟩
    obtain ⟨rfl, rfl⟩ := h.unique h' rfl rfl
    exact ⟨hin, hchar⟩
  · rintro ⟨hin, hchar⟩
    exact ⟨before, rest, h, hin, hchar⟩

theorem Between.caretColumn_eq {p : Position} {before rest : List Char}
    (h : p.Between before rest) (hin : ¬InLineEnd before rest) :
    caretColumn (p.source.lineAt p.offset) = (lastLine before).length := by
  obtain ⟨after, hshown⟩ := prefix_shownLine_iff.2 hin
  rw [h.lineAt_eq, caretColumn, ← hshown, Utf8.take?_size_append]

theorem Between.caretColumn_eq_size {p : Position} {before rest : List Char}
    (h : p.Between before rest) (hin : InLineEnd before rest) :
    caretColumn (p.source.lineAt p.offset) = Utf8.size (lastLine before) := by
  rw [h.lineAt_eq, caretColumn, Utf8.take?_eq_none hin.size_shownLine_lt]

theorem Sound.caretColumn_eq_iff {p : Position} (h : p.Sound) :
    caretColumn (p.source.lineAt p.offset) = p.column - 1 ↔ ¬p.PastWide := by
  obtain ⟨before, rest, h⟩ := h
  have hcolumn : p.column - 1 = (lastLine before).length := by
    rw [h.column]
    omega
  rw [hcolumn, h.pastWide_iff]
  by_cases hin : InLineEnd before rest
  · rw [h.caretColumn_eq_size hin, Utf8.size_eq_length_iff]
    simp [hin]
  · rw [h.caretColumn_eq hin]
    simp [hin]

/-- What is shown of a place: its name and coordinates, its line, and a caret below it. -/
def block (p : Position) (text : List Char) (indent : Nat) : String :=
  "-> " ++ p.toText ++ "\n" ++ spaces (toString p.line).length ++ " |\n" ++
    toString p.line ++ " | " ++ String.ofList text ++ "\n" ++
    spaces (toString p.line).length ++ " | " ++ spaces indent ++ "^"

theorem block_inj {p : Position} {text : List Char} {i j : Nat}
    (h : p.block text i = p.block text j) : i = j := by
  have hlength := congrArg String.length h
  dsimp only [block] at hlength
  simp only [String.length_append, spaces, String.length_ofList,
    List.length_replicate] at hlength
  omega

theorem Sound.describe_eq {p : Position} (h : p.Sound) :
    p.describe = p.block (p.source.lineAt p.offset).text
      (caretColumn (p.source.lineAt p.offset)) := by
  obtain ⟨before, rest, h⟩ := h
  dsimp only [describe, block]
  rw [h.lineAt_eq]

end Position

/-- The block of a place that reading comes to shows the place's own line, and the caret under its
column unless the place is inside a line's end, behind a character of more than one byte. -/
theorem caret_under_column_iff {s : Source} {c : Cursor} (h : c.Reached s) :
    (s.lineAt c.offset).number = c.line ∧
      (c.position.describe = c.position.block (s.lineAt c.offset).text (c.column - 1) ↔
        ¬c.position.PastWide) := by
  have hsound : c.position.Sound := h.sound
  have hsource : c.position.source = s := h.source
  constructor
  · obtain ⟨before, rest, hb⟩ := h.sound
    have hline := congrArg LineAt.number hb.lineAt_eq
    rwa [hsource] at hline
  · rw [hsound.describe_eq, ← hsound.caretColumn_eq_iff, hsource]
    exact ⟨Position.block_inj, fun heq => congrArg _ heq⟩

def wideLine : Source := ⟨0, "wide.pt", none, "é\r\n".toList⟩

/-- Between the `é` and the `\r` the caret is right. -/
theorem caret_under_column_iff_wideLine :
    (⟨wideLine, 2, 1, 2⟩ : Cursor).Reached wideLine ∧
      (wideLine.lineAt 2).number = 1 ∧
      ((⟨2, 1, 2, wideLine⟩ : Position).describe =
          (⟨2, 1, 2, wideLine⟩ : Position).block (wideLine.lineAt 2).text 1 ↔
        ¬(⟨2, 1, 2, wideLine⟩ : Position).PastWide) := by
  have hadvance : (Call.advance 2 : Call Unit).reading? (N := Unit) = some _ := rfl
  have h : (⟨wideLine, 2, 1, 2⟩ : Cursor).Reached wideLine := .read .start hadvance rfl
  exact ⟨h, caret_under_column_iff h⟩

/-- Between the `\r` and the `\n` it is one column too far. -/
theorem caret_beyond_column :
    (⟨wideLine, 3, 1, 3⟩ : Cursor).Reached wideLine ∧
      (⟨3, 1, 3, wideLine⟩ : Position).describe =
        (⟨3, 1, 3, wideLine⟩ : Position).block ['é'] 3 ∧
      (⟨3, 1, 3, wideLine⟩ : Position).describe ≠
        (⟨3, 1, 3, wideLine⟩ : Position).block ['é'] (3 - 1) := by
  have hadvance : (Call.advance 3 : Call Unit).reading? (N := Unit) = some _ := rfl
  have h : (⟨wideLine, 3, 1, 3⟩ : Cursor).Reached wideLine := .read .start hadvance rfl
  have hshown : (⟨3, 1, 3, wideLine⟩ : Position).describe =
      (⟨3, 1, 3, wideLine⟩ : Position).block ['é'] 3 :=
    Position.Sound.describe_eq h.sound
  refine ⟨h, hshown, fun heq => ?_⟩
  exact absurd (Position.block_inj (hshown.symm.trans heq)) (by decide)

end Packrat
