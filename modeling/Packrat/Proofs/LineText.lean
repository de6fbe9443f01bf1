import Packrat.Proofs.Caret

/-! The text that is shown of a line. It is the line's own text, without what ends it, wherever in the
line the offset is. Only at the end of a text that has no final `\n` nothing is taken off, so a `\r`
there is shown. -/

namespace Packrat
set_option autoImplicit false

section Text
variable {line before : List Char}

theorem splitOn_of_notMem (hline : '\n' ∉ line) : line.splitOn '\n' = [line] :=
  List.splitOnP_eq_singleton fun _ hc => beq_false_of_ne fun h => hline (h ▸ hc)

theorem splitOn_append_newline (hline : '\n' ∉ line) (text : List Char) :
    (line ++ '\n' :: text).splitOn '\n' = line :: text.splitOn '\n' := by
  have happend := List.splitOnP_append_cons (p := fun c => c == '\n') line text
    (beq_self_eq_true '\n')
  exact happend.trans (congrArg (· ++ text.splitOn '\n') (splitOn_of_notMem hline))

theorem splitOn_flatten_append {whole : List (List Char)} (h : ∀ line ∈ whole, Ended line)
    (text : List Char) : (whole.flatten ++ text).splitOn '\n' =
      whole.map List.dropLast ++ text.splitOn '\n' := by
  induction whole with
  | nil => rfl
  | cons line whole ih =>
    obtain ⟨⟨own, rfl, hown⟩, hwhole⟩ := List.forall_mem_cons.1 h
    rw [List.flatten_cons, List.append_assoc, List.append_assoc, List.singleton_append,
      splitOn_append_newline hown, ih hwhole, List.map_cons, List.dropLast_concat]
    rfl

theorem getLast?_lastLine_iff :
    (lastLine before).getLast? = some '\r' ↔ before.getLast? = some '\r' := by
  rcases List.eq_nil_or_concat' before with rfl | ⟨before, c, rfl⟩
  · rfl
  · by_cases hc : c = '\n'
    · subst hc
      simp [lastLine_append_newline]
    · rw [lastLine_append_singleton before hc, List.getLast?_concat, List.getLast?_concat]

theorem getLast?_trimLineEnd_ne (line : List Char) : (trimLineEnd line).getLast? ≠ some '\r' := by
  intro h
  rw [trimLineEnd, List.getLast?_reverse] at h
  have hkept := List.head?_dropWhile_not isLineEnd line.reverse
  rw [h] at hkept
  exact absurd hkept (by decide)

/-- A line is shown as it is unless it ends in `\r`. -/
theorem trimLineEnd_eq_self_iff (hline : '\n' ∉ line) :
    trimLineEnd line = line ↔ line.getLast? ≠ some '\r' := by
  constructor
  · intro h
    rw [← h]
    exact getLast?_trimLineEnd_ne line
  · intro h
    rcases List.eq_nil_or_concat' line with rfl | ⟨line, c, rfl⟩
    · rfl
    · have hc : isLineEnd c = false := by
        have hn : c ≠ '\n' := fun he => hline (by simp [he])
        have hr : c ≠ '\r' := fun he => h (by simp [he])
        simp [isLineEnd, hn, hr]
      simp [trimLineEnd, hc]

theorem Utf8.InFirst.lt_size {k : Nat} {text : List Char} (h : Utf8.InFirst k text)
    (htext : text ≠ []) : k < Utf8.size text := by
  cases text with
  | nil => exact absurd rfl htext
  | cons c text =>
    have hk : k < c.utf8Size := h
    rw [Utf8.size_cons]
    omega

end Text

namespace Source

/-- The line of a number: what the content has between two `\n`. -/
def line? (s : Source) (number : Nat) : Option (List Char) :=
  (s.content.splitOn '\n')[number - 1]?

/-- At the end of a text, or beyond it, that ends in `\r`. -/
def BeyondReturn (s : Source) (offset : Nat) : Prop :=
  Utf8.size s.content ≤ offset ∧ s.content.getLast? = some '\r'

/-- The line of a point is what is before it since the last `\n`, and goes on to the next. -/
theorem line?_eq {s : Source} {before rest : List Char} (htext : s.content = before ++ rest) :
    s.line? (1 + before.count '\n') = ((lastLine before ++ rest).splitOn '\n')[0]? := by
  obtain ⟨whole, -, hbefore, hlength, hended⟩ := exists_lines before rest
  have hsplit : s.content.splitOn '\n' =
      whole.map List.dropLast ++ (lastLine before ++ rest).splitOn '\n' := by
    rw [← splitOn_flatten_append hended, ← List.append_assoc, ← hbefore, htext]
  rw [line?, hsplit, ← hlength, Nat.add_sub_cancel_left, List.getElem?_append_right (by simp),
    List.length_map, Nat.sub_self]

/-- What is shown of an offset's line is the line without its end. Of a line that ends in `\r` at the
end of the text it is all. -/
theorem lineAt_text (s : Source) (offset : Nat) : ∃ line,
    s.line? (s.lineAt offset).number = some line ∧ '\n' ∉ line ∧
      (s.BeyondReturn offset ∧ (s.lineAt offset).text = line ∧ line.getLast? = some '\r' ∨
        ¬s.BeyondReturn offset ∧ (s.lineAt offset).text = trimLineEnd line) := by
  obtain ⟨before, rest, k, htext, hoffset, hk⟩ :=
    Utf8.exists_inFirst (Nat.min_le_right offset (Utf8.size s.content))
  have hnone := notMem_lastLine before
  rw [← lineAt_min, hoffset, lineAt_eq htext hk, line?_eq htext]
  by_cases hrest : rest = []
  · subst hrest
    obtain rfl : k = 0 := hk
    rw [List.append_nil] at htext
    have hbeyond : s.BeyondReturn offset ↔ (lastLine before).getLast? = some '\r' := by
      rw [BeyondReturn, getLast?_lastLine_iff, htext]
      rw [htext] at hoffset
      exact and_iff_right (by omega)
    rw [List.append_nil, splitOn_of_notMem hnone, shownLine, if_pos rfl]
    refine ⟨lastLine before, rfl, hnone, ?_⟩
    by_cases hreturn : (lastLine before).getLast? = some '\r'
    · exact .inl ⟨hbeyond.2 hreturn, rfl, hreturn⟩
    · exact .inr ⟨fun h => hreturn (hbeyond.1 h), ((trimLineEnd_eq_self_iff hnone).2 hreturn).symm⟩
  · have hbeyond : ¬s.BeyondReturn offset := by
      rintro ⟨hle, -⟩
      have hlt := Utf8.InFirst.lt_size hk hrest
      rw [htext, Utf8.size_append] at hle hoffset
      omega
    rw [shownLine, if_neg hrest]
    by_cases hnewline : '\n' ∈ rest
    · obtain ⟨own, later, rfl, hown⟩ := List.eq_append_cons_of_mem hnewline
      have hline : '\n' ∉ lastLine before ++ own := fun h =>
        (List.mem_append.1 h).elim hnone hown
      refine ⟨lastLine before ++ own, ?_, hline, .inr ⟨hbeyond, ?_⟩⟩
      · rw [← List.append_assoc, splitOn_append_newline hline]
        rfl
      · rw [firstLine, lines_append hown (List.cons_ne_nil '\n' later), List.headD_cons, firstLine,
          lines_cons_newline, List.headD_cons, ← List.append_assoc,
          trimLineEnd_append_of_forall (by simp [isLineEnd])]
    · have hline : '\n' ∉ lastLine before ++ rest := fun h =>
        (List.mem_append.1 h).elim hnone hnewline
      refine ⟨lastLine before ++ rest, ?_, hline, .inr ⟨hbeyond, ?_⟩⟩
      · rw [splitOn_of_notMem hline]
        rfl
      · rw [firstLine, lines_of_notMem hnewline hrest, List.headD_cons]

/-- All offsets of a line show one text of it, without its end, save those at or beyond the end of a
text that ends in `\r`: these show the line with its `\r`. -/
theorem one_text_a_line_iff (s : Source) :
    (∀ offset, ∃ line, s.line? (s.lineAt offset).number = some line ∧
        '\n' ∉ (s.lineAt offset).text ∧
        ((s.lineAt offset).text = trimLineEnd line ↔ ¬s.BeyondReturn offset) ∧
        ((s.lineAt offset).text.getLast? ≠ some '\r' ↔ ¬s.BeyondReturn offset) ∧
        (s.BeyondReturn offset → (s.lineAt offset).text = line)) ∧
      ∀ i j, (s.lineAt i).number = (s.lineAt j).number →
        ((s.lineAt i).text = (s.lineAt j).text ↔ (s.BeyondReturn i ↔ s.BeyondReturn j)) := by
  have htrim (line : List Char) (hline : '\n' ∉ line) (hreturn : line.getLast? = some '\r') :
      line ≠ trimLineEnd line := fun h => (trimLineEnd_eq_self_iff hline).1 h.symm hreturn
  constructor
  · intro offset
    obtain ⟨line, hline, hnone, ⟨hbeyond, htext, hreturn⟩ | ⟨hbeyond, htext⟩⟩ := s.lineAt_text offset
    · refine ⟨line, hline, ?_⟩
      rw [htext]
      exact ⟨hnone, by simp [hbeyond, htrim line hnone hreturn], by simp [hbeyond, hreturn],
        fun _ => rfl⟩
    · refine ⟨line, hline, ?_⟩
      rw [htext]
      exact ⟨fun h => hnone ((trimLineEnd_begins line).subset h), by simp [hbeyond],
        by simp [hbeyond, getLast?_trimLineEnd_ne line], fun h => absurd h hbeyond⟩
  · intro i j hnumber
    obtain ⟨line, hi, hnone, hi'⟩ := s.lineAt_text i
    obtain ⟨line', hj, -, hj'⟩ := s.lineAt_text j
    obtain rfl : line = line' := by simpa [← hnumber, hi] using hj
    rcases hi' with ⟨hbi, hti, hreturn⟩ | ⟨hbi, hti⟩ <;>
      rcases hj' with ⟨hbj, htj, hreturn⟩ | ⟨hbj, htj⟩
    · simp [hbi, hbj, hti, htj]
    · simp [hbi, hbj, hti, htj, htrim line hnone hreturn]
    · simp [hbi, hbj, hti, htj, (htrim line hnone hreturn).symm]
    · simp [hbi, hbj, hti, htj]

def mixedEnds : Source := ⟨0, "text", none, "a\r\r\nb\r".toList⟩

/-- Inside the first line's end, and inside and behind the last line. -/
theorem one_text_a_line_iff_mixedEnds :
    (mixedEnds.lineAt 2).number = (mixedEnds.lineAt 3).number ∧
      ((mixedEnds.lineAt 2).text = (mixedEnds.lineAt 3).text ↔
        (mixedEnds.BeyondReturn 2 ↔ mixedEnds.BeyondReturn 3)) ∧
      (mixedEnds.lineAt 4).number = (mixedEnds.lineAt 9).number ∧
      ((mixedEnds.lineAt 4).text = (mixedEnds.lineAt 9).text ↔
        (mixedEnds.BeyondReturn 4 ↔ mixedEnds.BeyondReturn 9)) := by
  obtain ⟨-, hsame⟩ := one_text_a_line_iff mixedEnds
  exact ⟨rfl, hsame 2 3 rfl, rfl, hsame 4 9 rfl⟩

def unendedReturn : Source := ⟨0, "text", none, "abc\r".toList⟩

/-- Line 1 is shown without the `\r` for the offsets in it and with the `\r` for its end. -/
theorem return_shown_at_end :
    (unendedReturn.lineAt 0).number = 1 ∧ (unendedReturn.lineAt 4).number = 1 ∧
      (unendedReturn.lineAt 0).text = "abc".toList ∧
      (unendedReturn.lineAt 4).text = "abc\r".toList := by
  decide

end Source

end Packrat
