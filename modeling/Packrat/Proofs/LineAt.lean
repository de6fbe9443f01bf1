import Mathlib.Data.List.Induction
import Mathlib.Data.List.TakeWhile
import Packrat.Proofs.Offsets
import Packrat.Proofs.Reading

/-! The line of an offset. What is before the offset is a number of whole lines and a part of its
own, also where it is inside a character or behind the text; the scan passes the whole lines and
stops at the own one. So the number is counted by the `\n` before the offset, and the bytes by those
behind the last of them. -/

namespace Packrat
set_option autoImplicit false

section Lines
variable {line text before rest : List Char}

/-- The first line of a text, with its `\n`. -/
def firstLine (text : List Char) : List Char := (lines text).headD []

theorem lines_cons_newline (text : List Char) : lines ('\n' :: text) = ['\n'] :: lines text := by
  simp [lines]

theorem lines_eq_nil_iff : lines text = [] ↔ text = [] := by
  constructor
  · intro h
    simpa [h] using (flatten_lines text).symm
  · rintro rfl
    rfl

theorem lines_eq_cons (h : text ≠ []) : lines text = firstLine text :: (lines text).tail := by
  cases hl : lines text with
  | nil => exact absurd (lines_eq_nil_iff.1 hl) h
  | cons line later => simp [firstLine, hl]

/-- A line grows to the left by what has no `\n` in it. -/
theorem lines_append (hline : '\n' ∉ line) (htext : text ≠ []) :
    lines (line ++ text) = (line ++ firstLine text) :: (lines text).tail := by
  induction line with
  | nil => exact lines_eq_cons htext
  | cons c line ih =>
    have hc : c ≠ '\n' := fun h => hline (h ▸ List.mem_cons_self)
    rw [List.cons_append, lines, if_neg hc, ih fun h => hline (List.mem_cons_of_mem c h)]
    rfl

theorem lines_of_notMem (hline : '\n' ∉ line) (h : line ≠ []) : lines line = [line] := by
  obtain ⟨line, c, rfl⟩ := (List.eq_nil_or_concat' line).resolve_left h
  have hc : c ≠ '\n' := by
    rintro rfl
    exact hline (by simp)
  have hlast : lines [c] = [[c]] := by simp [lines, hc]
  rw [lines_append (fun h => hline (List.mem_append_left [c] h)) (by simp), firstLine, hlast]
  rfl

theorem exists_firstLine (c : Char) (text : List Char) :
    ∃ more, firstLine (c :: text) = c :: more := by
  unfold firstLine lines
  split
  · exact ⟨[], rfl⟩
  · split
    · exact ⟨[], rfl⟩
    · exact ⟨_, rfl⟩

theorem notMem_lastLine (text : List Char) : '\n' ∉ lastLine text := by
  intro h
  simpa using List.mem_takeWhile_imp (List.mem_reverse.1 h)

/-- A line with the `\n` that ends it. -/
def Ended (line : List Char) : Prop := ∃ text, line = text ++ ['\n'] ∧ '\n' ∉ text

/-- Before a point of a text there are whole lines, one for each `\n`, and a part of the line that
goes on there. -/
theorem exists_lines (before rest : List Char) :
    ∃ whole, lines (before ++ rest) = whole ++ lines (lastLine before ++ rest) ∧
      before = whole.flatten ++ lastLine before ∧ whole.length = before.count '\n' ∧
      ∀ line ∈ whole, Ended line := by
  induction before using List.reverseRecOn generalizing rest with
  | nil => exact ⟨[], rfl, rfl, rfl, by simp⟩
  | append_singleton before c ih =>
    obtain ⟨whole, hlines, hbefore, hlength, hended⟩ := ih (c :: rest)
    by_cases hc : c = '\n'
    · subst hc
      have hline := lines_append (notMem_lastLine before) (List.cons_ne_nil '\n' rest)
      rw [firstLine, lines_cons_newline] at hline
      refine ⟨whole ++ [lastLine before ++ ['\n']], ?_, ?_, ?_, ?_⟩
      · rw [lastLine_append_newline, List.append_assoc, List.singleton_append, hlines, hline]
        simp
      · rw [lastLine_append_newline, List.append_nil, List.flatten_append, List.flatten_singleton,
          ← List.append_assoc, ← hbefore]
      · rw [List.length_append, hlength, List.count_append]
        rfl
      · intro line hmem
        rcases List.mem_append.1 hmem with h | h
        · exact hended line h
        · exact ⟨_, List.mem_singleton.1 h, notMem_lastLine before⟩
    · refine ⟨whole, ?_, ?_, ?_, hended⟩
      · rw [lastLine_append_singleton before hc, List.append_assoc, List.append_assoc]
        exact hlines
      · rw [lastLine_append_singleton before hc, ← List.append_assoc, ← hbefore]
      · rw [hlength, List.count_append, List.count_singleton, beq_false_of_ne hc]
        rfl

/-- The line of a point as it is shown: without what ends it, unless the text ends at the point. -/
def shownLine (before rest : List Char) : List Char :=
  if rest = [] then lastLine before else trimLineEnd (lastLine before ++ firstLine rest)

end Lines

theorem findLine_append {whole : List (List Char)} {offset start : Nat}
    (h : start + Utf8.size whole.flatten ≤ offset) (number : Nat) (later : List (List Char)) :
    findLine offset start number (whole ++ later) =
      findLine offset (start + Utf8.size whole.flatten) (number + whole.length) later := by
  induction whole generalizing start number with
  | nil => rfl
  | cons line whole ih =>
    rw [List.flatten_cons, Utf8.size_append, ← Nat.add_assoc] at h ⊢
    rw [List.cons_append, findLine, if_neg (by omega), ih h, List.length_cons, Nat.add_assoc,
      Nat.add_assoc number, Nat.add_comm 1]

namespace Source
variable {s : Source} {before rest : List Char} {k : Nat}

theorem lineAt_min (s : Source) (offset : Nat) :
    s.lineAt (min offset (Utf8.size s.content)) = s.lineAt offset := by
  unfold lineAt
  rw [Nat.min_assoc, Nat.min_self]

/-- The line found for an offset in the first character behind a point is the one of the point. -/
theorem lineAt_eq (htext : s.content = before ++ rest) (hk : Utf8.InFirst k rest) :
    s.lineAt (Utf8.size before + k) =
      ⟨1 + before.count '\n', shownLine before rest, Utf8.size (lastLine before) + k⟩ := by
  obtain ⟨whole, hlines, hbefore, hlength, -⟩ := exists_lines before rest
  have hsize : Utf8.size before = Utf8.size whole.flatten + Utf8.size (lastLine before) := by
    rw [← Utf8.size_append, ← hbefore]
  have hmin : min (Utf8.size before + k) (Utf8.size s.content) = Utf8.size before + k := by
    have hle := hk.le_size
    rw [htext, Utf8.size_append]
    omega
  unfold lineAt
  rw [hmin, htext, hlines, findLine_append (by omega), hlength, Nat.zero_add]
  cases rest with
  | nil =>
    obtain rfl : k = 0 := hk
    rw [List.append_nil, List.append_nil, shownLine, if_pos rfl, Nat.add_zero, Nat.add_zero]
    by_cases hlast : lastLine before = []
    · rw [hlast]
      rfl
    · rw [lines_of_notMem (notMem_lastLine before) hlast, findLine, if_neg (by omega), findLine]
      simp [hlast]
  | cons c rest =>
    obtain ⟨more, hfirst⟩ := exists_firstLine c rest
    have hlt : Utf8.size before + k < Utf8.size whole.flatten +
        Utf8.size (lastLine before ++ firstLine (c :: rest)) := by
      have hk : k < c.utf8Size := hk
      rw [hfirst, Utf8.size_append, Utf8.size_cons]
      omega
    rw [lines_append (notMem_lastLine before) (List.cons_ne_nil c rest), findLine, if_pos hlt,
      shownLine, if_neg (List.cons_ne_nil c rest), hsize, Nat.add_assoc, Nat.add_sub_cancel_left]

end Source

/-- The line found again is the line that was counted. -/
theorem Position.Between.lineAt_eq {p : Position} {before rest : List Char}
    (h : p.Between before rest) :
    p.source.lineAt p.offset =
      ⟨p.line, shownLine before rest, Utf8.size (lastLine before)⟩ := by
  rw [h.offset, h.line]
  exact Source.lineAt_eq h.text (Utf8.inFirst_zero rest)

namespace Utf8
variable {text before rest : List Char} {k : Nat}

/-- What a text is stored in. -/
def bytes (text : List Char) : List UInt8 := text.flatMap String.utf8EncodeChar

@[simp] theorem bytes_append (a b : List Char) : bytes (a ++ b) = bytes a ++ bytes b :=
  List.flatMap_append

theorem length_bytes (text : List Char) : (bytes text).length = size text := by
  induction text with
  | nil => rfl
  | cons c text ih =>
    rw [bytes, List.flatMap_cons, List.length_append, String.length_utf8EncodeChar, size_cons, ← ih]
    rfl

def newline : UInt8 := 0x0A

theorem newline_ne_ofNat {n : Nat} (hn : n < 128 ∨ 128 ≤ n % 256) (hne : n ≠ 10) :
    newline ≠ UInt8.ofNat n := by
  intro h
  have hmod : 10 = n % 256 := by
    rw [← UInt8.toNat_ofNat', ← h]
    rfl
  omega

theorem newline_notMem_encode {c : Char} (hc : c ≠ '\n') : newline ∉ String.utf8EncodeChar c := by
  have hval : c.val.toNat ≠ 10 := fun h => hc (Char.ext (UInt32.toNat_inj.1 h))
  have htail : ∀ n, newline ≠ UInt8.ofNat (n % 64 + 128) := fun n =>
    newline_ne_ofNat (by omega) (by omega)
  suffices h : ∀ byte ∈ String.utf8EncodeChar c, newline ≠ byte from fun hmem => h newline hmem rfl
  unfold String.utf8EncodeChar
  generalize c.val.toNat = n at hval ⊢
  dsimp only
  -- One byte is the character's own number, and each of several has its high bit set.
  split
  · exact List.forall_mem_singleton.2 (newline_ne_ofNat (by omega) hval)
  have hhead : ∀ b, 192 ≤ b → b < 256 → newline ≠ UInt8.ofNat b := fun b _ _ =>
    newline_ne_ofNat (by omega) (by omega)
  split
  · simp only [List.forall_mem_cons]
    exact ⟨hhead _ (by omega) (by omega), htail _, List.forall_mem_nil _⟩
  split
  · simp only [List.forall_mem_cons]
    exact ⟨hhead _ (by omega) (by omega), htail _, htail _, List.forall_mem_nil _⟩
  · simp only [List.forall_mem_cons]
    exact ⟨hhead _ (by omega) (by omega), htail _, htail _, htail _, List.forall_mem_nil _⟩

theorem newline_notMem_bytes (h : '\n' ∉ text) : newline ∉ bytes text := by
  intro hmem
  obtain ⟨c, hc, hbyte⟩ := List.mem_flatMap.1 hmem
  exact newline_notMem_encode (fun he => h (he ▸ hc)) hbyte

theorem count_newline_bytes (text : List Char) : (bytes text).count newline = text.count '\n' := by
  induction text with
  | nil => rfl
  | cons c text ih =>
    have hcons : bytes (c :: text) = String.utf8EncodeChar c ++ bytes text := rfl
    rw [hcons, List.count_append, ih]
    by_cases hc : c = '\n'
    · subst hc
      rw [List.count_cons_self, Nat.add_comm]
      rfl
    · rw [List.count_eq_zero.2 (newline_notMem_encode hc), List.count_cons_of_ne hc, Nat.zero_add]

/-- Before an offset inside a character there are the bytes before the character and some of its
own, which are no `\n`. -/
theorem take_bytes (before : List Char) (hk : InFirst k rest) :
    ∃ part, (bytes (before ++ rest)).take (size before + k) = bytes before ++ part ∧
      part.length = k ∧ newline ∉ part := by
  rw [bytes_append, ← length_bytes, List.take_length_add_append]
  cases rest with
  | nil =>
    obtain rfl : k = 0 := hk
    exact ⟨[], rfl, rfl, List.not_mem_nil⟩
  | cons c rest =>
    have hk : k < c.utf8Size := hk
    have htake : (bytes (c :: rest)).take k = (String.utf8EncodeChar c).take k :=
      List.take_append_of_le_length (by rw [String.length_utf8EncodeChar]; omega)
    refine ⟨_, congrArg _ htake, ?_, ?_⟩
    · rw [List.length_take, String.length_utf8EncodeChar]
      omega
    · by_cases hc : c = '\n'
      · subst hc
        obtain rfl : k = 0 := Nat.lt_one_iff.1 hk
        exact List.not_mem_nil
      · exact fun h => newline_notMem_encode hc (List.mem_of_mem_take h)

theorem bytes_flatten_of_ended {whole : List (List Char)} (h : ∀ line ∈ whole, Ended line) :
    bytes whole.flatten = [] ∨ (bytes whole.flatten).getLast? = some newline := by
  rcases List.eq_nil_or_concat' whole with rfl | ⟨earlier, line, rfl⟩
  · exact .inl rfl
  · obtain ⟨text, rfl, -⟩ := h line (by simp)
    right
    rw [List.flatten_append, List.flatten_singleton, ← List.append_assoc, bytes_append]
    exact List.getLast?_concat

end Utf8

namespace Source
open Utf8

/-- The bytes of the text before an offset, which are all of them if it is behind the text. -/
def bytesBefore (s : Source) (offset : Nat) : List UInt8 := (bytes s.content).take offset

theorem bytesBefore_min (s : Source) (offset : Nat) :
    s.bytesBefore (min offset (size s.content)) = s.bytesBefore offset := by
  unfold bytesBefore
  rw [← length_bytes, ← List.take_take, List.take_length]

/-- The line of an offset by the bytes before it: its number counts the `\n` among them, and the own
bytes are those behind the last one. So many lines and bytes make up all that is before the
offset. -/
structure Holds (s : Source) (offset : Nat) (line : LineAt) : Prop where
  number : line.number = 1 + (s.bytesBefore offset).count newline
  own : ∃ earlier own, s.bytesBefore offset = earlier ++ own ∧
    (earlier = [] ∨ earlier.getLast? = some newline) ∧ newline ∉ own ∧ line.bytes = own.length
  whole : ∃ whole later, lines s.content = whole ++ later ∧ whole.length = line.number - 1 ∧
    (∀ line ∈ whole, Ended line) ∧
    size whole.flatten + line.bytes = min offset (size s.content)

theorem lineAt_holds (s : Source) (offset : Nat) : s.Holds offset (s.lineAt offset) := by
  obtain ⟨before, rest, k, htext, hoffset, hk⟩ :=
    exists_inFirst (Nat.min_le_right offset (size s.content))
  obtain ⟨whole, hlines, hbefore, hlength, hended⟩ := exists_lines before rest
  obtain ⟨part, htake, hpart, hnone⟩ := take_bytes before hk
  have hbytes : s.bytesBefore offset = bytes before ++ part := by
    rw [← bytesBefore_min, hoffset, bytesBefore, htext, htake]
  rw [← lineAt_min, hoffset, lineAt_eq htext hk]
  refine ⟨?_, ?_, ?_⟩
  · rw [hbytes, List.count_append, count_newline_bytes, List.count_eq_zero.2 hnone]
    rfl
  · refine ⟨bytes whole.flatten, bytes (lastLine before) ++ part, ?_, bytes_flatten_of_ended hended,
      ?_, ?_⟩
    · rw [hbytes, ← List.append_assoc, ← bytes_append, ← hbefore]
    · intro h
      rcases List.mem_append.1 h with h | h
      · exact newline_notMem_bytes (notMem_lastLine before) h
      · exact hnone h
    · rw [List.length_append, length_bytes, hpart]
  · refine ⟨whole, _, htext ▸ hlines, ?_, hended, ?_⟩
    · rw [hlength, Nat.add_sub_cancel_left]
    · rw [hoffset, ← Nat.add_assoc, ← size_append, ← hbefore]

/-- Every offset has its line found, also inside a character or behind the text; and where reading
comes to, that line and the characters of its own bytes are the ones that were counted. -/
theorem lineAt_counts_newlines (s : Source) :
    (∀ offset, s.Holds offset (s.lineAt offset)) ∧
      ∀ c : Cursor, c.Reached s → (s.lineAt c.offset).number = c.line ∧
        ∃ text, s.slice? (c.offset - (s.lineAt c.offset).bytes) c.offset = some text ∧
          c.column = 1 + text.length := by
  refine ⟨s.lineAt_holds, ?_⟩
  intro c hc
  obtain ⟨before, rest, hb⟩ := hc.sound
  have hfound := hb.lineAt_eq
  rw [show c.position.source = s from hc.source] at hfound
  obtain ⟨whole, -, hbefore, -⟩ := exists_lines before rest
  have htext : s.content = whole.flatten ++ lastLine before ++ rest := by
    rw [← hbefore, ← hc.source]
    exact hb.text
  have hoffset : c.offset = size (whole.flatten ++ lastLine before) := by
    rw [← hbefore]
    exact hb.offset
  have hslice := slice?_eq htext
  rw [← hoffset] at hslice
  refine ⟨congrArg LineAt.number hfound, lastLine before, ?_, hb.column⟩
  rw [show s.lineAt c.offset = _ from hfound]
  rwa [show c.offset - size (lastLine before) = size whole.flatten by
    rw [hoffset, size_append, Nat.add_sub_cancel]]

def twoLines : Source := ⟨0, "text", none, "é\n日b".toList⟩

/-- An offset inside the `日`, and the cursor behind it. -/
theorem lineAt_counts_newlines_twoLines :
    twoLines.Holds 4 ⟨2, ['日', 'b'], 1⟩ ∧ (⟨twoLines, 6, 2, 2⟩ : Cursor).Reached twoLines ∧
      (twoLines.lineAt 6).number = 2 ∧
      ∃ text, twoLines.slice? 3 6 = some text ∧ 2 = 1 + text.length := by
  have hadvance : (Call.advance 4 : Call Unit).reading? (N := Unit) = some _ := rfl
  have hreached : (⟨twoLines, 6, 2, 2⟩ : Cursor).Reached twoLines := .read .start hadvance rfl
  obtain ⟨hholds, hcounted⟩ := lineAt_counts_newlines twoLines
  exact ⟨hholds 4, hreached, hcounted _ hreached⟩

end Source

end Packrat
