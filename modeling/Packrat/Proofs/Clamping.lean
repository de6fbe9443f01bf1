import Mathlib.Order.Bounds.Defs
import Packrat.Proofs.Stepping

/-! Moving on by a number of bytes. The move ends with the text and takes no part of a character. A
count that leads beyond a machine word is refused, however long the text is. -/

namespace Packrat.Cursor
set_option autoImplicit false

/-- So many bytes on, or the end of the text if that comes before. -/
def goal (c : Cursor) (n : Nat) : Nat := min (c.offset + n) (Utf8.size c.source.content)

/-- The first boundary that is not before the goal, as taking characters until the goal is reached
comes to it. -/
structure Clamped (c : Cursor) (n : Nat) (d : Cursor) : Prop where
  source : d.source = c.source
  least : IsLeast {offset | offset ∈ c.source.boundaries ∧ c.goal n ≤ offset} d.offset
  stepwise : ∀ e, (∃ text, NextWhile (fun e => e.offset < c.goal n) c text e) ↔ e = d

variable {c d : Cursor} {before rest : List Char} {n : Nat}

/-- Until a goal within the text is reached, the loop takes what covers the bytes before it. -/
theorem nextWhile_cover {goal : Nat} (hb : c.position.Between before rest) (hfits : c.source.Fits)
    (hgoal : goal ≤ Utf8.size c.source.content) :
    ∃ d left, NextWhile (fun e => e.offset < goal) c (Utf8.cover (goal - c.offset) rest) d ∧
      d.source = c.source ∧
      d.position.Between (before ++ Utf8.cover (goal - c.offset) rest) left := by
  induction rest generalizing c before with
  | nil =>
    have hend : ¬c.offset < goal := by
      have hsize : Utf8.size c.source.content = c.offset := by
        rw [show c.source.content = before ++ [] from hb.text, List.append_nil]
        exact hb.offset.symm
      omega
    rw [Utf8.cover_nil, List.append_nil]
    exact ⟨c, [], .done hend, rfl, hb⟩
  | cons ch rest ih =>
    by_cases hmore : c.offset < goal
    · obtain ⟨d, hd, hsource, hd'⟩ := next_between hb hfits
      obtain ⟨e, left, he, hsource', he'⟩ := ih hd' (hsource ▸ hfits) (hsource ▸ hgoal)
      have hoffset : d.offset = c.offset + ch.utf8Size := by
        have hc : c.offset = Utf8.size before := hb.offset
        rw [show d.offset = Utf8.size (before ++ [ch]) from hd'.offset, Utf8.size_append, hc]
        rfl
      have hcover : Utf8.cover (goal - c.offset) (ch :: rest) =
          ch :: Utf8.cover (goal - d.offset) rest := by
        rw [Utf8.cover_cons (by omega), hoffset, Nat.sub_sub]
      rw [hcover]
      refine ⟨e, left, .step hmore hd he, hsource'.trans hsource, ?_⟩
      simpa using he'
    · rw [show goal - c.offset = 0 by omega, Utf8.cover, List.append_nil]
      exact ⟨c, _, .done hmore, rfl, hb⟩

/-- What covers the count covers the bytes before the goal. -/
theorem cover_goal (hb : c.position.Between before rest) (n : Nat) :
    Utf8.cover (c.goal n - c.offset) rest = Utf8.cover n rest := by
  have hoffset : c.offset = Utf8.size before := hb.offset
  have hsize : Utf8.size c.source.content = Utf8.size before + Utf8.size rest := by
    rw [show c.source.content = before ++ rest from hb.text, Utf8.size_append]
  rw [← Utf8.cover_min n rest, goal]
  congr 1
  omega

theorem least_of_between {left : List Char} (hb : c.position.Between before rest)
    (hs : d.source = c.source) (hd : d.position.Between (before ++ Utf8.cover n rest) left) :
    IsLeast {offset | offset ∈ c.source.boundaries ∧ c.goal n ≤ offset} d.offset := by
  have hoffset : c.offset = Utf8.size before := hb.offset
  have htext : c.source.content = before ++ rest := hb.text
  have hsize : Utf8.size c.source.content = Utf8.size before + Utf8.size rest := by
    rw [htext, Utf8.size_append]
  have hd' : d.offset = Utf8.size before + Utf8.size (Utf8.cover n rest) := by
    rw [show d.offset = _ from hd.offset, Utf8.size_append]
  have hgoal : c.goal n ≤ Utf8.size c.source.content := Nat.min_le_right _ _
  rw [← cover_goal hb n] at hd'
  constructor
  · refine ⟨hs ▸ Sound.mem_boundaries ⟨_, _, hd⟩, ?_⟩
    have hle : c.goal n - c.offset ≤ Utf8.size (Utf8.cover (c.goal n - c.offset) rest) :=
      Utf8.le_size_cover (by omega)
    omega
  · rintro offset ⟨hmem, hle⟩
    obtain ⟨a, b, hab, rfl⟩ := Source.mem_boundaries_iff.1 hmem
    have hbefore : c.offset ≤ c.goal n := by
      unfold goal
      omega
    -- The boundary is behind the cursor, so there is text between the two.
    obtain ⟨more, rfl⟩ := Utf8.begins_of_size_le ⟨rest, htext.symm⟩ ⟨b, hab.symm⟩ (by omega)
    obtain rfl : rest = more ++ b := by
      rw [htext, List.append_assoc] at hab
      exact List.append_cancel_left hab
    rw [Utf8.size_append] at hle ⊢
    have hmore : c.goal n - c.offset ≤ Utf8.size more := by omega
    have hcover := Utf8.size_cover_le b hmore
    omega

theorem clamped_of_advance (hb : c.position.Between before rest) (hfits : c.source.Fits)
    (h : c.advance n = .ok d) : c.Clamped n d := by
  obtain ⟨left, -, hsource, hd⟩ := between_advance hb h
  obtain ⟨e, left', hloop, hsource', he⟩ :=
    nextWhile_cover hb hfits (show c.goal n ≤ _ from Nat.min_le_right _ _)
  rw [cover_goal hb n] at hloop he
  obtain rfl := eq_of_between he hd (hsource'.trans hsource.symm)
  refine ⟨hsource, least_of_between hb hsource hd, fun e' => ⟨?_, ?_⟩⟩
  · rintro ⟨text, h'⟩
    exact (h'.unique hloop).2
  · rintro rfl
    exact ⟨_, hloop⟩

theorem advance_eq_overflow (hn : wordSize ≤ c.offset + n) : c.advance n = .error .overflow := by
  unfold advance addCount
  rw [if_neg (by omega)]
  rfl

/-- Moving on by a count is clamped to the text and rounded to whole characters if and only if the
count does not lead beyond a machine word; otherwise it is refused, even at the end of the text. Sums
are checked here, as they are in a build with overflow checks. Where they wrap instead, a count beyond
a machine word is no fault of its own, and the cursor stays clamped for some of them. -/
theorem advance_clamps_iff (hs : c.Sound) (hfits : c.source.Fits) (n : Nat) :
    ((∃ d, c.advance n = .ok d ∧ c.Clamped n d) ↔ c.offset + n < wordSize) ∧
      (wordSize ≤ c.offset + n → c.advance n = .error .overflow) := by
  obtain ⟨before, rest, hb⟩ := id hs
  refine ⟨⟨?_, ?_⟩, advance_eq_overflow⟩
  · rintro ⟨d, hd, -⟩
    by_contra hn
    cases (advance_eq_overflow (by omega)).symm.trans hd
  · intro hn
    obtain ⟨d, hd⟩ := advance_ok hs hfits hn
    exact ⟨d, hd, clamped_of_advance hb hfits hd⟩

def atWide : Cursor := .atStart ⟨0, "text", none, "é\n".toList⟩

/-- One byte leads into the `é`, which is then taken whole. -/
theorem advance_clamps_iff_wide :
    atWide.Sound ∧ atWide.source.Fits ∧ atWide.offset + 1 < wordSize ∧
      atWide.advance 1 = .ok ⟨atWide.source, 2, 1, 2⟩ ∧
      atWide.Clamped 1 ⟨atWide.source, 2, 1, 2⟩ := by
  have hs : atWide.Sound := sound_atStart _
  have hfits : atWide.source.Fits := by
    unfold Source.Fits
    decide
  have hn : atWide.offset + 1 < wordSize := by decide
  have hd : atWide.advance 1 = .ok ⟨atWide.source, 2, 1, 2⟩ := rfl
  obtain ⟨d, hd', hclamped⟩ := (advance_clamps_iff hs hfits 1).1.2 hn
  cases hd'.symm.trans hd
  exact ⟨hs, hfits, hn, hd, hclamped⟩

def behindFirst : Cursor := ⟨⟨0, "text", none, "ab".toList⟩, 1, 1, 2⟩

/-- The greatest count there is leads beyond a machine word from anywhere but the start. -/
theorem advance_refuses_greatest :
    behindFirst.Sound ∧ behindFirst.source.Fits ∧ wordSize - 1 < wordSize ∧
      behindFirst.advance (wordSize - 1) = .error .overflow ∧
      ¬∃ d, behindFirst.advance (wordSize - 1) = .ok d ∧ behindFirst.Clamped (wordSize - 1) d := by
  have hrefused : behindFirst.advance (wordSize - 1) = .error .overflow :=
    advance_eq_overflow (by decide)
  refine ⟨⟨['a'], ['b'], rfl, rfl, rfl, rfl⟩, ?_, by decide, hrefused, ?_⟩
  · unfold Source.Fits
    decide
  · rintro ⟨d, hd, -⟩
    cases hrefused.symm.trans hd

end Packrat.Cursor
