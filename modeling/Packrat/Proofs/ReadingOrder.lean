import Packrat.Memo
import Packrat.Proofs.Offsets
import Packrat.Proofs.Reading

/-! The order of places. Between two places of a text that reading comes to there is a text: it has
a `\n`, and the line grows over it, or it has none, and the column does. So offsets alone order
places as their lines and columns do, whichever way led to them. -/

namespace Packrat
set_option autoImplicit false

/-- What has no `\n` goes on in the last line. -/
theorem lastLine_append_of_notMem (before : List Char) {text : List Char} (h : '\n' ∉ text) :
    lastLine (before ++ text) = lastLine before ++ text := by
  have hline : ∀ c ∈ text.reverse, decide (c ≠ '\n') = true := by
    intro c hc
    have hne : c ≠ '\n' := fun he => h (he ▸ List.mem_reverse.1 hc)
    exact decide_eq_true hne
  simp only [lastLine, List.reverse_append, List.takeWhile_append_of_pos hline,
    List.reverse_reverse]

namespace Position
variable {p q : Position} {before text rest before' rest' : List Char}

/-- Compares lines first, and columns within a line. -/
def compareShown : Position → Position → Ordering :=
  compareLex (compareOn Position.line) (compareOn Position.column)

theorem compareShown_eq_lt_iff :
    compareShown p q = .lt ↔ p.line < q.line ∨ p.line = q.line ∧ p.column < q.column := by
  simp only [compareShown, compareLex, compareOn, Ordering.then_eq_lt, Nat.compare_eq_lt,
    Nat.compare_eq_eq]

theorem compareShown_swap (p q : Position) : (compareShown p q).swap = compareShown q p := by
  simp only [compareShown, compareLex, compareOn, Ordering.swap_then, Nat.compare_swap]

/-- Behind a text that is not empty the line or the column is greater. -/
theorem Between.compareShown_eq_lt (hp : p.Between before (text ++ rest))
    (hq : q.Between (before ++ text) rest) (htext : text ≠ []) : compareShown p q = .lt := by
  have hlines : q.line = p.line + text.count '\n' := by
    rw [hq.line, hp.line, List.count_append, Nat.add_assoc]
  apply compareShown_eq_lt_iff.2
  by_cases hnewline : '\n' ∈ text
  · have hcount := List.count_pos_iff.2 hnewline
    exact Or.inl (by omega)
  · have hcount := List.count_eq_zero.2 hnewline
    have hlength := List.length_pos_iff.2 htext
    have hcolumn : q.column = p.column + text.length := by
      rw [hq.column, hp.column, lastLine_append_of_notMem before hnewline, List.length_append,
        Nat.add_assoc]
    exact Or.inr ⟨by omega, by omega⟩

/-- Between two places of a text there is a text. -/
theorem Between.exists_text (hp : p.Between before rest) (hq : q.Between before' rest')
    (hs : p.source = q.source) (h : p.offset < q.offset) :
    ∃ text, text ≠ [] ∧ before' = before ++ text ∧ rest = text ++ rest' := by
  have hcontent : before ++ rest = before' ++ rest' := by
    rw [← hp.text, ← hq.text, hs]
  have hsize : Utf8.size before < Utf8.size before' := by
    rw [← hp.offset, ← hq.offset]
    exact h
  obtain ⟨text, rfl⟩ := Utf8.begins_of_size_le (List.prefix_append before rest)
    (hcontent ▸ List.prefix_append before' rest') (Nat.le_of_lt hsize)
  refine ⟨text, ?_, rfl, ?_⟩
  · intro hnil
    subst hnil
    rw [List.append_nil] at hsize
    exact Nat.lt_irrefl _ hsize
  · rw [List.append_assoc] at hcontent
    exact List.append_cancel_left hcontent

theorem Sound.compareShown_eq_lt (hp : p.Sound) (hq : q.Sound) (hs : p.source = q.source)
    (h : p.offset < q.offset) : compareShown p q = .lt := by
  obtain ⟨before, rest, hp⟩ := hp
  obtain ⟨before', rest', hq⟩ := hq
  obtain ⟨text, htext, rfl, rfl⟩ := hp.exists_text hq hs h
  exact hp.compareShown_eq_lt hq htext

/-- Offsets order sound places as their lines and columns do. -/
theorem Sound.compare_offset (hp : p.Sound) (hq : q.Sound) (hs : p.source = q.source) :
    compare p.offset q.offset = compareShown p q := by
  rcases Nat.lt_trichotomy p.offset q.offset with h | h | h
  · rw [hp.compareShown_eq_lt hq hs h]
    exact Nat.compare_eq_lt.2 h
  · have heq := hp.eq_of_offset hq hs h
    subst heq
    simp [compareShown, compareLex, compareOn]
  · rw [← compareShown_swap, hq.compareShown_eq_lt hp hs.symm h]
    exact Nat.compare_eq_gt.2 h

/-- The places agree in all that is told of them. -/
def Agrees (p q : Position) : Prop :=
  p.offset = q.offset ∧ p.line = q.line ∧ p.column = q.column

instance (p q : Position) : Decidable (p.Agrees q) :=
  inferInstanceAs (Decidable (p.offset = q.offset ∧ p.line = q.line ∧ p.column = q.column))

theorem Sound.agrees_iff (hp : p.Sound) (hq : q.Sound) (hs : p.source = q.source) :
    p.Agrees q ↔ p.offset = q.offset := by
  constructor
  · intro h
    exact h.1
  · intro h
    have heq := hp.eq_of_offset hq hs h
    subst heq
    exact ⟨rfl, rfl, rfl⟩

end Position

namespace Cursor
variable {s : Source} {c d : Cursor}

/-- The cursors that a text is read with: it is read on from where reading has come to, and reading
goes back to places that it has come to. -/
inductive Visited (s : Source) : Cursor → Prop
  | start : Visited s (atStart s)
  | read {N σ : Type} {c d : Cursor} {call : Call σ} {reply : call.Reply N}
      {u : Cursor → Except Fault (call.Reply N × Cursor)} :
      Visited s c → call.reading? = some u → u c = .ok (reply, d) → Visited s d
  | back {c d : Cursor} : Visited s c → Visited s d → Visited s (c.moveTo d.position)

/-- Going back leads where reading alone has led. -/
theorem Visited.reached (h : c.Visited s) : c.Reached s := by
  induction h with
  | start => exact .start
  | read _ hu hread ih => exact .read ih hu hread
  | back _ _ ihc ihd =>
    rw [moveTo_position (ihc.source.trans ihd.source.symm)]
    exact ihd

end Cursor

namespace Position
open Cursor

/-- Two places of one text compare as their lines and columns do. They are equal exactly if they
agree in all that is told of them, and only then the memo keeps the same outcomes for them. Places
of different sources are not equal and do not compare. -/
theorem offset_order_is_reading_order {s : Source} {c d : Cursor} (hc : c.Visited s)
    (hd : d.Visited s) :
    c.position.compare? d.position = some (compareShown c.position d.position) ∧
      (c.position == d.position ↔ c.position.Agrees d.position) ∧
      (∀ (memo : Memo) (rule other : String) (matched : Bool),
        (memo.insert c.offset rule matched).get? d.offset other =
          if c.position.Agrees d.position ∧ rule = other then some matched
          else memo.get? d.offset other) ∧
      ∀ (t : Source) (e : Cursor), e.Visited t → t.serial ≠ s.serial →
        (c.position == e.position) = false ∧ c.position.compare? e.position = none := by
  have hcs : c.source = s := hc.reached.source
  have hds : d.source = s := hd.reached.source
  have hsource : c.position.source = d.position.source := hcs.trans hds.symm
  have hagrees := hc.reached.sound.agrees_iff hd.reached.sound hsource
  have hsame : c.position.sameSource d.position = true := by
    rw [sameSource, hsource]
    exact beq_self_eq_true _
  refine ⟨?_, ?_, ?_, ?_⟩
  · rw [compare?, if_pos hsame]
    exact congrArg some (hc.reached.sound.compare_offset hd.reached.sound hsource)
  · rw [hagrees]
    change (c.position.sameSource d.position && c.position.offset == d.position.offset) = true ↔ _
    rw [hsame, Bool.true_and, beq_iff_eq]
  · intro memo rule other matched
    rw [Memo.get?_insert]
    exact if_congr (and_congr_left' hagrees.symm) rfl rfl
  · intro t e he hserial
    have hother : c.position.sameSource e.position = false := by
      have hes : e.source = t := he.reached.source
      exact beq_false_of_ne fun h => hserial (by rw [← hcs, ← hes]; exact h.symm)
    constructor
    · change (c.position.sameSource e.position && c.position.offset == e.position.offset) = false
      rw [hother, Bool.false_and]
    · rw [compare?, hother]
      rfl

def twoRows : Source := ⟨0, "rows", none, "é\nb".toList⟩

/-- The place behind the `é` has the greater column, and the one behind the `\n` the greater line.
The latter is come to at once, and again when reading has gone back behind the `é`. -/
theorem offset_order_is_reading_order_twoRows :
    (⟨twoRows, 2, 1, 2⟩ : Cursor).Visited twoRows ∧ (⟨twoRows, 3, 2, 1⟩ : Cursor).Visited twoRows ∧
      (⟨2, 1, 2, twoRows⟩ : Position).compare? ⟨3, 2, 1, twoRows⟩ = some .lt ∧
      ((⟨2, 1, 2, twoRows⟩ : Position) == ⟨3, 2, 1, twoRows⟩) = false := by
  have hadvance : (Call.advance 3 : Call Unit).reading? (N := Unit) = some _ := rfl
  have hnext : (Call.next : Call Unit).reading? (N := Unit) = some _ := rfl
  have hfirst : (⟨twoRows, 2, 1, 2⟩ : Cursor).Visited twoRows := .read .start hnext rfl
  have hsecond : (⟨twoRows, 3, 2, 1⟩ : Cursor).Visited twoRows := .read .start hadvance rfl
  obtain ⟨hcompare, hequal, -, -⟩ := offset_order_is_reading_order hfirst
    (.read (.back hsecond hfirst) hnext rfl : (⟨twoRows, 3, 2, 1⟩ : Cursor).Visited twoRows)
  refine ⟨hfirst, hsecond, hcompare, ?_⟩
  exact Bool.eq_false_iff.2 fun h => absurd (hequal.1 h) (by decide)

end Position

end Packrat
