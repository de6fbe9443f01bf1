/-! Sets of characters. The code points stand in ranges that ascend and do not touch, so the same
code points always make the same ranges. One of the sets is white space. -/

namespace Packrat
set_option autoImplicit false

/-- White space, as Unicode's property `White_Space` has it. -/
def blanks : List Char :=
  ['\t', '\n', '\x0b', '\x0c', '\r', ' ', '\u0085', '\u00a0', '\u1680',
   '\u2000', '\u2001', '\u2002', '\u2003', '\u2004', '\u2005', '\u2006', '\u2007', '\u2008',
   '\u2009', '\u200a', '\u2028', '\u2029', '\u202f', '\u205f', '\u3000']

def isBlank (c : Char) : Bool := blanks.contains c

/-- Ranges, first and last, from `least` on, each with a gap before the next. -/
def Ascending : Nat → List (Nat × Nat) → Prop
  | _, [] => True
  | least, (lo, hi) :: rest => least ≤ lo ∧ lo ≤ hi ∧ Ascending (hi + 2) rest

namespace Ascending

theorem mono {k n : Nat} {rs : List (Nat × Nat)} (h : Ascending n rs) (hk : k ≤ n) :
    Ascending k rs := by
  cases rs with
  | nil => trivial
  | cons r rest => exact ⟨Nat.le_trans hk h.1, h.2⟩

end Ascending

namespace CharSet

def covers (n : Nat) (rs : List (Nat × Nat)) : Bool := rs.any fun (lo, hi) => lo ≤ n && n ≤ hi

@[simp] theorem covers_nil (n : Nat) : covers n [] = false := rfl

@[simp] theorem covers_cons (n lo hi : Nat) (rest : List (Nat × Nat)) :
    covers n ((lo, hi) :: rest) = (lo ≤ n && n ≤ hi || covers n rest) := rfl

def join (lo hi : Nat) : List (Nat × Nat) → List (Nat × Nat)
  | [] => [(lo, hi)]
  | (a, b) :: rest =>
    if hi + 1 < a then (lo, hi) :: (a, b) :: rest
    else if b + 1 < lo then (a, b) :: join lo hi rest
    else join (min lo a) (max hi b) rest

theorem ascending_join {rs : List (Nat × Nat)} : ∀ {k n lo hi : Nat}, Ascending n rs → k ≤ n →
    k ≤ lo → lo ≤ hi → Ascending k (join lo hi rs) := by
  induction rs with
  | nil => intro k n lo hi _ _ hlo hhi; exact ⟨hlo, hhi, trivial⟩
  | cons r rest ih =>
    obtain ⟨a, b⟩ := r
    intro k n lo hi ⟨ha, hb, hrest⟩ hk hlo hhi
    unfold join
    split
    · exact ⟨hlo, hhi, by omega, hb, hrest⟩
    split
    · exact ⟨by omega, hb, ih hrest (Nat.le_refl _) (by omega) hhi⟩
    · exact ih hrest (by omega) (by omega) (by omega)

theorem covers_join {rs : List (Nat × Nat)} (n : Nat) : ∀ {k lo hi : Nat}, Ascending k rs →
    lo ≤ hi → covers n (join lo hi rs) = (lo ≤ n && n ≤ hi || covers n rs) := by
  induction rs with
  | nil => intro k lo hi _ _; rfl
  | cons r rest ih =>
    obtain ⟨a, b⟩ := r
    intro k lo hi ⟨_, hb, hrest⟩ hhi
    unfold join
    split
    · rfl
    split
    · simp only [covers_cons, ih hrest hhi]
      cases decide (a ≤ n) && decide (n ≤ b) <;> simp
    · rw [ih hrest (by omega), covers_cons, ← Bool.or_assoc]
      congr 1
      rw [Bool.eq_iff_iff]
      simp only [Bool.and_eq_true, Bool.or_eq_true, decide_eq_true_eq]
      omega

def top : Nat := 0x10ffff

def gaps (least : Nat) : List (Nat × Nat) → List (Nat × Nat)
  | [] => if least ≤ top then [(least, top)] else []
  | (a, b) :: rest => if least < a then (least, a - 1) :: gaps (b + 1) rest else gaps (b + 1) rest

theorem ascending_gaps {rs : List (Nat × Nat)} : ∀ {n : Nat}, Ascending n rs →
    Ascending n (gaps n rs) := by
  induction rs with
  | nil =>
    intro n _
    unfold gaps
    split
    · exact ⟨Nat.le_refl _, by assumption, trivial⟩
    · trivial
  | cons r rest ih =>
    obtain ⟨a, b⟩ := r
    intro n ⟨ha, hb, hrest⟩
    have h := ih (hrest.mono (by omega : b + 1 ≤ b + 2))
    unfold gaps
    split
    · exact ⟨Nat.le_refl _, by omega, h.mono (by omega)⟩
    · exact h.mono (by omega)

theorem covers_eq_false {n k : Nat} {rs : List (Nat × Nat)} (h : Ascending k rs) (hn : n < k) :
    covers n rs = false := by
  induction rs generalizing k with
  | nil => rfl
  | cons r rest ih =>
    obtain ⟨a, b⟩ := r
    obtain ⟨ha, hb, hrest⟩ := h
    rw [covers_cons, ih hrest (by omega)]
    simp only [Bool.or_false, Bool.and_eq_false_iff, decide_eq_false_iff_not]
    omega

theorem covers_gaps {rs : List (Nat × Nat)} {n : Nat} (htop : n ≤ top) : ∀ {k : Nat},
    Ascending k rs → covers n (gaps k rs) = (k ≤ n && !covers n rs) := by
  induction rs with
  | nil =>
    intro k _
    unfold gaps
    split
    · simp [htop]
    · have : ¬ k ≤ n := by omega
      simp [this]
  | cons r rest ih =>
    obtain ⟨a, b⟩ := r
    intro k ⟨ha, hb, hrest⟩
    have h := ih (hrest.mono (by omega : b + 1 ≤ b + 2))
    have hout : n ≤ b → covers n rest = false := fun hn => covers_eq_false hrest (by omega)
    unfold gaps
    by_cases hb' : b < n
    · have h1 : b + 1 ≤ n := hb'
      have h2 : ¬ n ≤ b := by omega
      have h3 : ¬ n ≤ a - 1 := by omega
      have h4 : k ≤ n := by omega
      split <;> simp [h, h1, h2, h3, h4]
    · have h1 : ¬ b + 1 ≤ n := hb'
      have h2 : n ≤ b := by omega
      have h3 : decide (n < a) = !decide (a ≤ n) := by
        rw [← decide_not, decide_eq_decide]
        omega
      split
      · have h4 : n ≤ a - 1 ↔ n < a := by omega
        simp [h, h1, h2, h3, h4, hout h2]
      · have h4 : a = k := by omega
        simp [h, h1, h2, h4, hout h2]

end CharSet

structure CharSet where
  ranges : List (Nat × Nat)
  ascending : Ascending 0 ranges
  deriving DecidableEq

namespace CharSet

def has (s : CharSet) (c : Char) : Bool := covers c.toNat s.ranges

def empty : CharSet := ⟨[], trivial⟩

def isEmpty (s : CharSet) : Bool := s.ranges.isEmpty

def insertRange (s : CharSet) (lo hi : Nat) : CharSet :=
  if h : lo ≤ hi then
    ⟨join lo hi s.ranges, ascending_join s.ascending (by omega) (by omega) h⟩
  else s

def ofRanges (ranges : List (Nat × Nat)) : CharSet :=
  ranges.foldl (fun s (first, last) => s.insertRange first last) empty

def range (first last : Char) : CharSet := empty.insertRange first.toNat last.toNat

def single (c : Char) : CharSet := range c c

def ofList (cs : List Char) : CharSet := cs.foldl (fun s c => s.insertRange c.toNat c.toNat) empty

def union (s t : CharSet) : CharSet := t.ranges.foldl (fun s (lo, hi) => s.insertRange lo hi) s

def compl (s : CharSet) : CharSet := ⟨gaps 0 s.ranges, ascending_gaps s.ascending⟩

def inter (s t : CharSet) : CharSet := (s.compl.union t.compl).compl

def diff (s t : CharSet) : CharSet := s.inter t.compl

def symmDiff (s t : CharSet) : CharSet := (s.diff t).union (t.diff s)

def single? (s : CharSet) : Option Char :=
  match s.ranges with
  | [(lo, hi)] => if lo = hi then some (Char.ofNat lo) else none
  | _ => none

def blank : CharSet := ofList blanks

@[simp] theorem has_empty (c : Char) : empty.has c = false := rfl

theorem has_insertRange (s : CharSet) (lo hi : Nat) (c : Char) :
    (s.insertRange lo hi).has c = (lo ≤ c.toNat && c.toNat ≤ hi || s.has c) := by
  unfold insertRange
  split
  · exact covers_join _ s.ascending (by assumption)
  · have : ¬ (lo ≤ c.toNat ∧ c.toNat ≤ hi) := by omega
    simp [this]

@[simp] theorem has_single (a c : Char) : (single a).has c = (c == a) := by
  rw [single, range, has_insertRange, has_empty, Bool.or_false, Bool.eq_iff_iff]
  simp only [Bool.and_eq_true, decide_eq_true_eq, beq_iff_eq, ← Char.toNat_inj]
  omega

@[simp] theorem has_compl (s : CharSet) (c : Char) : s.compl.has c = !s.has c := by
  have htop : c.toNat ≤ top := by
    have := c.valid
    simp only [UInt32.isValidChar, Nat.isValidChar] at this
    simp only [Char.toNat, top]
    omega
  rw [compl, has, covers_gaps htop s.ascending]
  simp [has]

theorem has_ofList (cs : List Char) (c : Char) : (ofList cs).has c = cs.contains c := by
  have h : ∀ (cs : List Char) (s : CharSet),
      (cs.foldl (fun s c => s.insertRange c.toNat c.toNat) s).has c =
        (cs.contains c || s.has c) := by
    intro cs
    induction cs with
    | nil => intro s; rfl
    | cons a rest ih =>
      intro s
      have hsame : (decide (a.toNat ≤ c.toNat) && decide (c.toNat ≤ a.toNat)) = (c == a) := by
        rw [Bool.eq_iff_iff]
        simp only [Bool.and_eq_true, decide_eq_true_eq, beq_iff_eq, ← Char.toNat_inj]
        omega
      simp only [List.foldl_cons, ih, has_insertRange, hsame, List.contains_cons]
      cases rest.contains c <;> cases c == a <;> rfl
  rw [ofList, h, has_empty, Bool.or_false]

@[simp] theorem has_blank (c : Char) : blank.has c = isBlank c := has_ofList blanks c

end CharSet

end Packrat
