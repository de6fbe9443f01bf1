import Packrat.Regex.Basic

/-! Joined expressions. Putting an expression together again from its parts gives the same expression
if no two literals stand side by side in it, and what `cat` and `anyOf` give is in that form. -/

namespace Packrat.Regex
set_option autoImplicit false

variable {r q : Regex} {rs : List Regex}

/-- It is one part. -/
def Single (r : Regex) : Prop := r.parts = [r]

theorem single_of_mem_parts (h : q ∈ r.parts) : q.Single := by
  induction r with
  | literal text =>
    cases text with
    | nil => cases h
    | cons c text =>
      obtain rfl := List.mem_singleton.1 h
      rfl
  | seq a b iha ihb =>
    rcases List.mem_append.1 h with h | h
    · exact iha h
    · exact ihb h
  | _ =>
    obtain rfl := List.mem_singleton.1 h
    rfl

theorem Single.literal_append {s : List Char} (hs : (literal s).Single) (t : List Char) :
    (literal (s ++ t)).Single := by
  cases s with
  | nil => cases hs
  | cons c s => rfl

theorem single_joinLiterals (h : ∀ q ∈ rs, q.Single) : ∀ q ∈ joinLiterals rs, q.Single := by
  fun_induction joinLiterals rs with
  | case1 => exact h
  | case2 s rest t more hrest ih =>
    obtain ⟨hs, hlater⟩ := List.forall_mem_cons.1 h
    rw [hrest] at ih
    exact List.forall_mem_cons.2 ⟨hs.literal_append t, (List.forall_mem_cons.1 (ih hlater)).2⟩
  | case3 s rest _ ih =>
    obtain ⟨hs, hlater⟩ := List.forall_mem_cons.1 h
    exact List.forall_mem_cons.2 ⟨hs, ih hlater⟩
  | case4 r rest _ ih =>
    obtain ⟨hr, hlater⟩ := List.forall_mem_cons.1 h
    exact List.forall_mem_cons.2 ⟨hr, ih hlater⟩

/-- Literals that are joined are joined already. -/
theorem joinLiterals_joinLiterals (rs : List Regex) :
    joinLiterals (joinLiterals rs) = joinLiterals rs := by
  fun_induction joinLiterals rs with
  | case1 => rfl
  | case2 s rest t more hrest ih =>
    rw [hrest, joinLiterals] at ih
    rw [joinLiterals]
    split at ih
    next u m hm =>
      obtain ⟨htu, rfl⟩ : t ++ u = t ∧ m = more := by simpa using ih
      rw [List.append_assoc, htu]
    next hm =>
      rw [(List.cons.inj ih).2]
  | case3 s rest hrest ih =>
    rw [joinLiterals, ih]
    split
    next t more h => exact absurd h (hrest t more)
    next => rfl
  | case4 r rest hr ih =>
    rw [joinLiterals, ih]
    exact hr

theorem parts_ofParts (h : ∀ q ∈ rs, q.Single) : (ofParts rs).parts = rs := by
  fun_induction ofParts rs with
  | case1 => rfl
  | case2 r => exact h r List.mem_cons_self
  | case3 r rest _ ih =>
    obtain ⟨hr, hlater⟩ := List.forall_mem_cons.1 h
    rw [parts, ih hlater, show r.parts = [r] from hr]
    rfl

/-- It is what its parts make when they are put together. -/
def Joined (r : Regex) : Prop := cat [r] = r

theorem parts_cat (rs : List Regex) : (cat rs).parts = joinLiterals (rs.flatMap parts) := by
  apply parts_ofParts
  apply single_joinLiterals
  intro q hq
  obtain ⟨r, -, hq⟩ := List.mem_flatMap.1 hq
  exact single_of_mem_parts hq

theorem joined_cat (rs : List Regex) : (cat rs).Joined := by
  rw [Joined, cat, List.flatMap_singleton, parts_cat, joinLiterals_joinLiterals, cat]

theorem joined_oneOf (set : CharSet) : (oneOf set).Joined := rfl

theorem joined_alt (a b : Regex) : (alt a b).Joined := rfl

theorem joined_ofSet (set : CharSet) : (ofSet set).Joined := by
  unfold ofSet
  cases set.single? <;> rfl

theorem joined_ofBranches (h : ∀ r, rs = [r] → r.Joined) : (ofBranches rs).Joined := by
  fun_cases ofBranches rs with
  | case1 => exact joined_oneOf _
  | case2 r => exact h r rfl
  | case3 r rest => exact joined_alt _ _

theorem joined_choice (h : ∀ r, rs = [r] → r.Joined) : (choice rs).Joined := by
  unfold choice
  split
  · split
    · exact joined_ofBranches h
    · exact joined_ofSet _
  · exact joined_ofBranches h

theorem branches_ne_nil (r : Regex) : r.branches ≠ [] := by
  induction r with
  | alt a b iha ihb => simp [branches, iha]
  | _ => simp [branches]

/-- What is the only branch is all there is. -/
theorem eq_of_branches (h : q.branches = [r]) : q = r := by
  cases q with
  | alt a b =>
    rcases List.append_eq_singleton_iff.1 h with ⟨h, -⟩ | ⟨-, h⟩
    · exact absurd h (branches_ne_nil a)
    · exact absurd h (branches_ne_nil b)
  | _ => exact (List.cons.inj h).1

theorem mem_of_flatMap_branches (h : rs.flatMap branches = [r]) : r ∈ rs := by
  cases rs with
  | nil => cases h
  | cons q rest =>
    rw [List.flatMap_cons] at h
    rcases List.append_eq_singleton_iff.1 h with ⟨h, -⟩ | ⟨h, -⟩
    · exact absurd h (branches_ne_nil q)
    · rw [eq_of_branches h]
      exact List.mem_cons_self

theorem joined_anyOf (h : ∀ r ∈ rs, r.Joined) : (anyOf rs).Joined := by
  have hone : ∀ r, rs.flatMap branches = [r] → r.Joined := fun r hr =>
    h r (mem_of_flatMap_branches hr)
  unfold anyOf
  dsimp only
  split
  · exact joined_choice hone
  · split
    · exact joined_choice hone
    · exact joined_cat _

theorem choice_singleton (r : Regex) : choice [r] = r := by
  unfold choice
  split <;> rfl

/-- A choice from one branch is that branch. -/
theorem anyOf_singleton (h : r.branches = [r]) : anyOf [r] = r := by
  unfold anyOf
  rw [List.flatMap_singleton, h]
  exact (if_pos (.inl rfl)).trans (choice_singleton r)

/-- An edge in front of a joined expression. -/
theorem cat_edge (e : Edge) (h : r.Joined) :
    cat [.edge e, r] = seq (.edge e) r ∨ r = empty ∧ cat [.edge e, r] = .edge e := by
  have hcat : cat [.edge e, r] = ofParts (.edge e :: joinLiterals r.parts) := by
    simp [cat, parts, joinLiterals]
  have hr : r = ofParts (joinLiterals r.parts) := by
    have hjoined : ofParts (joinLiterals ([r].flatMap parts)) = r := h
    rw [List.flatMap_singleton] at hjoined
    exact hjoined.symm
  rw [hcat]
  cases hparts : joinLiterals r.parts with
  | nil =>
    rw [hparts] at hr
    exact .inr ⟨hr, rfl⟩
  | cons q qs =>
    rw [hparts] at hr
    rw [ofParts, ← hr]
    · exact .inl rfl
    · simp

theorem branches_cat_edge (e : Edge) (h : r.Joined) :
    (cat [.edge e, r]).branches = [cat [.edge e, r]] := by
  rcases cat_edge e h with h | ⟨-, h⟩
  · rw [h]
    rfl
  · rw [h]
    rfl

end Packrat.Regex
