import Packrat.Proofs.Joined
import Packrat.Proofs.Language
import Packrat.Proofs.Preference

/-! Expressions that match at the start of a text only. What begins with the mark for the start is
one of them, and a choice whose first alternative begins so is one if and only if all its
alternatives are: sharing a beginning among them changes nothing, for it is the mark that they
share. -/

namespace Packrat.Regex
set_option autoImplicit false
open Gap

variable {r q a b : Regex} {rs : List Regex} {g g' : Gap}

/-- Behind a character no match begins. -/
def OnlyAtStart (r : Regex) : Prop := ∀ c rest, r.length? (some c) rest = none

theorem ways_ne_nil_iff (r : Regex) (g : Gap) :
    r.ways g.before? g.rest ≠ [] ↔ ∃ g', r.Takes g g' := by
  rw [ways_eq]
  constructor
  · intro h
    obtain ⟨n, hn⟩ := List.exists_mem_of_ne_nil _ h
    obtain ⟨_, g', -, -, hgoes⟩ := Net.exists_goes_of_mem_waysAll hn
    exact ⟨g', takesAll_net.1 hgoes.takesAll⟩
  · intro h
    obtain ⟨g', h⟩ := h
    obtain ⟨taken, -, hmem⟩ := (Net.goes_of_takesAll (takesAll_net.2 h)).mem_waysAll r.placed_net
      (List.Subset.refl _)
    exact List.ne_nil_of_mem hmem

theorem onlyAtStart_iff : r.OnlyAtStart ↔ ∀ g g', r.Takes g g' → g.before? = none := by
  simp only [OnlyAtStart, length?_eq, List.head?_eq_none_iff]
  constructor
  · intro h g g' htakes
    have hways := (ways_ne_nil_iff r g).2 ⟨g', htakes⟩
    cases hbefore : g.before? with
    | none => rfl
    | some c =>
      rw [hbefore] at hways
      exact absurd (h c g.rest) hways
  · intro h c rest
    by_contra hways
    obtain ⟨g', htakes⟩ := (ways_ne_nil_iff r ⟨some c, rest⟩).1 hways
    cases h _ _ htakes

theorem OnlyAtStart.searchFrom (h : r.OnlyAtStart) (c : Char) (skipped : Nat) (text : List Char) :
    r.searchFrom (some c) skipped text = none := by
  induction text generalizing c skipped with
  | nil => rw [Regex.searchFrom, h c []]; rfl
  | cons d rest ih =>
    rw [Regex.searchFrom, h c (d :: rest)]
    exact ih d (skipped + 1)

/-- A search finds nothing but what begins the text. -/
theorem OnlyAtStart.search (h : r.OnlyAtStart) {text : List Char} {start n : Nat}
    (hfound : r.search text = some (start, n)) : start = 0 := by
  unfold Regex.search at hfound
  cases text with
  | nil =>
    obtain ⟨_, -, hfound⟩ := Option.map_eq_some_iff.1 hfound
    cases hfound
    rfl
  | cons c rest =>
    rw [Regex.searchFrom, h.searchFrom] at hfound
    split at hfound
    · cases hfound
      rfl
    · cases hfound

theorem onlyAtStart_alt : (alt a b).OnlyAtStart ↔ a.OnlyAtStart ∧ b.OnlyAtStart := by
  simp only [onlyAtStart_iff]
  constructor
  · intro h
    exact ⟨fun g g' ha => h g g' (Or.inl ha), fun g g' hb => h g g' (Or.inr hb)⟩
  · intro h g g' htakes
    rcases htakes with ha | hb
    · exact h.1 g g' ha
    · exact h.2 g g' hb

theorem onlyAtStart_branches : r.OnlyAtStart ↔ ∀ q ∈ r.branches, q.OnlyAtStart := by
  induction r with
  | alt a b iha ihb =>
    simp only [branches, List.mem_append, or_imp, forall_and]
    rw [onlyAtStart_alt, iha, ihb]
  | _ => simp [branches]

theorem onlyAtStart_flatMap_branches :
    (∀ q ∈ rs.flatMap branches, q.OnlyAtStart) ↔ ∀ r ∈ rs, r.OnlyAtStart := by
  simp only [List.mem_flatMap, forall_exists_index, and_imp]
  constructor
  · intro h r hr
    exact onlyAtStart_branches.2 fun q hq => h q r hr hq
  · intro h q r hr hq
    exact onlyAtStart_branches.1 (h r hr) q hq

theorem onlyAtStart_ofBranches : (ofBranches rs).OnlyAtStart ↔ ∀ r ∈ rs, r.OnlyAtStart := by
  fun_induction ofBranches rs with
  | case1 =>
    refine iff_of_true ?_ (List.forall_mem_nil _)
    rw [onlyAtStart_iff]
    intro g g' htakes
    obtain ⟨c, hc, -⟩ := htakes
    cases hc
  | case2 r => simp
  | case3 r rest _ ih => rw [onlyAtStart_alt, ih, List.forall_mem_cons]

/-- Its first part is the mark for the start of the text. -/
def Marked (r : Regex) : Prop := r.parts.head? = some (.edge .start)

theorem marked_edge_start : Marked (.edge .start) := rfl

theorem eq_of_parts_eq_nil (h : r.parts = []) (htakes : r.Takes g g') : g = g' := by
  induction r generalizing g g' with
  | literal text =>
    cases text with
    | nil => exact past_nil_iff.1 htakes
    | cons => cases h
  | seq a b iha ihb =>
    obtain ⟨ha, hb⟩ := List.append_eq_nil_iff.1 h
    obtain ⟨mid, hmid, htakes⟩ := htakes
    exact (iha ha hmid).trans (ihb hb htakes)
  | _ => cases h

theorem Marked.onlyAtStart (h : r.Marked) : r.OnlyAtStart := by
  rw [onlyAtStart_iff]
  induction r with
  | edge e =>
    intro g g' htakes
    cases Option.some.inj h
    exact Option.isNone_iff_eq_none.1 htakes.1
  | seq a b iha ihb =>
    intro g g' htakes
    obtain ⟨mid, ha, hb⟩ := htakes
    cases hparts : a.parts with
    | nil =>
      have hmark : b.Marked := by simpa [Marked, parts, hparts] using h
      rw [eq_of_parts_eq_nil hparts ha]
      exact ihb hmark mid g' hb
    | cons =>
      have hmark : a.Marked := by simpa [Marked, parts, hparts] using h
      exact iha hmark g mid ha
  | literal text => cases text <;> cases h
  | _ => cases h

theorem Marked.branches_eq (h : r.Marked) : r.branches = [r] := by
  cases r with
  | alt => cases h
  | _ => rfl

theorem Marked.cat (h : r.Marked) (rs : List Regex) : (Regex.cat (r :: rs)).Marked := by
  obtain ⟨ps, hparts⟩ := List.head?_eq_some_iff.1 h
  rw [Marked, parts_cat, List.flatMap_cons, hparts, List.cons_append, joinLiterals]
  · rfl
  · simp

theorem Marked.commonSet? (h : r.Marked) (rs : List Regex) :
    Regex.commonSet? (r :: rs) = none := by
  have hliteral : r.literal? = none := by
    cases r with
    | literal text => cases text <;> cases h
    | _ => rfl
  have hset : r.set? = none := by
    cases r with
    | oneOf => cases h
    | _ => rfl
  simp [Regex.commonSet?, List.mapM_cons, hliteral, hset]

theorem commonBeginning_prefix (rs ss : List Regex) :
    commonBeginning rs ss <+: rs ∧ commonBeginning rs ss <+: ss := by
  fun_induction commonBeginning rs ss with
  | case1 r rs ss ih => simp [ih]
  | case2 => simp
  | case3 => simp

theorem sharedParts_prefix (h : r ∈ rs) : sharedParts rs <+: r.parts := by
  have hfold : ∀ (later : List Regex) (shared : List Regex),
      later.foldl (fun shared s => commonBeginning shared s.parts) shared <+: shared ∧
      ∀ q ∈ later,
        later.foldl (fun shared s => commonBeginning shared s.parts) shared <+: q.parts := by
    intro later
    induction later with
    | nil => simp
    | cons q later ih =>
      intro shared
      obtain ⟨hshared, hlater⟩ := ih (commonBeginning shared q.parts)
      obtain ⟨hleft, hright⟩ := commonBeginning_prefix shared q.parts
      exact ⟨hshared.trans hleft, List.forall_mem_cons.2 ⟨hshared.trans hright, hlater⟩⟩
  cases rs with
  | nil => cases h
  | cons first later =>
    rw [sharedParts]
    split
    · obtain ⟨hfirst, hlater⟩ := hfold later first.parts
      rcases List.mem_cons.1 h with rfl | h
      · exact hfirst
      · exact hlater r h
    · exact List.nil_prefix

/-- What is shared with a marked expression is the mark, and maybe more. -/
theorem Marked.sharedParts (h : r.Marked) (hr : r ∈ rs) (hshared : sharedParts rs ≠ []) :
    ∃ shared, Regex.sharedParts rs = .edge .start :: shared ∧ ∀ q ∈ rs, q.Marked := by
  obtain ⟨p, shared, hparts⟩ := List.exists_cons_of_ne_nil hshared
  have hhead : ∀ q ∈ rs, q.parts.head? = some p := by
    intro q hq
    obtain ⟨later, hlater⟩ := sharedParts_prefix hq
    rw [← hlater, hparts]
    rfl
  obtain rfl : p = .edge .start := Option.some.inj ((hhead r hr).symm.trans h)
  exact ⟨shared, hparts, hhead⟩

/-- Where one alternative is marked the choice is between all of them or has the mark before it. -/
theorem onlyAtStart_anyOf (h : r.Marked) :
    (anyOf (r :: rs)).OnlyAtStart ↔ ∀ q ∈ rs, q.OnlyAtStart := by
  have hflat : (r :: rs).flatMap branches = r :: rs.flatMap branches := by
    rw [List.flatMap_cons, h.branches_eq]
    rfl
  have hset := h.commonSet? (rs.flatMap branches)
  have hchoice : choice (r :: rs.flatMap branches) = ofBranches (r :: rs.flatMap branches) := by
    rw [choice, hset]
  have hall : (∀ q ∈ r :: rs.flatMap branches, q.OnlyAtStart) ↔ ∀ q ∈ rs, q.OnlyAtStart := by
    rw [List.forall_mem_cons, onlyAtStart_flatMap_branches]
    exact and_iff_right h.onlyAtStart
  unfold anyOf
  dsimp only
  rw [hflat]
  split
  · rw [hchoice, onlyAtStart_ofBranches, hall]
  split
  · rw [hchoice, onlyAtStart_ofBranches, hall]
  next hshared =>
    obtain ⟨shared, hparts, hmarked⟩ := h.sharedParts List.mem_cons_self hshared
    rw [hparts]
    exact iff_of_true (marked_edge_start.cat _).onlyAtStart
      (hall.1 fun q hq => (hmarked q hq).onlyAtStart)

end Packrat.Regex
