import Mathlib.Logic.Relation
import Packrat.Proofs.Backtracking

/-! What expressions match, told without automata: each is a relation between gaps of a text, which
says what may be taken from the one to the other. Nets take what their expressions take, and
backtracking finds all of it, in the order of its choices. -/

namespace Packrat
set_option autoImplicit false

/-- A gap of a text, with the character before it and the text behind it. -/
structure Gap where
  before? : Option Char
  rest : List Char

namespace Gap

def holds (g : Gap) (e : Edge) : Bool := e.holds g.before? g.rest.head?

/-- The text is what stands between the gaps. -/
structure Past (text : List Char) (g g' : Gap) : Prop where
  rest : g.rest = text ++ g'.rest
  before : g'.before? = text.getLast?.or g.before?

/-- From one gap to the other, in a number of rounds. -/
def Rounds (R : Gap → Gap → Prop) : Nat → Gap → Gap → Prop
  | 0 => Eq
  | n + 1 => Relation.Comp R (Rounds R n)

end Gap

open Gap

namespace Regex

/-- What an expression may take between gaps. -/
def Takes : Regex → Gap → Gap → Prop
  | .literal text => Past text
  | .oneOf set => fun g g' => ∃ c, set.has c ∧ Past [c] g g'
  | .edge e => fun g g' => g.holds e ∧ g = g'
  | .group _ a => a.Takes
  | .seq a b => Relation.Comp a.Takes b.Takes
  | .alt a b => fun g g' => a.Takes g g' ∨ b.Takes g g'
  | .rep a least most? _ => fun g g' =>
    ∃ n, least ≤ n ∧ (∀ most ∈ most?, n ≤ max least most) ∧ Rounds a.Takes n g g'

end Regex

namespace Net

def Takes : Net → Gap → Gap → Prop
  | .pass => Eq
  | .test _ set => fun g g' => ∃ c, set.has c ∧ Past [c] g g'
  | .edge _ e => fun g g' => g.holds e ∧ g = g'
  | .seq a b => Relation.Comp a.Takes b.Takes
  | .alt _ a b => fun g g' => a.Takes g g' ∨ b.Takes g g'
  | .opt _ a _ => fun g g' => a.Takes g g' ∨ g = g'
  | .loop _ a _ entered => fun g g' => ∃ n, (entered → 0 < n) ∧ Rounds a.Takes n g g'

def TakesAll : List Net → Gap → Gap → Prop
  | [] => Eq
  | net :: behind => Relation.Comp net.Takes (TakesAll behind)

end Net

namespace Gap
variable {g g' mid : Gap} {R S : Gap → Gap → Prop} {text : List Char} {c : Char}

theorem past_nil_iff : Past [] g g' ↔ g = g' := by
  constructor
  · rintro ⟨hrest, hbefore⟩
    cases g
    cases g'
    cases hrest
    cases hbefore
    rfl
  · rintro rfl
    exact ⟨rfl, rfl⟩

theorem getLast?_cons_or (c : Char) (text : List Char) (before? : Option Char) :
    (c :: text).getLast?.or before? = text.getLast?.or (some c) := by
  rw [List.getLast?_cons]
  cases text.getLast? <;> rfl

theorem past_cons_iff : Past (c :: text) g g' ↔ Relation.Comp (Past [c]) (Past text) g g' := by
  have hlast := getLast?_cons_or c text g.before?
  constructor
  · rintro ⟨hrest, hbefore⟩
    exact ⟨⟨some c, text ++ g'.rest⟩, ⟨hrest, rfl⟩, ⟨rfl, hbefore.trans hlast⟩⟩
  · rintro ⟨mid, ⟨hrest, hbefore⟩, hrest', hbefore'⟩
    refine ⟨by rw [hrest, hrest']; rfl, ?_⟩
    rw [hbefore', hbefore, hlast]
    rfl

theorem rounds_add (R : Gap → Gap → Prop) (n k : Nat) :
    Rounds R (n + k) = Relation.Comp (Rounds R n) (Rounds R k) := by
  induction n with
  | zero => rw [Nat.zero_add, Rounds, Relation.eq_comp]
  | succ n ih => rw [Nat.succ_add, Rounds, Rounds, ih, Relation.comp_assoc]

end Gap

namespace Numbering
open Net
variable {a b last : Numbering} {R S : Gap → Gap → Prop}

/-- Its nets take this. -/
def Means (a : Numbering) (R : Gap → Gap → Prop) : Prop := ∀ n, (a n).1.Takes = R

theorem means_pass : Means pass Eq := fun _ => rfl

theorem means_test (set : CharSet) : Means (test set) fun g g' => ∃ c, set.has c ∧ Past [c] g g' :=
  fun _ => rfl

theorem Means.seq (ha : a.Means R) (hb : b.Means S) : Means (seq a b) (Relation.Comp R S) :=
  fun n => congrArg₂ Relation.Comp (ha n) (hb _)

theorem Means.alt (ha : a.Means R) (hb : b.Means S) :
    Means (alt a b) fun g g' => R g g' ∨ S g g' := by
  intro n
  dsimp only [Numbering.alt, Net.Takes]
  rw [ha n, hb]

theorem Means.opt (ha : a.Means R) (greedy : Bool) :
    Means (opt a greedy) fun g g' => R g g' ∨ g = g' := by
  intro n
  dsimp only [Numbering.opt, Net.Takes]
  rw [ha n]

theorem Means.loop (ha : a.Means R) (greedy entered : Bool) :
    Means (loop a greedy entered) fun g g' => ∃ n, (entered → 0 < n) ∧ Rounds R n g g' := by
  intro n
  dsimp only [Numbering.loop, Net.Takes]
  rw [ha n]

theorem Means.of_iff (ha : a.Means R) (h : ∀ g g', R g g' ↔ S g g') : a.Means S := by
  have hRS : R = S := funext fun g => funext fun g' => propext (h g g')
  exact hRS ▸ ha

theorem means_literal (text : List Char) : Means (literal text) (Past text) := by
  induction text with
  | nil => exact means_pass.of_iff fun g g' => past_nil_iff.symm
  | cons c text ih =>
    have hone : Means (test (.single c)) (Past [c]) := by
      refine (means_test _).of_iff fun g g' => ?_
      simp
    exact (hone.seq ih).of_iff fun g g' => past_cons_iff.symm

theorem Means.copies (ha : a.Means R) (hlast : last.Means S) (n : Nat) :
    Means (copies a last n) (Relation.Comp (Rounds R n) S) := by
  induction n with
  | zero => exact hlast.of_iff fun g g' => by rw [Rounds, Relation.eq_comp]
  | succ n ih => exact (ha.seq ih).of_iff fun g g' => by rw [Rounds, Relation.comp_assoc]

theorem Means.upTo (ha : a.Means R) (greedy : Bool) (n : Nat) :
    Means (upTo a greedy n) fun g g' => ∃ k ≤ n, Rounds R k g g' := by
  induction n with
  | zero =>
    refine means_pass.of_iff fun g g' => ?_
    simp [Rounds]
  | succ n ih =>
    refine ((ha.seq ih).opt greedy).of_iff fun g g' => ?_
    constructor
    · rintro (⟨mid, hmid, k, hk, hrounds⟩ | rfl)
      · exact ⟨k + 1, by omega, mid, hmid, hrounds⟩
      · exact ⟨0, by omega, rfl⟩
    · rintro ⟨_ | k, hk, hrounds⟩
      · exact .inr hrounds
      · obtain ⟨mid, hmid, hrounds⟩ := hrounds
        exact .inl ⟨mid, hmid, k, by omega, hrounds⟩

theorem Means.endless (ha : a.Means R) (takesSome greedy : Bool) :
    Means (endless a takesSome greedy) fun g g' => ∃ k, Rounds R k g g' := by
  cases takesSome with
  | true =>
    refine (ha.loop greedy false).of_iff fun g g' => ?_
    simp
  | false =>
    refine ((ha.loop greedy true).opt greedy).of_iff fun g g' => ?_
    constructor
    · rintro (⟨k, -, hrounds⟩ | rfl)
      · exact ⟨k, hrounds⟩
      · exact ⟨0, rfl⟩
    · rintro ⟨_ | k, hrounds⟩
      · exact .inr hrounds
      · exact .inl ⟨k + 1, fun _ => Nat.succ_pos k, hrounds⟩

end Numbering

namespace Regex
open Packrat.Numbering

theorem means_numbering (r : Regex) : r.numbering.Means r.Takes := by
  fun_induction numbering r with
  | case1 text => exact means_literal text
  | case2 set => exact means_test set
  | case3 e => exact fun _ => rfl
  | case4 _ a ih => exact ih
  | case5 a b iha ihb => exact iha.seq ihb
  | case6 a b iha ihb => exact iha.alt ihb
  | case7 a greedy ih =>
    refine (ih.endless _ greedy).of_iff fun g g' => ?_
    simp [Takes]
  | case8 a n greedy ih =>
    refine (ih.copies (ih.loop greedy true) n).of_iff fun g g' => ?_
    constructor
    · rintro ⟨mid, hmid, k, hk, hrounds⟩
      refine ⟨n + k, ?_, by simp, ?_⟩
      · have := hk rfl
        omega
      · rw [rounds_add]
        exact ⟨mid, hmid, hrounds⟩
    · rintro ⟨k, hk, -, hrounds⟩
      obtain ⟨k, rfl⟩ := Nat.exists_eq_add_of_le hk
      rw [Nat.succ_add_eq_add_succ, rounds_add] at hrounds
      obtain ⟨mid, hmid, hrounds⟩ := hrounds
      exact ⟨mid, hmid, k + 1, fun _ => Nat.succ_pos k, hrounds⟩
  | case9 a n most greedy ih =>
    refine (ih.copies (ih.upTo greedy (most - n)) n).of_iff fun g g' => ?_
    constructor
    · rintro ⟨mid, hmid, k, hk, hrounds⟩
      refine ⟨n + k, by omega, ?_, ?_⟩
      · rintro _ ⟨⟩
        omega
      · rw [rounds_add]
        exact ⟨mid, hmid, hrounds⟩
    · rintro ⟨k, hk, hmost, hrounds⟩
      have hmost := hmost most rfl
      obtain ⟨k, rfl⟩ := Nat.exists_eq_add_of_le hk
      rw [rounds_add] at hrounds
      obtain ⟨mid, hmid, hrounds⟩ := hrounds
      exact ⟨mid, hmid, k, by omega, hrounds⟩

end Regex

namespace Net
variable {ks later : List Net} {g g' mid : Gap} {t : Thread} {n : Nat}
variable {spots : List (Nat × List Net)}

/-- What is to come goes on from shape to shape, and past a character at a test. -/
inductive Goes : List Net → Gap → Gap → Prop
  | done {ks : List Net} {g : Gap} (h : (shape ks).thread? = some .done) : Goes ks g g
  | step {ks later : List Net} {g g' : Gap} (h : later ∈ (shape ks).steps g.holds)
    (hlater : Goes later g g') : Goes ks g g'
  | test {ks later : List Net} {set : CharSet} {c : Char} {g mid g' : Gap}
    (h : (shape ks).thread? = some (.test set later)) (hc : set.has c) (hmid : Past [c] g mid)
    (hlater : Goes later mid g') : Goes ks g g'

theorem takesAll_step (h : later ∈ (shape ks).steps g.holds) (hlater : TakesAll later g g') :
    TakesAll ks g g' := by
  cases ks with
  | nil => cases h
  | cons net behind =>
    cases net with
    | pass =>
      obtain rfl := List.mem_singleton.1 h
      exact ⟨g, rfl, hlater⟩
    | test => cases h
    | edge place e =>
      obtain ⟨he, rfl⟩ := mem_steps_edge.1 h
      exact ⟨g, ⟨he, rfl⟩, hlater⟩
    | seq a b =>
      obtain rfl := List.mem_singleton.1 h
      obtain ⟨mid, ha, mid', hb, hbehind⟩ := hlater
      exact ⟨mid', ⟨mid, ha, hb⟩, hbehind⟩
    | alt place a b =>
      obtain rfl | rfl := mem_steps_alt.1 h
      · obtain ⟨mid, ha, hbehind⟩ := hlater
        exact ⟨mid, .inl ha, hbehind⟩
      · obtain ⟨mid, hb, hbehind⟩ := hlater
        exact ⟨mid, .inr hb, hbehind⟩
    | opt place a greedy =>
      obtain rfl | rfl := mem_steps_fork.1 h
      · obtain ⟨mid, ha, hbehind⟩ := hlater
        exact ⟨mid, .inl ha, hbehind⟩
      · exact ⟨g, .inr rfl, hlater⟩
    | loop place a greedy entered =>
      have hround (hlater : TakesAll (a :: .loop place a greedy false :: behind) g g') :
          TakesAll (.loop place a greedy entered :: behind) g g' := by
        obtain ⟨mid, ha, mid', ⟨k, -, hrounds⟩, hbehind⟩ := hlater
        exact ⟨mid', ⟨k + 1, fun _ => Nat.succ_pos k, mid, ha, hrounds⟩, hbehind⟩
      cases entered with
      | true =>
        obtain rfl := List.mem_singleton.1 h
        exact hround hlater
      | false =>
        obtain rfl | rfl := mem_steps_fork.1 h
        · exact hround hlater
        · exact ⟨g, ⟨0, by simp, rfl⟩, hlater⟩

theorem Goes.takesAll (h : Goes ks g g') : TakesAll ks g g' := by
  induction h with
  | done h =>
    obtain ⟨rfl, -⟩ | ⟨_, _, _, -, h⟩ := thread?_shape h
    · exact rfl
    · cases h
  | step h _ ih => exact takesAll_step h ih
  | @test _ _ _ c _ mid _ h hc hmid _ ih =>
    obtain ⟨-, h⟩ | ⟨place, _, _, rfl, h⟩ := thread?_shape h
    · cases h
    · cases h
      exact ⟨mid, ⟨c, hc, hmid⟩, ih⟩

theorem goes_cons (net : Net) (behind : List Net) (h : net.Takes g mid)
    (hbehind : Goes behind mid g') :
    Goes (net :: behind) g g' := by
  induction net generalizing behind g mid with
  | pass =>
    obtain rfl : g = mid := h
    exact .step List.mem_cons_self hbehind
  | test place set =>
    obtain ⟨c, hc, hmid⟩ := h
    exact .test rfl hc hmid hbehind
  | edge place e =>
    obtain ⟨he, rfl⟩ := h
    exact .step (mem_steps_edge.2 ⟨he, rfl⟩) hbehind
  | seq a b iha ihb =>
    obtain ⟨between, ha, hb⟩ := h
    exact .step List.mem_cons_self (iha _ ha (ihb _ hb hbehind))
  | alt place a b iha ihb =>
    rcases h with h | h
    · exact .step List.mem_cons_self (iha _ h hbehind)
    · exact .step (.tail _ List.mem_cons_self) (ihb _ h hbehind)
  | opt place a greedy iha =>
    rcases h with h | rfl
    · exact .step (mem_steps_fork.2 (.inl rfl)) (iha _ h hbehind)
    · exact .step (mem_steps_fork.2 (.inr rfl)) hbehind
  | loop place a greedy entered iha =>
    have hagain (k : Nat) {g : Gap} (hrounds : Rounds a.Takes k g mid) :
        Goes (.loop place a greedy false :: behind) g g' := by
      induction k generalizing g with
      | zero =>
        obtain rfl : g = mid := hrounds
        exact .step (mem_steps_fork.2 (.inr rfl)) hbehind
      | succ k ih =>
        obtain ⟨between, hround, hrounds⟩ := hrounds
        exact .step (mem_steps_fork.2 (.inl rfl)) (iha _ hround (ih hrounds))
    obtain ⟨k, hk, hrounds⟩ := h
    cases entered with
    | false => exact hagain k hrounds
    | true =>
      cases k with
      | zero => exact absurd (hk rfl) (Nat.lt_irrefl 0)
      | succ k =>
        obtain ⟨between, hround, hrounds⟩ := hrounds
        exact .step List.mem_cons_self (iha _ hround (hagain k hrounds))

theorem goes_of_takesAll (h : TakesAll ks g g') : Goes ks g g' := by
  induction ks generalizing g with
  | nil =>
    obtain rfl : g = g' := h
    exact .done rfl
  | cons net behind ih =>
    obtain ⟨mid, hmid, h⟩ := h
    exact goes_cons net behind hmid (ih h)

/-- The lengths that backtracking finds from a gap on. -/
def waysAll (ks : List Net) (g : Gap) : List Nat :=
  (walkAll g.holds ks .none).flatMap (Thread.ways g.rest)

theorem mem_ways_test_iff {set : CharSet} :
    n ∈ Thread.ways g.rest (.test set later) ↔
      ∃ c mid k, set.has c ∧ Past [c] g mid ∧ k ∈ waysAll later mid ∧ n = k + 1 := by
  obtain ⟨before?, rest⟩ := g
  cases rest with
  | nil =>
    refine ⟨fun h => absurd h List.not_mem_nil, ?_⟩
    rintro ⟨c, mid, k, -, ⟨hrest, -⟩, -⟩
    cases hrest
  | cons d rest =>
    dsimp only [Thread.ways]
    constructor
    · intro h
      split at h
      next hd =>
        obtain ⟨k, hk, rfl⟩ := List.mem_map.1 h
        exact ⟨d, ⟨some d, rest⟩, k, hd, ⟨rfl, rfl⟩, hk, rfl⟩
      next => cases h
    · rintro ⟨c, ⟨_, _⟩, k, hc, ⟨hrest, hbefore⟩, hk, rfl⟩
      cases hrest
      cases hbefore
      rw [if_pos hc]
      exact List.mem_map_of_mem hk

theorem Goes.mem_waysAll (hplaced : Placed spots) (hks : spotsAll ks ⊆ spots) (h : Goes ks g g') :
    ∃ taken, Past taken g g' ∧ taken.length ∈ waysAll ks g := by
  suffices hleads : ∃ taken n t, Past taken g g' ∧ Leads g.holds .none n ks t ∧
      taken.length ∈ t.ways g.rest by
    obtain ⟨taken, n, t, hpast, hleads, ht⟩ := hleads
    exact ⟨taken, hpast, List.mem_flatMap.2 ⟨t, mem_walkAll_of_leads hplaced hks hleads, ht⟩⟩
  have hfree (s : Shape) : s.free .none := Shape.free_iff.2 fun _ _ => rfl
  induction h with
  | @done ks g h =>
    have hzero : 0 ∈ Thread.ways g.rest .done := by cases g.rest <;> exact List.mem_singleton_self 0
    exact ⟨[], 0, .done, past_nil_iff.2 rfl, .here (hfree _) h, hzero⟩
  | step h _ ih =>
    obtain ⟨taken, n, t, hpast, hleads, ht⟩ := ih (List.Subset.trans (spotsAll_step h) hks)
    exact ⟨taken, n + 1, t, hpast, .step (hfree _) h hleads, ht⟩
  | @test ks later set c g mid g' h hc hmid _ ih =>
    have hlater := List.Subset.trans (spotsAll_test h) hks
    obtain ⟨taken, n, t, hpast, hleads, ht⟩ := ih hlater
    have hways : taken.length ∈ waysAll later mid :=
      List.mem_flatMap.2 ⟨t, mem_walkAll_of_leads hplaced hlater hleads, ht⟩
    exact ⟨c :: taken, 0, _, past_cons_iff.2 ⟨mid, hmid, hpast⟩, .here (hfree _) h,
      mem_ways_test_iff.2 ⟨c, mid, _, hc, hmid, hways, rfl⟩⟩

theorem exists_goes_of_mem_waysAll (h : n ∈ waysAll ks g) :
    ∃ taken g', taken.length = n ∧ Past taken g g' ∧ Goes ks g g' := by
  induction hlength : g.rest.length using Nat.strongRecOn generalizing ks g n with
  | ind length ih =>
    subst hlength
    obtain ⟨t, ht, hn⟩ := List.mem_flatMap.1 h
    obtain ⟨steps, hleads⟩ := leads_of_mem_walkAll ht
    clear h ht
    induction hleads with
    | step _ hlater _ ih =>
      obtain ⟨taken, g', hlength, hpast, hgoes⟩ := ih hn
      exact ⟨taken, g', hlength, hpast, .step hlater hgoes⟩
    | @here _ ks t _ h =>
      cases t with
      | done =>
        obtain rfl : n = 0 := by
          cases hrest : g.rest <;> simpa [Thread.ways, hrest] using hn
        exact ⟨[], g, rfl, past_nil_iff.2 rfl, .done h⟩
      | test set later =>
        obtain ⟨c, mid, k, hc, hmid, hk, rfl⟩ := mem_ways_test_iff.1 hn
        have hshorter : mid.rest.length < g.rest.length := by
          rw [hmid.rest]
          simp
        obtain ⟨taken, g', hlength, hpast, hgoes⟩ := ih _ hshorter hk rfl
        exact ⟨c :: taken, g', congrArg (· + 1) hlength, past_cons_iff.2 ⟨mid, hmid, hpast⟩,
          .test h hc hmid hgoes⟩

end Net

namespace Regex
variable {r : Regex} {before? : Option Char} {text taken rest : List Char} {n : Nat}

theorem ways_eq (r : Regex) (before? : Option Char) (text : List Char) :
    r.ways before? text = Net.waysAll [r.net] ⟨before?, text⟩ := rfl

theorem takesAll_net {g g' : Gap} : Net.TakesAll [r.net] g g' ↔ r.Takes g g' := by
  rw [Net.TakesAll, Net.TakesAll, Relation.comp_eq, net, means_numbering r 0]

theorem le_length_of_mem_ways (h : n ∈ r.ways before? text) : n ≤ text.length := by
  rw [ways_eq] at h
  obtain ⟨taken, g', rfl, hpast, -⟩ := Net.exists_goes_of_mem_waysAll h
  have hrest : text = taken ++ g'.rest := hpast.rest
  simp [hrest]

/-- Backtracking finds the length of a text if and only if the expression may take that text. -/
theorem mem_ways_iff : taken.length ∈ r.ways before? (taken ++ rest) ↔
    r.Takes ⟨before?, taken ++ rest⟩ ⟨taken.getLast?.or before?, rest⟩ := by
  rw [ways_eq, ← takesAll_net]
  constructor
  · intro h
    obtain ⟨taken', ⟨before', rest'⟩, hlength, ⟨hrest, hbefore⟩, hgoes⟩ :=
      Net.exists_goes_of_mem_waysAll h
    obtain ⟨rfl, rfl⟩ := List.append_inj hrest hlength.symm
    cases hbefore
    exact hgoes.takesAll
  · intro h
    obtain ⟨taken', ⟨hrest, -⟩, hmem⟩ :=
      (Net.goes_of_takesAll h).mem_waysAll r.placed_net (List.Subset.refl _)
    obtain rfl := List.append_cancel_right hrest
    exact hmem

end Regex

end Packrat
