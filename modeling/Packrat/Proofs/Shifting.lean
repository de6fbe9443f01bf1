import Packrat.Proofs.Backtracking

/-! Numbers of places do not matter. A net that is numbered further on is the same net with all
places moved, and backtracking goes through it in the same way. -/

namespace Packrat
set_option autoImplicit false

namespace Net

/-- All places are moved by `k`. -/
def shift (k : Nat) : Net → Net
  | .pass => .pass
  | .test place set => .test (place + k) set
  | .edge place e => .edge (place + k) e
  | .seq a b => .seq (a.shift k) (b.shift k)
  | .alt place a b => .alt (place + k) (a.shift k) (b.shift k)
  | .opt place a greedy => .opt (place + k) (a.shift k) greedy
  | .loop place a greedy entered => .loop (place + k) (a.shift k) greedy entered

def shiftAll (k : Nat) (ks : List Net) : List Net := ks.map (shift k)

end Net

open Net

def Thread.shift (k : Nat) : Thread → Thread
  | .done => .done
  | .test set behind => .test set (shiftAll k behind)

namespace Shape

def shift (k : Nat) : Shape → Shape
  | .done => .done
  | .jump later => .jump (shiftAll k later)
  | .test place set later => .test (place + k) set (shiftAll k later)
  | .edge place e later => .edge (place + k) e (shiftAll k later)
  | .fork place first second => .fork (place + k) (shiftAll k first) (shiftAll k second)

variable {k : Nat} {holds : Edge → Bool}

theorem place?_shift (s : Shape) : (s.shift k).place? = s.place?.map (· + k) := by
  cases s <;> rfl

theorem thread?_shift (s : Shape) : (s.shift k).thread? = s.thread?.map (Thread.shift k) := by
  cases s <;> rfl

theorem steps_shift (s : Shape) :
    (s.shift k).steps holds = (s.steps holds).map (shiftAll k) := by
  cases s with
  | edge place e later => cases h : holds e <;> simp [shift, steps, h]
  | _ => rfl

end Shape

/-- On the places of these nets, the marks are moved with them. -/
def Marks.Shifted (k : Nat) (ks : List Net) (m m' : Marks) : Prop :=
  ∀ {place ls}, (place, ls) ∈ spotsAll ks → m'.has (place + k) = m.has place

namespace Net
variable {k : Nat} {holds : Edge → Bool} {ks : List Net} {m m' : Marks}

theorem shape_shift (ks : List Net) : shape (shiftAll k ks) = (shape ks).shift k := by
  have hfork (place : Nat) (greedy : Bool) (more less : List Net) :
      (fork place greedy more less).shift k =
        fork (place + k) greedy (shiftAll k more) (shiftAll k less) := by
    cases greedy <;> rfl
  cases ks with
  | nil => rfl
  | cons net behind =>
    cases net with
    | opt place a greedy => exact (hfork place greedy (a :: behind) behind).symm
    | loop place a greedy entered =>
      cases entered with
      | true => rfl
      | false =>
        exact (hfork place greedy (a :: .loop place a greedy false :: behind) behind).symm
    | _ => rfl

theorem free_shift (h : m.Shifted k ks m') :
    ((shape ks).shift k).free m' = (shape ks).free m := by
  rw [Shape.free, Shape.free, Shape.place?_shift]
  cases hplace : (shape ks).place? with
  | none => rfl
  | some place => simp [h (mem_spotsAll hplace)]

theorem shifted_mark (h : m.Shifted k ks m') (s : Shape) :
    (s.mark m).Shifted k ks ((s.shift k).mark m') := by
  intro place ls hls
  rw [Shape.mark, Shape.mark, Shape.place?_shift]
  cases s.place? with
  | none => exact h hls
  | some other =>
    dsimp only [Option.map_some]
    rw [Marks.has_add, Marks.has_add, h hls, Bool.beq_eq_decide_eq, Bool.beq_eq_decide_eq]
    simp

theorem walkAll_shift (ks : List Net) (h : m.Shifted k ks m') :
    walkAll holds (shiftAll k ks) m' = (walkAll holds ks m).map (Thread.shift k) := by
  induction ks, m using shape_induct holds generalizing m' with
  | h ks m ih =>
    rw [walkAll_eq, walkAll_eq, shape_shift, walkShape, walkShape, free_shift h]
    split
    next hfree =>
      have hsteps : ((shape ks).steps holds).flatMap (fun later =>
          walkAll holds (shiftAll k later) (((shape ks).shift k).mark m')) =
            ((shape ks).steps holds).flatMap fun later =>
              (walkAll holds later ((shape ks).mark m)).map (Thread.shift k) :=
        List.flatMap_congr fun later hlater => ih hfree later hlater _ (.refl _) fun hls =>
          shifted_mark h (shape ks) (spotsAll_step hlater hls)
      rw [Shape.thread?_shift, Shape.steps_shift, List.map_append, List.map_flatMap,
        List.flatMap_map, hsteps]
      cases (shape ks).thread? <;> rfl
    next => rfl

theorem shifted_none (k : Nat) (ks : List Net) : Marks.none.Shifted k ks .none := fun _ => rfl

theorem ways_shift (text : List Char) (t : Thread) : (t.shift k).ways text = t.ways text := by
  induction text generalizing t with
  | nil => cases t <;> rfl
  | cons c rest ih =>
    cases t with
    | done => rfl
    | test set behind =>
      rw [Thread.shift, Thread.ways, Thread.ways, walkAll_shift behind (shifted_none k behind),
        List.flatMap_map]
      simp only [ih]

theorem shift_zero (net : Net) : net.shift 0 = net := by
  induction net <;> simp_all [shift]

theorem shiftAll_zero (ks : List Net) : shiftAll 0 ks = ks := by
  rw [shiftAll, List.map_congr_left fun net _ => net.shift_zero]
  exact List.map_id ks

/-- Only marks on places of the nets make a difference. -/
theorem walkAll_congr (h : m.Shifted 0 ks m') : walkAll holds ks m' = walkAll holds ks m := by
  have hthread (t : Thread) : t.shift 0 = t := by
    cases t with
    | done => rfl
    | test set behind => rw [Thread.shift, shiftAll_zero]
  have hshift : walkAll holds (shiftAll 0 ks) m' = _ := walkAll_shift ks h
  rw [shiftAll_zero, List.map_congr_left fun t _ => hthread t] at hshift
  exact hshift.trans (List.map_id _)

/-- Nets that have been moved go the same ways, with marks that are on other places only. -/
theorem flatMap_ways_shift (text : List Char) (h : m.Shifted k ks m') :
    (walkAll holds (shiftAll k ks) m').flatMap (Thread.ways text) =
      (walkAll holds ks m).flatMap (Thread.ways text) := by
  rw [walkAll_shift ks h, List.flatMap_map]
  simp only [ways_shift]

end Net

namespace Numbering
variable {a b : Numbering}

/-- Numbered further on, it gives the same nets with all places moved. -/
def Shifts (a : Numbering) : Prop := ∀ n k, a (n + k) = ((a n).1.shift k, (a n).2 + k)

theorem shifts_pass : Shifts pass := fun _ _ => rfl

theorem shifts_test (set : CharSet) : Shifts (test set) := by
  intro n k
  simp [test, Net.shift, Nat.add_right_comm]

theorem shifts_edge (e : Edge) : Shifts (edge e) := by
  intro n k
  simp [edge, Net.shift, Nat.add_right_comm]

theorem Shifts.seq (ha : a.Shifts) (hb : b.Shifts) : Shifts (seq a b) := by
  intro n k
  simp [Numbering.seq, ha n k, hb _ k, Net.shift]

theorem Shifts.alt (ha : a.Shifts) (hb : b.Shifts) : Shifts (alt a b) := by
  intro n k
  simp [Numbering.alt, ha n k, hb _ k, Net.shift, Nat.add_right_comm]

theorem Shifts.opt (ha : a.Shifts) (greedy : Bool) : Shifts (opt a greedy) := by
  intro n k
  simp [Numbering.opt, ha n k, Net.shift, Nat.add_right_comm]

theorem Shifts.loop (ha : a.Shifts) (greedy entered : Bool) : Shifts (loop a greedy entered) := by
  intro n k
  simp [Numbering.loop, ha n k, Net.shift, Nat.add_right_comm]

end Numbering

namespace Regex
open Packrat.Numbering

theorem shifts_numbering (r : Regex) : r.numbering.Shifts :=
  Numbering.induct shifts_pass shifts_test shifts_edge Shifts.seq Shifts.alt Shifts.opt Shifts.loop
    r

/-- Numbered from any number on it is the same net, moved. -/
theorem numbering_eq (r : Regex) (n : Nat) :
    r.numbering n = (r.net.shift n, (r.numbering 0).2 + n) := by
  have h := r.shifts_numbering 0 n
  rwa [Nat.zero_add] at h

end Regex

end Packrat
