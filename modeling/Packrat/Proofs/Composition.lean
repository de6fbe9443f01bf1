import Packrat.Proofs.Language
import Packrat.Proofs.Shifting

/-! The order of the matches, by the parts of an expression. Of alternatives the first comes first.
In a sequence the order of the first part comes first, and behind each of its matches stand those of
the second part, in their order. -/

namespace Packrat
set_option autoImplicit false

namespace Shape

/-- With more nets to come at the end. -/
def append (ls : List Net) : Shape → Shape
  | .done => .done
  | .jump later => .jump (later ++ ls)
  | .test place set later => .test place set (later ++ ls)
  | .edge place e later => .edge place e (later ++ ls)
  | .fork place first second => .fork place (first ++ ls) (second ++ ls)

variable {holds : Edge → Bool} {ls : List Net}

theorem place?_append (s : Shape) : (s.append ls).place? = s.place? := by
  cases s <;> rfl

theorem steps_append (s : Shape) :
    (s.append ls).steps holds = (s.steps holds).map (· ++ ls) := by
  cases s with
  | edge place e later => cases h : holds e <;> simp [append, steps, h]
  | _ => rfl

theorem free_append (s : Shape) (m : Marks) : (s.append ls).free m = s.free m := by
  rw [free, free, place?_append]

theorem mark_append (s : Shape) (m : Marks) : (s.append ls).mark m = s.mark m := by
  rw [mark, mark, place?_append]

end Shape

/-- Where the thread ends, these nets are to come. -/
def Thread.onTo (holds : Edge → Bool) (ls : List Net) (m : Marks) : Thread → List Thread
  | .done => Net.walkAll holds ls m
  | .test set behind => [.test set (behind ++ ls)]

/-- As many characters on. -/
def Gap.skip (g : Gap) (n : Nat) : Gap := ⟨(g.rest.take n).getLast?.or g.before?, g.rest.drop n⟩

theorem Gap.skip_succ (before? : Option Char) (c : Char) (rest : List Char) (n : Nat) :
    Gap.skip ⟨before?, c :: rest⟩ (n + 1) = Gap.skip ⟨some c, rest⟩ n :=
  congrArg (Gap.mk · (rest.drop n)) (getLast?_cons_or c (rest.take n) before?)

namespace Net
variable {holds : Edge → Bool} {ks ls later : List Net} {m m' : Marks} {k : Nat}

theorem shape_append (net : Net) (behind ls : List Net) :
    shape (net :: (behind ++ ls)) = (shape (net :: behind)).append ls := by
  have hfork (place : Nat) (greedy : Bool) (more less : List Net) :
      (fork place greedy more less).append ls =
        fork place greedy (more ++ ls) (less ++ ls) := by
    cases greedy <;> rfl
  cases net with
  | opt place a greedy => exact (hfork place greedy (a :: behind) behind).symm
  | loop place a greedy entered =>
    cases entered with
    | true => rfl
    | false =>
      exact (hfork place greedy (a :: .loop place a greedy false :: behind) behind).symm
  | _ => rfl

theorem thread?_append (net : Net) (behind : List Net) :
    ((shape (net :: behind)).append ls).thread?.toList =
      (shape (net :: behind)).thread?.toList.flatMap (Thread.onTo holds ls m) := by
  cases hshape : shape (net :: behind) with
  | done =>
    obtain ⟨h, -⟩ | ⟨_, _, _, -, h⟩ := thread?_shape (congrArg Shape.thread? hshape)
    · cases h
    · cases h
  | _ => rfl

/-- The nets have no place in common. -/
def Apart (ks ls : List Net) : Prop :=
  ∀ {place xs ys}, (place, xs) ∈ spotsAll ks → (place, ys) ∉ spotsAll ls

theorem Apart.of_subset (h : Apart ks ls) (hlater : spotsAll later ⊆ spotsAll ks) :
    Apart later ls := fun hx => h (hlater hx)

theorem onTo_mark (h : Apart ks ls) (m : Marks) :
    Thread.onTo holds ls ((shape ks).mark m) = Thread.onTo holds ls m := by
  funext t
  cases t with
  | test => rfl
  | done =>
    refine walkAll_congr fun {place ys} hys => ?_
    have hplace : (shape ks).place? ≠ some place := fun hplace => h (mem_spotsAll hplace) hys
    rw [Nat.add_zero, Bool.eq_iff_iff, Shape.has_mark, or_iff_right hplace]

theorem walkAll_append (h : Apart ks ls) (m : Marks) :
    walkAll holds (ks ++ ls) m = (walkAll holds ks m).flatMap (Thread.onTo holds ls m) := by
  induction ks, m using shape_induct holds with
  | h ks m ih =>
    cases ks with
    | nil => exact (List.append_nil _).symm
    | cons net behind =>
      rw [List.cons_append, walkAll_eq, walkAll_eq, shape_append, walkShape, walkShape,
        Shape.free_append, Shape.mark_append]
      split
      next hfree =>
        have hsteps : ((shape (net :: behind)).steps holds).flatMap (fun later =>
            walkAll holds (later ++ ls) ((shape (net :: behind)).mark m)) =
              ((shape (net :: behind)).steps holds).flatMap fun later =>
                (walkAll holds later ((shape (net :: behind)).mark m)).flatMap
                  (Thread.onTo holds ls m) := by
          refine List.flatMap_congr fun later hlater => ?_
          rw [ih hfree later hlater _ (.refl _) (h.of_subset (spotsAll_step hlater)), onTo_mark h]
        rw [thread?_append, Shape.steps_append, List.flatMap_map, hsteps, List.flatMap_append,
          List.flatMap_assoc]
      next => rfl

/-- Nets that are to come at a thread were to come before. -/
theorem Leads.subset {n : Nat} {set : CharSet} (h : Leads holds m n ks (.test set later)) :
    spotsAll later ⊆ spotsAll ks := by
  generalize ht : Thread.test set later = t at h
  induction h with
  | here _ hthread =>
    subst ht
    exact spotsAll_test hthread
  | step _ hlater _ ih => exact List.Subset.trans (ih ht) (spotsAll_step hlater)

theorem flatMap_onTo_done (g : Gap) :
    (Thread.onTo g.holds ls .none .done).flatMap (Thread.ways g.rest) =
      (Thread.ways g.rest .done).flatMap fun n => (waysAll ls (g.skip n)).map (n + ·) := by
  have hways : Thread.ways g.rest .done = [0] := by cases g.rest <;> rfl
  rw [hways, List.flatMap_singleton]
  simp [Gap.skip, waysAll, Thread.onTo]

/-- Behind each way the ways from its end. -/
theorem waysAll_append (h : Apart ks ls) (g : Gap) : waysAll (ks ++ ls) g =
    (waysAll ks g).flatMap fun n => (waysAll ls (g.skip n)).map (n + ·) := by
  obtain ⟨before?, text⟩ := g
  induction text generalizing ks before? with
  | nil =>
    rw [waysAll, waysAll, walkAll_append h, List.flatMap_assoc, List.flatMap_assoc]
    refine List.flatMap_congr fun t _ => ?_
    cases t with
    | done => exact flatMap_onTo_done _
    | test => rfl
  | cons c rest ih =>
    rw [waysAll, waysAll, walkAll_append h, List.flatMap_assoc, List.flatMap_assoc]
    refine List.flatMap_congr fun t ht => ?_
    cases t with
    | done => exact flatMap_onTo_done _
    | test set behind =>
      obtain ⟨_, hleads⟩ := leads_of_mem_walkAll ht
      have hways := ih (h.of_subset hleads.subset) (some c)
      rw [Thread.onTo, List.flatMap_singleton, Thread.ways, Thread.ways]
      split
      next =>
        rw [List.flatMap_map]
        refine (congrArg (List.map (· + 1)) hways).trans ?_
        rw [List.map_flatMap]
        refine List.flatMap_congr fun n _ => ?_
        rw [Gap.skip_succ, List.map_map]
        exact List.map_congr_left fun k _ => Nat.add_right_comm n k 1
      next => rfl

end Net

namespace Regex

theorem apart_numbering (a b : Regex) :
    Net.Apart [a.net] [(b.numbering (a.numbering 0).2).1] := by
  intro place xs ys hx hy
  have hbelow := ((a.tidy_numbering 0).bounds place (Net.mem_places_of_mem_spotsAll hx)).2
  have habove := ((b.tidy_numbering _).bounds place (Net.mem_places_of_mem_spotsAll hy)).1
  omega

theorem waysAll_numbering (r : Regex) (n : Nat) (g : Gap) :
    Net.waysAll [(r.numbering n).1] g = r.ways g.before? g.rest := by
  rw [numbering_eq]
  exact Net.flatMap_ways_shift g.rest (Net.shifted_none n [r.net])

/-- In a sequence the order of the first part comes first. -/
theorem ways_seq (a b : Regex) (before? : Option Char) (text : List Char) :
    (seq a b).ways before? text = (a.ways before? text).flatMap fun n =>
      (b.ways ((text.take n).getLast?.or before?) (text.drop n)).map (n + ·) := by
  have happend := Net.waysAll_append (apart_numbering a b) ⟨before?, text⟩
  simp only [waysAll_numbering] at happend
  exact happend

/-- A mark on a place behind those of the net does not matter. -/
theorem ways_numbering_add (r : Regex) {n l : Nat} (hl : (r.numbering n).2 ≤ l)
    (holds : Edge → Bool) (text : List Char) :
    (Net.walkAll holds [(r.numbering n).1] (Marks.none.add l)).flatMap (Thread.ways text) =
      (Net.walkAll holds [r.net] .none).flatMap (Thread.ways text) := by
  have hshifted : Marks.none.Shifted n [r.net] (Marks.none.add l) := by
    intro place ls hls
    have hbelow := ((r.tidy_numbering 0).bounds place (Net.mem_places_of_mem_spotsAll hls)).2
    have hl : (r.numbering 0).2 + n ≤ l := by rwa [numbering_eq] at hl
    have hne : place + n ≠ l := by omega
    simp [hne]
  rw [numbering_eq]
  exact Net.flatMap_ways_shift text hshifted

/-- Of alternatives the first comes first. -/
theorem ways_alt (a b : Regex) (before? : Option Char) (text : List Char) :
    (alt a b).ways before? text = a.ways before? text ++ b.ways before? text := by
  let n := (a.numbering 0).2
  let l := (b.numbering n).2
  have hwalk (holds : Edge → Bool) : Net.walkAll holds [(alt a b).net] .none =
      Net.walkAll holds [(a.numbering 0).1] (Marks.none.add l) ++
        Net.walkAll holds [(b.numbering n).1] (Marks.none.add l) := rfl
  rw [ways, hwalk, List.flatMap_append, ways_numbering_add a (b.tidy_numbering n).le,
    ways_numbering_add b (Nat.le_refl l)]
  rfl

/-- At the start of a text nothing is changed by an edge for it. -/
theorem ways_start_seq (r : Regex) (text : List Char) :
    (seq (.edge .start) r).ways none text = r.ways none text := by
  have hstart : (edge .start).ways none text = [0] := by cases text <;> rfl
  rw [ways_seq, hstart, List.flatMap_singleton]
  simp

theorem ways_start (text : List Char) : (edge .start).ways none text = empty.ways none text := rfl

end Regex

end Packrat
