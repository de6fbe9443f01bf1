import Packrat.Proofs.Backtracking
import Packrat.Proofs.Threading

/-! Which match is preferred. Threads that go side by side share the places that were reached, and
find first what backtracking finds first: where a way comes to a place that another way has been at,
that other way has failed there, or will be preferred. -/

namespace Packrat
set_option autoImplicit false

namespace Frontier
variable {α : Type} {v : Thread → Option α} {f f' : Frontier} {x : α}

/-- What the first thread is worth that is worth anything. -/
def worth? (v : Thread → Option α) (f : Frontier) : Option α := f.ordered.findSome? v

theorem Grows.worth? (h : f.Grows f') (hx : f.worth? v = some x) : f'.worth? v = some x := by
  obtain ⟨more, hmore⟩ := h.threads
  rw [Frontier.worth?, ordered, ← hmore, List.reverse_append, List.findSome?_append]
  rw [Frontier.worth?, ordered] at hx
  rw [hx]
  rfl

theorem worth?_come (s : Shape) (h : f.worth? v = none) :
    (f.come s).worth? v = s.thread?.toList.findSome? v := by
  rw [worth?, ordered, come, List.reverse_append, List.findSome?_append,
    show f.threads.reverse.findSome? v = none from h]
  cases s.thread? <;> rfl

end Frontier

namespace Net
variable {holds : Edge → Bool} {α : Type} {v : Thread → Option α} {m : Marks} {ks : List Net}
variable {spots : List (Nat × List Net)} {f : Frontier}

/-- From what was reached, but is not on the way here, nothing of worth is come to off this way. -/
def Spent (holds : Edge → Bool) (v : Thread → Option α) (spots : List (Nat × List Net)) (m : Marks)
    (f : Frontier) : Prop :=
  ∀ {place ks}, f.reached.has place → m.has place = false → (place, ks) ∈ spots →
    ∀ {n t}, Leads holds m n ks t → v t = none

/-- Of the ways, the first of worth has been found; if there is none, what was reached is spent. -/
structure Finds (holds : Edge → Bool) (v : Thread → Option α) (spots : List (Nat × List Net))
    (m : Marks) (f : Frontier) (ways : List Thread) : Prop where
  worth : f.worth? v = ways.findSome? v
  spent : f.worth? v = none → Spent holds v spots m f

/-- From here with `m` on the way here, entering the nets finds what backtracking finds. -/
def Shares (holds : Edge → Bool) (v : Thread → Option α) (spots : List (Nat × List Net))
    (ks : List Net) (reached : Marks) : Prop :=
  ∀ {m f}, f.reached = reached → m.Within reached → spotsAll ks ⊆ spots →
    Spent holds v spots m f → f.worth? v = none →
    Finds holds v spots m (enterAll holds ks f) (walkAll holds ks m)

theorem grows_enterEach (holds : Edge → Bool) (beginnings : List (List Net)) (f : Frontier) :
    f.Grows (enterEach holds beginnings f) := by
  induction beginnings generalizing f with
  | nil => exact .refl f
  | cons ks later ih => exact (grows_enterAll holds ks f).trans (ih _)

/-- What is found is kept, and where nothing is found, the rest of the ways is gone. -/
theorem finds_append {f' : Frontier} {first rest : List Thread}
    (hfirst : f.worth? v = first.findSome? v) (hgrows : f.Grows f')
    (hrest : f.worth? v = none → Finds holds v spots m f' rest) :
    Finds holds v spots m f' (first ++ rest) := by
  cases hfound : f.worth? v with
  | some x =>
    have hlast := hgrows.worth? hfound
    refine ⟨?_, fun hnone => ?_⟩
    · rw [List.findSome?_append, ← hfirst, hfound]
      exact hlast
    · cases hlast.symm.trans hnone
  | none =>
    obtain ⟨hworth, hspent⟩ := hrest hfound
    refine ⟨?_, hspent⟩
    rw [List.findSome?_append, ← hfirst, hfound]
    exact hworth

theorem finds_enterEach {beginnings : List (List Net)}
    (h : ∀ ks ∈ beginnings, ∀ reached, f.reached.Within reached → Shares holds v spots ks reached)
    (hspots : ∀ ks ∈ beginnings, spotsAll ks ⊆ spots) (hm : m.Within f.reached)
    (hspent : Spent holds v spots m f) (hnone : f.worth? v = none) :
    Finds holds v spots m (enterEach holds beginnings f)
      (beginnings.flatMap fun ks => walkAll holds ks m) := by
  induction beginnings generalizing f with
  | nil => exact ⟨hnone, fun _ => hspent⟩
  | cons ks later ih =>
    obtain ⟨hks, hlater⟩ := List.forall_mem_cons.1 h
    obtain ⟨hspots, hspots'⟩ := List.forall_mem_cons.1 hspots
    obtain ⟨hworth, hspent⟩ := hks _ (.refl _) rfl hm hspots hspent hnone
    have hgrows := (grows_enterAll holds ks f).reached
    refine finds_append hworth (grows_enterEach holds later _) fun hnone => ?_
    exact ih (fun ls hls reached hreached => hlater ls hls reached (hgrows.trans hreached))
      hspots' (hm.trans hgrows) (hspent hnone) hnone

/-- What is at the next place is on the way, then. -/
theorem Spent.come (s : Shape) (h : Spent holds v spots m f) :
    Spent holds v spots (s.mark m) (f.come s) := by
  intro place ls hreached hm hls n t hleads
  rw [Bool.eq_false_iff, ne_eq, Shape.has_mark, not_or] at hm
  have hreached := (Shape.has_mark.1 hreached).resolve_left hm.1
  exact h hreached (Bool.eq_false_iff.2 hm.2) hls (hleads.fewer (s.within_mark m))

/-- What was spent off the way and off its next place is spent off the way, if from the next place
nothing is to be found either. -/
theorem Spent.leave (hplaced : Placed spots) (hks : spotsAll ks ⊆ spots)
    (h : Spent holds v spots ((shape ks).mark m) f)
    (hnothing : ∀ {n t}, Leads holds m n ks t → v t = none) : Spent holds v spots m f := by
  intro place ls hreached hm hls n t hleads
  cases hplace : (shape ks).place? with
  | none =>
    rw [Shape.mark, hplace] at h
    exact h hreached hm hls hleads
  | some next =>
    rw [Shape.mark, hplace] at h
    have hnext := hks (mem_spotsAll hplace)
    by_cases hplace : place = next
    · subst hplace
      obtain rfl := hplaced.unique hls hnext
      exact hnothing hleads
    · have hm : (m.add next).has place = false := by simp [hplace, hm]
      rcases hleads.avoid next with hleads | ⟨ls', hls', hleads⟩
      · exact h hreached hm hls hleads
      · obtain rfl := hplaced.unique (hplaced.closed hls hls') hnext
        exact hnothing hleads

theorem shares (hplaced : Placed spots) (ks : List Net) (reached : Marks) :
    Shares holds v spots ks reached := by
  induction ks, reached using shape_induct holds with
  | h ks reached ih =>
    intro m f hf hm hks hspent hnone
    subst hf
    rw [enterAll_eq, enterShape]
    split
    next hfree =>
      have hwalk : walkAll holds ks m = (shape ks).thread?.toList ++
          ((shape ks).steps holds).flatMap fun later =>
            walkAll holds later ((shape ks).mark m) := by
        rw [walkAll_eq, walkShape, if_pos (Shape.free_of_within hm hfree)]
      have hfinds : Finds holds v spots ((shape ks).mark m)
          (enterEach holds ((shape ks).steps holds) (f.come (shape ks))) (walkAll holds ks m) := by
        rw [hwalk]
        refine finds_append (Frontier.worth?_come _ hnone) (grows_enterEach holds _ _) ?_
        exact finds_enterEach (fun later hlater => ih hfree later hlater)
          (fun later hlater => List.Subset.trans (spotsAll_step hlater) hks)
          (Shape.mark_within hm) (hspent.come _)
      refine ⟨hfinds.worth, fun hlast => Spent.leave hplaced hks (hfinds.spent hlast) ?_⟩
      intro n t hleads
      rw [hfinds.worth, List.findSome?_eq_none_iff] at hlast
      exact hlast t (mem_walkAll_of_leads hplaced hks hleads)
    next hfree =>
      -- The way ends here, or what is to come here was spent.
      refine ⟨?_, fun _ => hspent⟩
      rw [hnone, eq_comm, List.findSome?_eq_none_iff]
      intro t ht
      obtain ⟨hfree', -⟩ := mem_walkAll_iff.1 ht
      obtain ⟨place, hplace, hreached⟩ : ∃ place ∈ (shape ks).place?, f.reached.has place := by
        simpa [Shape.free_iff] using hfree
      obtain ⟨n, hn⟩ := leads_of_mem_walkAll ht
      exact hspent hreached (Shape.free_iff.1 hfree' place hplace) (hks (mem_spotsAll hplace)) hn

/-- What is behind the thread has its places among these. -/
def Keeps (spots : List (Nat × List Net)) (t : Thread) : Prop :=
  ∀ {set later}, t = .test set later → spotsAll later ⊆ spots

theorem keeps_enterEach {beginnings : List (List Net)}
    (h : ∀ ks ∈ beginnings, ∀ f' : Frontier, f.reached.Within f'.reached →
      (∀ t ∈ f'.threads, Keeps spots t) → ∀ t ∈ (enterAll holds ks f').threads, Keeps spots t)
    (hf : ∀ t ∈ f.threads, Keeps spots t) :
    ∀ t ∈ (enterEach holds beginnings f).threads, Keeps spots t := by
  induction beginnings generalizing f with
  | nil => exact hf
  | cons ks later ih =>
    obtain ⟨hks, hlater⟩ := List.forall_mem_cons.1 h
    have hgrows := (grows_enterAll holds ks f).reached
    exact ih (fun ls hls f' hf' => hlater ls hls f' (hgrows.trans hf')) (hks f (.refl _) hf)

theorem keeps_enterAll (hks : spotsAll ks ⊆ spots) (hf : ∀ t ∈ f.threads, Keeps spots t) :
    ∀ t ∈ (enterAll holds ks f).threads, Keeps spots t := by
  generalize hreached : f.reached = reached
  induction ks, reached using shape_induct holds generalizing f with
  | h ks reached ih =>
    subst hreached
    rw [enterAll_eq, enterShape]
    split
    next hfree =>
      refine keeps_enterEach (fun later hlater f' hf' hkeeps => ?_) fun t ht => ?_
      · exact ih hfree later hlater _ hf' (List.Subset.trans (spotsAll_step hlater) hks) hkeeps rfl
      · rcases List.mem_append.1 ht with ht | ht
        · rintro set later rfl
          exact List.Subset.trans (spotsAll_test (Option.mem_toList.1 ht)) hks
        · exact hf t ht
    next => exact hf

theorem keeps_threads {beginnings : List (List Net)}
    (hspots : ∀ ks ∈ beginnings, spotsAll ks ⊆ spots) :
    ∀ t ∈ threads holds beginnings, Keeps spots t := by
  intro t ht
  refine keeps_enterEach (f := .empty) (fun ks hks f' _ hf' => keeps_enterAll (hspots ks hks) hf')
    ?_ t (List.mem_reverse.1 ht)
  intro t ht
  cases ht

theorem findSome?_threads (hplaced : Placed spots) {beginnings : List (List Net)}
    (hspots : ∀ ks ∈ beginnings, spotsAll ks ⊆ spots) :
    (threads holds beginnings).findSome? v =
      (beginnings.flatMap fun ks => walkAll holds ks .none).findSome? v := by
  have hspent : Spent holds v spots .none .empty := by
    intro place ks h
    cases h
  exact (finds_enterEach (fun ks _ reached _ => shares hplaced ks reached) hspots
    (Marks.none_within _) hspent rfl).worth

end Net

namespace Thread
open Net
variable {spots : List (Nat × List Net)} {threads : List Thread} {c : Char}

theorem exists_of_mem_passed {later : List Net} (h : later ∈ passed c threads) :
    ∃ set, .test set later ∈ threads := by
  fun_induction passed c threads with
  | case1 set behind threads hc ih =>
    rcases List.mem_cons.1 h with rfl | h
    · exact ⟨set, List.mem_cons_self⟩
    · obtain ⟨set, hset⟩ := ih h
      exact ⟨set, List.mem_cons_of_mem _ hset⟩
  | case2 set behind threads hc ih =>
    obtain ⟨set, hset⟩ := ih h
    exact ⟨set, List.mem_cons_of_mem _ hset⟩
  | case3 => cases h
  | case4 => cases h

theorem head?_ways_nil (threads : List Thread) :
    (threads.flatMap (ways [])).head? = if threads.any isDone then some 0 else none := by
  induction threads with
  | nil => rfl
  | cons t threads ih =>
    cases t with
    | done => rfl
    | test set behind => simpa [ways, isDone] using ih

/-- The threads that get past a character come before the first match that ends here. -/
theorem head?_ways_cons (c : Char) (rest : List Char) (threads : List Thread) :
    (threads.flatMap (ways (c :: rest))).head? =
      (((passed c threads).flatMap fun later =>
        (walkAll (Edge.holds (some c) rest.head?) later .none).flatMap (ways rest)).head?.map
          (· + 1)).or (if threads.any isDone then some 0 else none) := by
  induction threads with
  | nil => rfl
  | cons t threads ih =>
    cases t with
    | done => rfl
    | test set behind =>
      rw [List.flatMap_cons, List.head?_append, ih, ways, passed]
      split
      · rw [List.flatMap_cons, List.head?_append, List.head?_map, ← Option.or_assoc, Option.map_or]
        rfl
      · rfl

/-- Threads that go side by side find the match that backtracking prefers. -/
theorem run_eq (hplaced : Placed spots) (text : List Char) {threads : List Thread}
    (hspots : ∀ t ∈ threads, Keeps spots t) (taken : Nat) (best? : Option Nat) :
    run threads taken best? text =
      ((threads.flatMap (ways text)).head?.map (taken + ·)).or best? := by
  induction text generalizing threads taken best? with
  | nil =>
    rw [run_nil, head?_ways_nil]
    cases threads.any isDone <;> rfl
  | cons c rest ih =>
    have hpassed (later : List Net) (h : later ∈ passed c threads) : spotsAll later ⊆ spots := by
      obtain ⟨set, hset⟩ := exists_of_mem_passed h
      exact hspots _ hset rfl
    rw [run_cons, head?_ways_cons]
    generalize passed c threads = nets at hpassed
    cases nets with
    | nil => cases threads.any isDone <;> rfl
    | cons later more =>
      dsimp only
      rw [ih (keeps_threads hpassed), List.head?_flatMap, findSome?_threads hplaced hpassed,
        ← List.head?_flatMap, List.flatMap_assoc]
      generalize (List.flatMap _ (later :: more)).head? = found
      cases found with
      | none => cases threads.any isDone <;> rfl
      | some n => simp [Nat.add_comm, Nat.add_left_comm]

end Thread

/-- The length of the match that is found is the first of all lengths that backtracking finds. -/
theorem Regex.length?_eq (r : Regex) (before? : Option Char) (text : List Char) :
    r.length? before? text = (r.ways before? text).head? := by
  have hplaced := r.placed_net
  have hspots : ∀ ks ∈ [[r.net]], Net.spotsAll ks ⊆ Net.spotsAll [r.net] := by simp
  rw [length?, Thread.run_eq hplaced text (Net.keeps_threads hspots), List.head?_flatMap,
    Net.findSome?_threads hplaced hspots, ← List.head?_flatMap, ways, List.flatMap_singleton]
  cases (List.head? _) <;> simp

end Packrat
