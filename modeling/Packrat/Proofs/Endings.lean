import Packrat.Engine

/-! What an action leaves is told by two conditions, one on answers and one on halts. The conditions
of a sequence are those of its parts, so what an operation of the engine does is read off its
definition once, as a condition on the programs it runs. -/

namespace Packrat
set_option autoImplicit false

namespace Machine
variable {σ : Type}

def snapshot (m : Machine σ) : Snapshot := ⟨m.parser.cursor.position, m.parser.skipper?⟩

def withParser (m : Machine σ) (p : Parser) : Machine σ := { m with parser := p }

def withCursor (m : Machine σ) (cursor : Cursor) : Machine σ :=
  m.withParser { m.parser with cursor }

def withSkipper (m : Machine σ) (skipper? : Option String) : Machine σ :=
  m.withParser { m.parser with skipper? }

def count (m : Machine σ) (f : Stats → Stats) : Machine σ :=
  m.withParser { m.parser with stats := f m.parser.stats }

def restore (m : Machine σ) (s : Snapshot) : Machine σ :=
  (m.withCursor (m.parser.cursor.moveTo s.position)).withSkipper s.skipper?

def memoize (m : Machine σ) (offset : Nat) (rule : String) (matched : Bool) : Machine σ :=
  m.withParser { m.parser with memo := m.parser.memo.insert offset rule matched }

def withShared (m : Machine σ) (s : Shared σ) : Machine σ := { m with shared := s }

def emit (m : Machine σ) (e : Event) : Machine σ :=
  m.withShared { m.shared with events := e :: m.shared.events }

def register (m : Machine σ) (id literal : String) : Machine σ :=
  (m.emit (.registered id literal)).withShared
    { m.shared with events := .registered id literal :: m.shared.events
                    tokens := m.shared.tokens.add id literal }

@[simp] theorem parser_withParser (m : Machine σ) (p : Parser) : (m.withParser p).parser = p := rfl

end Machine

namespace Action
variable {σ α β : Type}

/-- However `x` ends from `m`, an answer is as `Q` says and a halt as `E` says. -/
def Ends (x : Action σ α) (m : Machine σ) (Q : α → Machine σ → Prop)
    (E : Halt → Machine σ → Prop) : Prop :=
  match x m with
  | .ok a n => Q a n
  | .error why n => E why n

variable {x : Action σ α} {f : α → Action σ β} {m n : Machine σ} {a : α} {why : Halt}
variable {Q Q' : α → Machine σ → Prop} {E E' : Halt → Machine σ → Prop}
variable {R : β → Machine σ → Prop}

theorem Ends.ok (h : Ends x m Q E) (hx : x m = .ok a n) : Q a n := by
  unfold Ends at h
  rwa [hx] at h

theorem Ends.error (h : Ends x m Q E) (hx : x m = .error why n) : E why n := by
  unfold Ends at h
  rwa [hx] at h

theorem Ends.imp (h : Ends x m Q E) (hQ : ∀ a n, Q a n → Q' a n)
    (hE : ∀ why n, E why n → E' why n) : Ends x m Q' E' := by
  unfold Ends at h ⊢
  cases hx : x m with
  | ok a n =>
    rw [hx] at h
    exact hQ a n h
  | error why n =>
    rw [hx] at h
    exact hE why n h

theorem Ends.imp_ok (h : Ends x m Q E) (hQ : ∀ a n, Q a n → Q' a n) : Ends x m Q' E := by
  apply h.imp hQ
  intro why n hn
  exact hn

theorem ends_congr (hQ : ∀ a n, Q a n ↔ Q' a n) : Ends x m Q E ↔ Ends x m Q' E := by
  constructor
  · intro h
    exact h.imp_ok fun a n => (hQ a n).1
  · intro h
    exact h.imp_ok fun a n => (hQ a n).2

theorem ends_iff : Ends x m Q E ↔
    (∀ a n, x m = .ok a n → Q a n) ∧ ∀ why n, x m = .error why n → E why n := by
  constructor
  · intro h
    constructor
    · intro a n hx
      exact h.ok hx
    · intro why n hx
      exact h.error hx
  · rintro ⟨hQ, hE⟩
    unfold Ends
    cases hx : x m with
    | ok a n => exact hQ a n hx
    | error why n => exact hE why n hx

theorem ends_of_ok (h : ∀ a n, x m = .ok a n → Q a n) : Ends x m Q fun _ _ => True :=
  ends_iff.2 ⟨h, fun _ _ _ => trivial⟩

theorem bind_eq_of_ok (h : x m = .ok a n) : (x >>= f) m = f a n := by
  show EStateM.bind x f m = _
  unfold EStateM.bind
  rw [h]

theorem bind_eq_of_error (h : x m = .error why n) : (x >>= f) m = .error why n := by
  show EStateM.bind x f m = _
  unfold EStateM.bind
  rw [h]

theorem exists_of_bind_eq_ok {b : β} {k : Machine σ} (h : (x >>= f) m = .ok b k) :
    ∃ a n, x m = .ok a n ∧ f a n = .ok b k := by
  cases hx : x m with
  | ok a n => exact ⟨a, n, rfl, (bind_eq_of_ok hx).symm.trans h⟩
  | error why n =>
    change EStateM.bind x f m = _ at h
    unfold EStateM.bind at h
    rw [hx] at h
    cases h

theorem ends_of_eq_ok (h : x m = .ok a n) : Ends x m Q E ↔ Q a n := by
  unfold Ends
  rw [h]

theorem ends_of_eq_error (h : x m = .error why n) : Ends x m Q E ↔ E why n := by
  unfold Ends
  rw [h]

theorem eq_ok_iff_ends : x m = .ok a n ↔ Ends x m (fun b k => b = a ∧ k = n) fun _ _ => False := by
  constructor
  · intro h
    exact (ends_of_eq_ok h).2 ⟨rfl, rfl⟩
  · intro h
    cases hx : x m with
    | ok b k =>
      obtain ⟨rfl, rfl⟩ := h.ok hx
      rfl
    | error why k => exact (h.error hx).elim

theorem eq_error_iff_ends :
    x m = .error why n ↔ Ends x m (fun _ _ => False) fun w k => w = why ∧ k = n := by
  constructor
  · intro h
    exact (ends_of_eq_error h).2 ⟨rfl, rfl⟩
  · intro h
    cases hx : x m with
    | ok b k => exact (h.ok hx).elim
    | error w k =>
      obtain ⟨rfl, rfl⟩ := h.error hx
      rfl

@[simp] theorem ends_pure : Ends (pure a : Action σ α) m Q E ↔ Q a m := Iff.rfl

@[simp] theorem ends_bind : Ends (x >>= f) m R E ↔ Ends x m (fun a n => Ends (f a) n R E) E := by
  simp only [Ends, bind, EStateM.bind]
  cases x m <;> rfl

@[simp] theorem ends_get {Q : Machine σ → Machine σ → Prop} :
    Ends (get : Action σ (Machine σ)) m Q E ↔ Q m m := Iff.rfl

@[simp] theorem ends_getParser {Q : Parser → Machine σ → Prop} :
    Ends parser m Q E ↔ Q m.parser m := Iff.rfl

@[simp] theorem ends_modifyParser {u : Parser → Parser} {Q : Unit → Machine σ → Prop} :
    Ends (modifyParser u) m Q E ↔ Q () (m.withParser (u m.parser)) := Iff.rfl

@[simp] theorem ends_emit {e : Event} {Q : Unit → Machine σ → Prop} :
    Ends (emit e) m Q E ↔ Q () (m.emit e) := Iff.rfl

@[simp] theorem ends_count {u : Stats → Stats} {Q : Unit → Machine σ → Prop} :
    Ends (count u) m Q E ↔ Q () (m.count u) := Iff.rfl

@[simp] theorem ends_snapshot {Q : Snapshot → Machine σ → Prop} :
    Ends snapshot m Q E ↔ Q m.snapshot m := Iff.rfl

@[simp] theorem ends_restore {s : Snapshot} {Q : Unit → Machine σ → Prop} :
    Ends (restore s) m Q E ↔ Q () (m.restore s) := Iff.rfl

@[simp] theorem ends_failAt {cause : Error.Cause} {Q : Error → Machine σ → Prop} :
    Ends (failAt cause) m Q E ↔ Q ⟨cause, some m.parser.cursor.position⟩ m := Iff.rfl

theorem ends_look {u : Cursor → Except Fault α} : Ends (look u) m Q E ↔
    match u m.parser.cursor with
    | .ok a => Q a m
    | .error why => E (.fault why) m := by
  unfold look lift
  simp only [ends_bind, ends_getParser]
  cases u m.parser.cursor <;> rfl

theorem ends_move {u : Cursor → Except Fault (α × Cursor)} : Ends (move u) m Q E ↔
    match u m.parser.cursor with
    | .ok (a, cursor) => Q a (m.withCursor cursor)
    | .error why => E (.fault why) m := by
  unfold move
  simp only [ends_bind, ends_look]
  cases u m.parser.cursor <;> rfl

end Action

end Packrat
