import Packrat.Proofs.Continuity
import Packrat.Proofs.Depth
import Packrat.Proofs.Steady

/-! One run follows another if it gets, with levels enough, to the same end. What each may have in
its memo is told by the outcomes that tests without a memo come to. -/

namespace Packrat
set_option autoImplicit false

/-- The same setting, but for whether tests are answered from the memo. -/
def Setting.memoized {N σ : Type} (g : Setting N σ) (memoizes : Bool) : Setting N σ :=
  { g with memoizes }

theorem Setting.KeepsSessions.memoized {N σ : Type} {g : Setting N σ} (hg : g.KeepsSessions)
    (b : Bool) : (g.memoized b).KeepsSessions := hg

namespace Action
variable {σ α β : Type} {y : Nat → Action σ α} {m n : Machine σ} {a : α} {why : Halt}
variable {r r' : EStateM.Result Halt (Machine σ) α}

/-- With levels enough, `y` ends like that. -/
def Eventually (y : Nat → Action σ α) (m : Machine σ)
    (r : EStateM.Result Halt (Machine σ) α) : Prop :=
  ∃ depth, ∀ d, depth ≤ d → y d m = r

theorem Eventually.unique (h : Eventually y m r) (h' : Eventually y m r') : r = r' := by
  obtain ⟨depth, hr⟩ := h
  obtain ⟨depth', hr'⟩ := h'
  have hleft := hr (max depth depth') (by omega)
  have hright := hr' (max depth depth') (by omega)
  exact hleft.symm.trans hright

theorem Eventually.bind {f : Nat → α → Action σ β} {r : EStateM.Result Halt (Machine σ) β}
    (h : Eventually y m (.ok a n)) (hf : Eventually (fun d => f d a) n r) :
    Eventually (fun d => y d >>= f d) m r := by
  obtain ⟨depth, ha⟩ := h
  obtain ⟨depth', hr⟩ := hf
  refine ⟨max depth depth', ?_⟩
  intro d hd
  have hy := ha d (by omega)
  have hfy := hr d (by omega)
  exact (bind_eq_of_ok hy).trans hfy

theorem Eventually.bind_error {f : Nat → α → Action σ β} (h : Eventually y m (.error why n)) :
    Eventually (fun d => y d >>= f d) m (.error why n) := by
  obtain ⟨depth, hwhy⟩ := h
  refine ⟨depth, ?_⟩
  intro d hd
  exact bind_eq_of_error (hwhy d hd)

theorem eventually_succ : Eventually (fun d => y (d + 1)) m r ↔ Eventually y m r := by
  constructor
  · rintro ⟨depth, hr⟩
    refine ⟨depth + 1, ?_⟩
    intro d hd
    cases d with
    | zero => omega
    | succ d => exact hr d (by omega)
  · rintro ⟨depth, hr⟩
    refine ⟨depth, ?_⟩
    intro d hd
    exact hr (d + 1) (by omega)

/-- Where `x` gets from `m`, `y` gets from `m'` with levels enough, if no name that `x` leaves
registered has another text there. The machines are then related as `S` says, and what `y` leaves
registered was so before or is left so by `x`. -/
def Follows (S : Machine σ → Machine σ → Prop) (x : Action σ α) (y : Nat → Action σ α)
    (m m' : Machine σ) (Q : α → Prop) : Prop :=
  Ends x m
    (fun a n => m'.shared.tokens.Agree n.shared.tokens → Q a ∧ ∃ n', Eventually y m' (.ok a n') ∧
      S n n' ∧ n'.shared.tokens.InEither m'.shared.tokens n.shared.tokens)
    (fun why n => why ≠ .tooDeep → m'.shared.tokens.Agree n.shared.tokens →
      ∃ n', Eventually y m' (.error why n') ∧ n'.parser.cursor = n.parser.cursor)

namespace Follows
variable {S : Machine σ → Machine σ → Prop} {x : Action σ α} {m' n' : Machine σ}
variable {Q Q' : α → Prop} {R : β → Prop}

/-- Both take a step that registers nothing. -/
theorem step (hx : x m = .ok a n) (hy : ∀ d, y d m' = .ok a n') (hQ : Q a) (hS : S n n')
    (ht : n'.shared.tokens = m'.shared.tokens) : Follows S x y m m' Q := by
  apply (ends_of_eq_ok hx).2
  intro _
  refine ⟨hQ, n', ⟨0, fun d _ => hy d⟩, hS, ?_⟩
  intro id text h
  rw [ht] at h
  exact Or.inl h

theorem look {e : α} (hx : x m = .ok a m) (hy : ∀ d, y d m' = .ok e m') (ha : e = a) (hQ : Q a)
    (hS : S m m') : Follows S x y m m' Q := by
  subst ha
  exact step hx hy hQ hS rfl

theorem imp (h : Follows S x y m m' Q) (hQ : ∀ a, Q a → Q' a) : Follows S x y m m' Q' := by
  apply Ends.imp_ok h
  intro a n hn ht
  obtain ⟨ha, hn'⟩ := hn ht
  exact ⟨hQ a ha, hn'⟩

theorem bind {f : α → Action σ β} {f' : Nat → α → Action σ β} (h : Follows S x y m m' Q)
    (hgrows : ∀ a n, Ends (f a) n (fun _ k => n.Grows k) fun _ k => n.Grows k)
    (hf : ∀ a n n', Q a → S n n' → Follows S (f a) (fun d => f' d a) n n' R) :
    Follows S (x >>= f) (fun d => y d >>= f' d) m m' R := by
  apply ends_bind.2
  apply ends_iff.2
  constructor
  · intro a n hx
    apply ends_iff.2
    constructor
    · intro b k hk ht
      have hnk : n.shared.tokens.Within k.shared.tokens := ((hgrows a n).ok hk).tokens
      obtain ⟨ha, n', hy, hS, hn'⟩ := h.ok hx (ht.of_within hnk)
      obtain ⟨hb, k', hfy, hSk, hk'⟩ := (hf a n n' ha hS).ok hk (ht.of_either hnk hn')
      exact ⟨hb, k', hy.bind hfy, hSk, hn'.trans hk' hnk⟩
    · intro why k hk hwhy ht
      have hnk : n.shared.tokens.Within k.shared.tokens := ((hgrows a n).error hk).tokens
      obtain ⟨ha, n', hy, hS, hn'⟩ := h.ok hx (ht.of_within hnk)
      obtain ⟨k', hfy, hk'⟩ := (hf a n n' ha hS).error hk hwhy (ht.of_either hnk hn')
      exact ⟨k', hy.bind hfy, hk'⟩
  · intro why n hx hwhy ht
    obtain ⟨n', hy, hn'⟩ := h.error hx hwhy ht
    exact ⟨n', hy.bind_error, hn'⟩

/-- Both begin with a step that registers nothing. -/
theorem pre {γ : Type} {z z' : Action σ γ} {c e : γ} {f : γ → Action σ α}
    {f' : Nat → γ → Action σ α} (hz : z m = .ok c n) (hz' : z' m' = .ok e n')
    (ht : n'.shared.tokens = m'.shared.tokens)
    (h : Follows S (f c) (fun d => f' d e) n n' Q) :
    Follows S (z >>= f) (fun d => z' >>= f' d) m m' Q := by
  have hy {r : EStateM.Result Halt (Machine σ) α} (hr : Eventually (fun d => f' d e) n' r) :
      Eventually (fun d => z' >>= f' d) m' r :=
    Eventually.bind (y := fun _ => z') ⟨0, fun _ _ => hz'⟩ hr
  unfold Follows Ends at h ⊢
  rw [bind_eq_of_ok hz]
  rw [ht] at h
  revert h
  cases f c n with
  | ok a k =>
    intro h hk
    obtain ⟨ha, k', hfy, hS, hk'⟩ := h hk
    exact ⟨ha, k', hy hfy, hS, hk'⟩
  | error why k =>
    intro h hwhy hk
    obtain ⟨k', hfy, hk'⟩ := h hwhy hk
    exact ⟨k', hy hfy, hk'⟩

theorem of_succ (h : Follows S x (fun d => y (d + 1)) m m' Q) : Follows S x y m m' Q := by
  unfold Follows at h ⊢
  simp only [eventually_succ] at h
  exact h

end Follows

end Action

namespace Engine
open Packrat.Action
variable {N σ : Type} (g : Setting N σ) (sc : Scene)

/-- A test without a memo, with so many levels. -/
def plainTest (rule : String) (depth : Nat) : Action σ (Except Error Bool) :=
  test (g.memoized false) (run (g.memoized false) depth) rule

/-- Wherever tokens are registered like that, a test without a memo comes to that outcome and
registers no more. -/
def Settled (t : Tokens) (offset : Nat) (rule : String) (matched : Bool) : Prop :=
  ∀ k : Machine σ, k.In sc → k.parser.cursor.offset = offset → t.Within k.shared.tokens →
    ∃ n, Eventually (plainTest g rule) k (.ok (.ok matched) n) ∧
      n.shared.tokens.Within k.shared.tokens

/-- The memo holds outcomes of tests without it. -/
def Valid (m : Machine σ) : Prop :=
  ∀ offset rule matched, m.parser.memo.get? offset rule = some matched →
    Settled g sc m.shared.tokens offset rule matched

/-- Machines at the same place of the same text. Those that look at their memo may trust it, and then
tokens are the same. -/
structure Related (b b' : Bool) (m m' : Machine σ) : Prop where
  left : m.In sc
  right : m'.In sc
  cursor : m'.parser.cursor = m.parser.cursor
  tokens : m.shared.tokens.Within m'.shared.tokens
  back : b ∨ b' → m'.shared.tokens.Within m.shared.tokens
  validLeft : b → Valid g sc m
  validRight : b' → Valid g sc m'

variable {g sc} {b b' : Bool} {m m' n n' k : Machine σ}

theorem Settled.mono {t u : Tokens} {offset : Nat} {rule : String} {matched : Bool}
    (h : Settled g sc t offset rule matched) (htu : t.Within u) :
    Settled g sc u offset rule matched := by
  intro k hk ho hu
  exact h k hk ho (htu.trans hu)

theorem Valid.of_memo_eq (h : Valid g sc m) (hmemo : n.parser.memo = m.parser.memo)
    (ht : m.shared.tokens.Within n.shared.tokens) : Valid g sc n := by
  intro offset rule matched hget
  rw [hmemo] at hget
  exact (h offset rule matched hget).mono ht

theorem Valid.memoize (h : Valid g sc m) {offset : Nat} {rule : String} {matched : Bool}
    (hs : Settled g sc m.shared.tokens offset rule matched) :
    Valid g sc (m.memoize offset rule matched) := by
  intro offset' rule' matched' hget
  simp only [Machine.memoize, Machine.parser_withParser, Memo.get?_insert] at hget
  split at hget
  · next heq =>
    obtain ⟨rfl, rfl⟩ := heq
    cases hget
    exact hs
  · exact h offset' rule' matched' hget

namespace Related

/-- Without memos, being at the same place is enough. -/
theorem plain (hm : m.In sc) (hm' : m'.In sc)
    (ho : m'.parser.cursor.offset = m.parser.cursor.offset)
    (ht : m.shared.tokens.Within m'.shared.tokens) : Related g sc false false m m' where
  left := hm
  right := hm'
  cursor := hm.cursor_eq hm' ho
  tokens := ht
  back hb := by simp at hb
  validLeft hb := by simp at hb
  validRight hb := by simp at hb

theorem position_eq (h : Related g sc b b' m m') : m'.position = m.position :=
  congrArg Cursor.position h.cursor

theorem snapshot_eq (h : Related g sc b b' m m') : m'.snapshot = m.snapshot := by
  unfold Machine.snapshot
  rw [h.cursor, h.left.skipper, h.right.skipper]

theorem count (h : Related g sc b b' m m') (f f' : Stats → Stats) :
    Related g sc b b' (m.count f) (m'.count f') :=
  ⟨h.left.count f, h.right.count f', h.cursor, h.tokens, h.back, h.validLeft, h.validRight⟩

theorem emit (h : Related g sc b b' m m') (e e' : Event) :
    Related g sc b b' (m.emit e) (m'.emit e') :=
  ⟨h.left.withShared _, h.right.withShared _, h.cursor, h.tokens, h.back, h.validLeft,
    h.validRight⟩

theorem withCursor (h : Related g sc b b' m m') {c : Cursor} (hc : c.Sound)
    (hs : c.source = sc.source) : Related g sc b b' (m.withCursor c) (m'.withCursor c) :=
  ⟨h.left.withCursor hc (hs.trans h.left.source.symm),
    h.right.withCursor hc (hs.trans h.right.source.symm), rfl, h.tokens, h.back, h.validLeft,
    h.validRight⟩

theorem memoize (h : Related g sc b b' m m') {offset : Nat} (rule : String) {matched : Bool}
    (hs : b → Settled g sc m.shared.tokens offset rule matched)
    (hs' : b' → Settled g sc m'.shared.tokens offset rule matched) :
    Related g sc b b' (m.memoize offset rule matched) (m'.memoize offset rule matched) where
  left := ⟨h.left.source, h.left.directory, h.left.skipper, h.left.sound⟩
  right := ⟨h.right.source, h.right.directory, h.right.skipper, h.right.sound⟩
  cursor := h.cursor
  tokens := h.tokens
  back := h.back
  validLeft hb := (h.validLeft hb).memoize (hs hb)
  validRight hb := (h.validRight hb).memoize (hs' hb)

/-- Only the first needs to register. -/
theorem register_left (h : Related g sc b b' m m') {id literal : String}
    (hm : m.shared.tokens.literal? id = none) (hm' : m'.shared.tokens.literal? id = some literal) :
    Related g sc b b' (m.register id literal) m' where
  left := h.left.withShared _
  right := h.right
  cursor := h.cursor
  tokens := h.tokens.add_left hm hm'
  back hb := (h.back hb).trans (Tokens.within_add _ _ _)
  validLeft hb := (h.validLeft hb).of_memo_eq rfl (Tokens.within_add _ _ _)
  validRight := h.validRight

theorem register (h : Related g sc b b' m m') {id literal : String}
    (hm : m.shared.tokens.literal? id = none) (hm' : m'.shared.tokens.literal? id = none) :
    Related g sc b b' (m.register id literal) (m'.register id literal) where
  left := h.left.withShared _
  right := h.right.withShared _
  cursor := h.cursor
  tokens := (h.tokens.trans (Tokens.within_add _ _ _)).add_left hm (Tokens.literal?_add_of_none hm')
  back hb :=
    ((h.back hb).trans (Tokens.within_add _ _ _)).add_left hm' (Tokens.literal?_add_of_none hm)
  validLeft hb := (h.validLeft hb).of_memo_eq rfl (Tokens.within_add _ _ _)
  validRight hb := (h.validRight hb).of_memo_eq rfl (Tokens.within_add _ _ _)

theorem moveTo (h : Related g sc b b' m m') {p : Position} (hp : sc.Known p) :
    Related g sc b b' (m.withCursor (m.parser.cursor.moveTo p))
      (m'.withCursor (m'.parser.cursor.moveTo p)) := by
  have hsource : p.source = m.parser.cursor.source := hp.2.trans h.left.source.symm
  rw [h.cursor]
  exact h.withCursor (Cursor.Sound.moveTo hp.1 hsource) h.left.source

theorem restore (h : Related g sc b b' m m') {s : Snapshot} (hp : sc.Known s.position)
    (hs : s.skipper? = sc.skipper?) : Related g sc b b' (m.restore s) (m'.restore s) := by
  have hmove := h.moveTo hp
  exact ⟨⟨hmove.left.source, hmove.left.directory, hs, hmove.left.sound⟩,
    ⟨hmove.right.source, hmove.right.directory, hs, hmove.right.sound⟩, hmove.cursor, hmove.tokens,
    hmove.back, hmove.validLeft, hmove.validRight⟩

theorem rollback (h : Related g sc b b' m m') (hn : Related g sc b b' n n') :
    Related g sc b b' (n.restore m.snapshot) (n'.restore m'.snapshot) := by
  rw [h.snapshot_eq]
  exact hn.restore h.left.known h.left.skipper

/-- Both are rolled back with an outcome to keep. -/
theorem miss (h : Related g sc b b' m m') (hn : Related g sc b b' n n') {rule : String}
    {matched : Bool}
    (hs : b → Settled g sc n.shared.tokens m.parser.cursor.offset rule matched)
    (hs' : b' → Settled g sc n'.shared.tokens m.parser.cursor.offset rule matched) :
    Related g sc b b' (n.miss m.snapshot rule matched) (n'.miss m'.snapshot rule matched) := by
  have hrestore := (h.rollback hn).emit (.tested false rule m.position matched)
    (.tested false rule m'.position matched)
  have hoffset : m'.snapshot.position.offset = m.parser.cursor.offset :=
    congrArg Cursor.offset h.cursor
  have hmiss := hrestore.memoize rule hs hs'
  unfold Machine.miss
  rw [hoffset]
  exact hmiss

end Related

end Engine

end Packrat
