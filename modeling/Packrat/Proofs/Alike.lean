import Mathlib.Data.List.Forall2
import Mathlib.Logic.Relator
import Packrat.Node
import Packrat.Proofs.Conduct
import Packrat.Proofs.Reading

/-! Two texts loaded at different times are alike if they differ in their serials only. Positions,
errors and programs are alike if they are the same up to that, for serials that correspond one to
one. -/

namespace Packrat
set_option autoImplicit false

/-- Which serials of one run stand for which of another. -/
abbrev Serials := Nat → Nat → Prop

structure Source.Alike (ρ : Serials) (s s' : Source) : Prop where
  serial : ρ s.serial s'.serial
  name : s'.name = s.name
  path : s'.path? = s.path?
  content : s'.content = s.content

structure Position.Alike (ρ : Serials) (p p' : Position) : Prop where
  offset : p'.offset = p.offset
  line : p'.line = p.line
  column : p'.column = p.column
  source : p.source.Alike ρ p'.source

def Cursor.Alike (ρ : Serials) (c c' : Cursor) : Prop := c.position.Alike ρ c'.position

structure Snapshot.Alike (ρ : Serials) (s s' : Snapshot) : Prop where
  position : s.position.Alike ρ s'.position
  skipper : s'.skipper? = s.skipper?

structure Error.Alike (ρ : Serials) (e e' : Error) : Prop where
  cause : e'.cause = e.cause
  position : Option.Rel (Position.Alike ρ) e.position? e'.position?

/-- Both outcomes are errors, which are alike, or neither is. -/
inductive Outcome.Alike (ρ : Serials) {α : Type} (S : α → α → Prop) :
    Except Error α → Except Error α → Prop where
  | ok {a b : α} (h : S a b) : Alike ρ S (.ok a) (.ok b)
  | error {e e' : Error} (h : e.Alike ρ e') : Alike ρ S (.error e) (.error e')

namespace Position.Alike
variable {ρ : Serials} {p p' q q' : Position}

theorem sameSource_eq (hρ : Relator.BiUnique ρ) (hp : p.Alike ρ p') (hq : q.Alike ρ q') :
    p'.sameSource q' = p.sameSource q := by
  unfold sameSource
  apply Bool.eq_iff_iff.2
  rw [beq_iff_eq, beq_iff_eq]
  constructor
  · intro h
    have hq := hq.source.serial
    rw [← h] at hq
    exact hρ.1 hp.source.serial hq
  · intro h
    have hq := hq.source.serial
    rw [← h] at hq
    exact hρ.2 hp.source.serial hq

/-- Whether two positions are the same point can be told alike. -/
theorem beq_eq (hρ : Relator.BiUnique ρ) (hp : p.Alike ρ p') (hq : q.Alike ρ q') :
    (p' == q') = (p == q) := by
  show (p'.sameSource q' && p'.offset == q'.offset) = (p.sameSource q && p.offset == q.offset)
  rw [sameSource_eq hρ hp hq, hp.offset, hq.offset]

end Position.Alike

theorem Error.Alike.isFatal_eq {ρ : Serials} {e e' : Error} (h : e.Alike ρ e') :
    e'.isFatal = e.isFatal := by
  unfold Error.isFatal
  rw [h.cause]

theorem Error.Alike.orAt {ρ : Serials} {e e' : Error} {p p' : Position} (h : e.Alike ρ e')
    (hp : p.Alike ρ p') : (e.orAt p).Alike ρ (e'.orAt p') where
  cause := h.cause
  position := by
    have hposition := h.position
    unfold Error.orAt
    revert hposition
    cases e.position? <;> cases e'.position? <;> intro hposition <;> cases hposition
    · exact .some hp
    · next hq => exact .some hq

/-! Reading. -/

namespace Cursor

/-- The same place in another source. -/
def on (c : Cursor) (s : Source) : Cursor := { c with source := s }

variable {N σ : Type} {c : Cursor} {s : Source}

theorem Alike.eq_on {ρ : Serials} {c' : Cursor} (h : c.Alike ρ c') : c' = c.on c'.source := by
  obtain ⟨ho, hl, hc, -⟩ := h
  cases c'
  cases ho
  cases hl
  cases hc
  rfl

theorem Alike.on {ρ : Serials} {d : Cursor} (h : c.source.Alike ρ s) (hd : d.source = c.source) :
    d.Alike ρ (d.on s) :=
  ⟨rfl, rfl, rfl, (congrArg (Source.Alike ρ · s) hd).mpr h⟩

theorem past_on (c : Cursor) (s : Source) (ch : Char) :
    (c.on s).past ch = (c.past ch).map (Cursor.on · s) := by
  unfold past on
  split
  · cases addCount c.line 1 <;> rfl
  · cases addCount c.column 1 <;> rfl

theorem pastAll_on (c : Cursor) (s : Source) (text : List Char) :
    (c.on s).pastAll text = (c.pastAll text).map (Cursor.on · s) := by
  induction text generalizing c with
  | nil => rfl
  | cons ch text ih =>
    simp only [pastAll, List.foldlM_cons, past_on]
    cases c.past ch with
    | error why => rfl
    | ok d => exact ih d

section
variable (hs : s.content = c.source.content)
include hs

theorem rest_on : (c.on s).rest = c.rest := by
  unfold rest on
  rw [hs]

theorem advance_on (n : Nat) : (c.on s).advance n = (c.advance n).map (Cursor.on · s) := by
  unfold advance
  rw [rest_on hs]
  simp only [pastAll_on]
  show (addCount c.offset n >>= _) = _
  cases addCount c.offset n with
  | error why => rfl
  | ok k =>
    cases c.rest with
    | error why => rfl
    | ok text => rfl

theorem peek_on : (c.on s).peek = c.peek := by
  unfold peek
  rw [rest_on hs]

theorem next_on : (c.on s).next = c.next.map fun (a, d) => (a, d.on s) := by
  unfold next
  rw [peek_on hs]
  simp only [advance_on hs]
  cases c.peek with
  | error why => rfl
  | ok ch? =>
    cases ch? with
    | none => rfl
    | some ch =>
      dsimp only [bind, Except.bind]
      cases c.advance ch.utf8Size <;> rfl

theorem startsWith_on (text : List Char) : (c.on s).startsWith text = c.startsWith text := by
  unfold startsWith
  rw [rest_on hs]

theorem eat_on (text : List Char) :
    (c.on s).eat text = (c.eat text).map fun (a, d) => (a, d.on s) := by
  unfold eat
  rw [startsWith_on hs]
  simp only [advance_on hs]
  cases c.startsWith text with
  | error why => rfl
  | ok begins =>
    cases begins with
    | false => rfl
    | true =>
      dsimp only [bind, Except.bind]
      cases c.advance (Utf8.size text) <;> rfl

theorem eatWhile_on (p : Char → Bool) :
    (c.on s).eatWhile p = (c.eatWhile p).map fun (a, d) => (a, d.on s) := by
  unfold eatWhile
  rw [rest_on hs]
  simp only [advance_on hs]
  cases c.rest with
  | error why => rfl
  | ok rest =>
    dsimp only [bind, Except.bind]
    cases c.advance (Utf8.size (rest.takeWhile p)) <;> rfl

theorem eatRegex_on (r : Regex) :
    (c.on s).eatRegex r = (c.eatRegex r).map fun (a, d) => (a, d.on s) := by
  unfold eatRegex
  rw [rest_on hs]
  simp only [advance_on hs]
  cases c.rest with
  | error why => rfl
  | ok rest =>
    dsimp only [bind, Except.bind]
    cases r.eaten? rest with
    | none => rfl
    | some text =>
      dsimp only
      cases c.advance (Utf8.size text) <;> rfl

/-- Reading looks at the text only. -/
theorem reading_on {call : Call σ} {u : Cursor → Except Fault (call.Reply N × Cursor)}
    (hu : call.reading? = some u) : u (c.on s) = (u c).map fun (a, d) => (a, d.on s) := by
  cases call <;> cases hu
  case next => exact next_on hs
  case eat text => exact eat_on hs text.toList
  case peek =>
    dsimp only
    rw [peek_on hs]
    cases c.peek <;> rfl
  case rest =>
    dsimp only
    rw [rest_on hs]
    cases c.rest <;> rfl
  case startsWith text =>
    dsimp only
    rw [startsWith_on hs]
    cases c.startsWith text.toList <;> rfl
  case eatWhile p =>
    dsimp only
    rw [eatWhile_on hs]
    cases c.eatWhile p <;> rfl
  case eatRegex r =>
    dsimp only
    rw [eatRegex_on hs]
    cases c.eatRegex r <;> rfl
  case advance n =>
    dsimp only
    rw [advance_on hs]
    cases c.advance n <;> rfl

end

/-- At places that are alike reading meets the same fault, or it replies the same and goes on at
places that are alike. -/
theorem Alike.reading {ρ : Serials} {c' : Cursor} (h : c.Alike ρ c') {call : Call σ}
    {u : Cursor → Except Fault (call.Reply N × Cursor)} (hu : call.reading? = some u) :
    (∃ a d d', u c = .ok (a, d) ∧ u c' = .ok (a, d') ∧ d.Alike ρ d') ∨
      ∃ why, u c = .error why ∧ u c' = .error why := by
  have hsource : c.source.Alike ρ c'.source := h.source
  have hon := reading_on hsource.content hu
  rw [← h.eq_on] at hon
  cases hx : u c with
  | error why =>
    rw [hx] at hon
    exact .inr ⟨why, rfl, hon⟩
  | ok r =>
    obtain ⟨a, d⟩ := r
    rw [hx] at hon
    have hd : d.source = c.source := (reads_of_reading hu hx).source
    exact .inl ⟨a, d, d.on c'.source, rfl, hon, .on hsource hd⟩

theorem Alike.moveTo {ρ : Serials} {c c' : Cursor} {p p' : Position} (h : c.Alike ρ c')
    (hp : p.Alike ρ p') : (c.moveTo p).Alike ρ (c'.moveTo p') :=
  ⟨hp.offset, hp.line, hp.column, h.source⟩

end Cursor

/-! Programs. -/

/-- The call names no position. -/
def Call.Placeless {σ : Type} : Call σ → Prop
  | .moveTo _ | .restore _ | .make .. => False
  | _ => True

/-- Replies are the same up to serials. Nothing is known of the state outside and of the number of
tokens in use. -/
def Call.RepliesAlike {N σ : Type} (ρ : Serials) (like : N → N → Prop) :
    (c : Call σ) → c.Reply N → c.Reply N → Prop
  | .position, p, p' => p.Alike ρ p'
  | .invoke .., o, o' | .matchWith .., o, o' | .start _, o, o' | .parseBelow .., o, o'
  | .parseTextBelow .., o, o' => Outcome.Alike ρ like o o'
  | .test _, o, o' | .testAll _, o, o' | .skip _, o, o' => Outcome.Alike ρ Eq o o'
  | .runSkipper _, o?, o?' => Option.Rel (Outcome.Alike ρ Eq) o? o?'
  | .setSkipper _, o, o' => Outcome.Alike ρ Eq o o'
  | .read _, o, o' => Outcome.Alike ρ Eq o o'
  | .gauge, a, b => b.stats = a.stats ∧ b.memoSize = a.memoSize
  | .make .., a, b => like a b
  | .consult _, _, _ => True
  | _, a, b => a = b

/-- As long as replies are alike, the same calls are made, at positions that are alike, and the
results are as `S` says. -/
inductive Program.Alike {N σ α : Type} (ρ : Serials) (like : N → N → Prop) (S : α → α → Prop) :
    Program N σ α → Program N σ α → Prop where
  | done {a b : α} (h : S a b) : Alike ρ like S (.done a) (.done b)
  | call {c : Call σ} {next next' : c.Reply N → Program N σ α} (hc : c.Placeless)
    (hnext : ∀ r r', c.RepliesAlike ρ like r r' → Alike ρ like S (next r) (next' r')) :
    Alike ρ like S (.call c next) (.call c next')
  | moveTo {p p' : Position} {next next' : Unit → Program N σ α} (hp : p.Alike ρ p')
    (hnext : Alike ρ like S (next ()) (next' ())) :
    Alike ρ like S (.call (.moveTo p) next) (.call (.moveTo p') next')
  | restore {s s' : Snapshot} {next next' : Unit → Program N σ α} (hs : s.Alike ρ s')
    (hnext : Alike ρ like S (next ()) (next' ())) :
    Alike ρ like S (.call (.restore s) next) (.call (.restore s') next')
  | make {kind : String} {p p' : Position} {next next' : N → Program N σ α} (hp : p.Alike ρ p')
    (hnext : ∀ a b, like a b → Alike ρ like S (next a) (next' b)) :
    Alike ρ like S (.call (.make kind p) next) (.call (.make kind p') next')

namespace Program
variable {N σ : Type} {ρ : Serials} {like : N → N → Prop}

theorem alike_expected (ids : List String) {p p' : Position} (hp : p.Alike ρ p') :
    Error.Alike ρ ⟨.expected ids, some p⟩ ⟨.expected ids, some p'⟩ :=
  ⟨rfl, .some hp⟩

theorem alike_token (text : String) :
    (token text : Program N σ (Except Error N)).Alike ρ like (Outcome.Alike ρ like)
      (token text) := by
  refine .call trivial ?_
  intro start start' hstart
  refine .call trivial ?_
  rintro taken _ rfl
  cases taken with
  | true =>
    apply Alike.make hstart
    intro a b hab
    exact .done (.ok hab)
  | false =>
    refine .call trivial ?_
    intro place place' hplace
    exact .done (.error (alike_expected [text] hplace))

theorem alike_matchFirst (all ids : List String) :
    (matchFirst all ids : Program N σ (Except Error N)).Alike ρ like (Outcome.Alike ρ like)
      (matchFirst all ids) := by
  induction ids with
  | nil =>
    refine .call trivial ?_
    intro place place' hplace
    exact .done (.error (alike_expected all hplace))
  | cons id ids ih =>
    refine .call trivial ?_
    intro outcome outcome' h
    cases h with
    | error he => exact .done (.error he)
    | @ok matched _ h =>
      subst h
      cases matched with
      | true =>
        refine .call trivial ?_
        intro outcome outcome' h
        exact .done h
      | false => exact ih

theorem alike_start (rule : String) :
    (ask (.start rule) : Program N σ (Except Error N)).Alike ρ like (Outcome.Alike ρ like)
      (ask (.start rule)) := by
  refine .call trivial ?_
  intro outcome outcome' h
  exact .done h

theorem alike_parse (file rule : String) :
    (parse file rule : Program N σ (Except Error N)).Alike ρ like (Outcome.Alike ρ like)
      (parse file rule) := by
  refine .call trivial ?_
  intro outcome outcome' h
  cases h with
  | error he => exact .done (.error he)
  | ok => exact alike_start rule

theorem alike_parseText (name content rule : String) :
    (parseText name content rule : Program N σ (Except Error N)).Alike ρ like
      (Outcome.Alike ρ like) (parseText name content rule) := by
  refine .call trivial ?_
  rintro _ _ rfl
  exact alike_start rule

theorem alike_skipRegex (r : Regex) :
    (skipRegex r : Program N σ (Except Error Bool)).Alike ρ like (Outcome.Alike ρ Eq)
      (skipRegex r) := by
  refine .call trivial ?_
  rintro text? _ rfl
  cases text? with
  | none => exact .done (.ok rfl)
  | some text => exact .done (.ok rfl)

end Program

/-- Rules, skippers and nodes read no state outside of their parser, and cannot tell the sources
loaded in one run from those loaded in another. -/
structure Setting.Oblivious {N σ : Type} (g : Setting N σ) (like : Serials → N → N → Prop) :
    Prop where
  grammar : ∀ ρ, Relator.BiUnique ρ → g.grammar.All
    (fun p => p.Alike ρ (like ρ) (Outcome.Alike ρ (like ρ)) p)
    fun p => p.Alike ρ (like ρ) (Outcome.Alike ρ Eq) p
  make : ∀ ρ, Relator.BiUnique ρ → ∀ kind p p', p.Alike ρ p' → like ρ (g.make kind p) (g.make kind p')

/-- The same tree, at positions that are alike. -/
inductive Node.Alike (ρ : Serials) : Node → Node → Prop where
  | mk {kind : String} {p p' : Position} {value? : Option String} {children children' : List Node}
    (hp : p.Alike ρ p') (hchildren : List.Forall₂ (Node.Alike ρ) children children') :
    Alike ρ ⟨kind, p, value?, children⟩ ⟨kind, p', value?, children'⟩

theorem Node.alike_leaf {ρ : Serials} (kind : String) {p p' : Position} (hp : p.Alike ρ p') :
    (Node.leaf kind p).Alike ρ (Node.leaf kind p') :=
  .mk hp .nil

end Packrat
