import Packrat.Proofs.Endings
import Packrat.Proofs.Place

/-! Reading calls differ only in what they do to the cursor. -/

namespace Packrat
set_option autoImplicit false

/-- Calls that read at the cursor, with what they do there. -/
def Call.reading? {N σ : Type} : (c : Call σ) → Option (Cursor → Except Fault (c.Reply N × Cursor))
  | .peek => some fun c => return (← c.peek, c)
  | .next => some Cursor.next
  | .rest => some fun c => return (String.ofList (← c.rest), c)
  | .startsWith text => some fun c => return (← c.startsWith text.toList, c)
  | .eat text => some fun c => c.eat text.toList
  | .eatWhile p => some fun c => return (← c.eatWhile p).map String.ofList id
  | .eatRegex r => some fun c => return (← c.eatRegex r).map (Option.map String.ofList) id
  | .advance n => some fun c => return ((), ← c.advance n)
  | _ => none

namespace Cursor
variable {N σ : Type} {c d : Cursor}

theorem reads_of_reading {call : Call σ} {u : Cursor → Except Fault (call.Reply N × Cursor)}
    {reply : call.Reply N} (hu : call.reading? = some u) (h : u c = .ok (reply, d)) :
    c.Reads d := by
  cases call <;> cases hu
  case next => exact reads_next h
  case eat => exact reads_eat h
  all_goals
    obtain ⟨a, ha, h⟩ := bind_eq_ok_iff.1 h
    cases h
  case eatWhile => exact reads_eatWhile ha
  case eatRegex => exact reads_eatRegex ha
  case advance => exact reads_advance ha
  all_goals exact .refl c

/-- Reading at a sound cursor meets no fault, unless it is told to go beyond a machine word. -/
theorem reading_ok {call : Call σ} {u : Cursor → Except Fault (call.Reply N × Cursor)}
    (hu : call.reading? = some u) (hs : c.Sound) (hfits : c.source.Fits)
    (hn : ∀ n, call = .advance n → c.offset + n < wordSize) : ∃ r, u c = .ok r := by
  obtain ⟨before, rest, hb⟩ := id hs
  cases call <;> cases hu
  case peek => exact ⟨_, bind_eq_ok_iff.2 ⟨_, peek_ok hb, rfl⟩⟩
  case next => exact next_ok hs hfits
  case rest => exact ⟨_, bind_eq_ok_iff.2 ⟨_, rest_eq hb, rfl⟩⟩
  case startsWith text => exact ⟨_, bind_eq_ok_iff.2 ⟨_, startsWith_ok text.toList hb, rfl⟩⟩
  case eat text => exact eat_ok text.toList hs hfits
  case eatWhile p =>
    obtain ⟨r, hr⟩ := eatWhile_ok p hs hfits
    exact ⟨_, bind_eq_ok_iff.2 ⟨r, hr, rfl⟩⟩
  case eatRegex r =>
    obtain ⟨a, ha⟩ := eatRegex_ok r hs hfits
    exact ⟨_, bind_eq_ok_iff.2 ⟨a, ha, rfl⟩⟩
  case advance n =>
    obtain ⟨d, hd⟩ := advance_ok hs hfits (hn n rfl)
    exact ⟨_, bind_eq_ok_iff.2 ⟨d, hd, rfl⟩⟩

/-- The cursors that reading from the start of a text can come to. -/
inductive Reached (s : Source) : Cursor → Prop where
  | start : Reached s (atStart s)
  | read {N σ : Type} {c d : Cursor} {call : Call σ} {reply : call.Reply N}
      {u : Cursor → Except Fault (call.Reply N × Cursor)} :
      Reached s c → call.reading? = some u → u c = .ok (reply, d) → Reached s d

theorem Reached.sound {s : Source} {c : Cursor} (h : c.Reached s) : c.Sound := by
  induction h with
  | start => exact sound_atStart s
  | read _ hu hread ih => exact (reads_of_reading hu hread).sound ih

theorem Reached.source {s : Source} {c : Cursor} (h : c.Reached s) : c.source = s := by
  induction h with
  | start => rfl
  | read _ hu hread ih => exact (reads_of_reading hu hread).source.trans ih

end Cursor

namespace Engine
open Packrat.Action
variable {N σ : Type} {g : Setting N σ} {run : Runner N σ} {m : Machine σ}

theorem ends_reading {call : Call σ} {u : Cursor → Except Fault (call.Reply N × Cursor)}
    (hu : call.reading? = some u) {Q : call.Reply N → Machine σ → Prop}
    {E : Halt → Machine σ → Prop} :
    Ends (reply g run call) m Q E ↔
      match u m.parser.cursor with
      | .ok (a, cursor) => Q a (m.withCursor cursor)
      | .error why => E (.fault why) m := by
  cases call <;> cases hu
  case peek =>
    refine ends_look.trans ?_
    dsimp only
    cases m.parser.cursor.peek <;> rfl
  case next =>
    show Ends (move Cursor.next) m Q E ↔ _
    rw [ends_move]
    cases m.parser.cursor.next <;> rfl
  case rest =>
    refine ends_bind.trans (ends_look.trans ?_)
    dsimp only
    cases m.parser.cursor.rest <;> rfl
  case startsWith text =>
    show Ends (look fun c => c.startsWith text.toList) m Q E ↔ _
    rw [ends_look]
    dsimp only
    cases m.parser.cursor.startsWith text.toList <;> rfl
  case eat text =>
    show Ends (move fun c => c.eat text.toList) m Q E ↔ _
    rw [ends_move]
    dsimp only
    cases m.parser.cursor.eat text.toList <;> rfl
  case eatWhile p =>
    refine ends_bind.trans (ends_move.trans ?_)
    dsimp only
    cases m.parser.cursor.eatWhile p <;> rfl
  case eatRegex r =>
    refine ends_bind.trans (ends_move.trans ?_)
    dsimp only
    cases m.parser.cursor.eatRegex r <;> rfl
  case advance n =>
    show Ends (move fun c => return ((), ← c.advance n)) m Q E ↔ _
    rw [ends_move]
    dsimp only
    cases m.parser.cursor.advance n <;> rfl

end Engine

end Packrat
