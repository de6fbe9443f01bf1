import Packrat.Proofs.Intake
import Packrat.Proofs.Registration

/-! Matching a text literally goes by the token of that name. A token that was registered under the
name with another text is matched in place of it. Rules of the name have no part in it, and skippers
none. -/

namespace Packrat
set_option autoImplicit false

/-- The call may run a skipper, of its own and not in a rule. -/
def Call.Skips {σ : Type} : Call σ → Prop
  | .skip _ | .runSkipper _ | .setSkipper _ => True
  | .matchWith ref _ => ref.skipper? ≠ none
  | _ => False

/-- The name was taken by a token of another text. -/
def Machine.Aliased {σ : Type} (m : Machine σ) (text : String) : Prop :=
  ∃ known, m.shared.tokens.literal? text = some known ∧ known ≠ text

theorem Machine.aliased_iff {σ : Type} {m : Machine σ} {text : String} :
    m.Aliased text ↔ (m.shared.tokens.literal? text).getD text ≠ text := by
  unfold Aliased
  cases m.shared.tokens.literal? text <;> simp

theorem Shared.Booked.aliased_iff {σ : Type} {m : Machine σ} (h : m.shared.Booked) {text : String} :
    m.Aliased text ↔ ∃ known, (text, known) ∈ m.shared.registrations ∧ known ≠ text := by
  unfold Machine.Aliased
  simp only [h.tokens]

/-- Calls that matching a text literally makes. -/
def Call.Literal {σ : Type} : Call σ → Prop
  | .addToken .. | .invoke (.token _) _ => True
  | c => c.Spells

namespace Call.Literal
variable {N σ : Type} {c : Call σ}

theorem of_spells (h : c.Spells) : c.Literal := by
  cases c <;> first | exact h | exact h.elim

theorem not_skips (h : c.Literal) : ¬c.Skips := by
  cases c <;> first | exact h.elim | exact id

theorem below?_eq_none (h : c.Literal) : c.below? (N := N) = none := by
  cases c <;> first | exact h.elim | rfl

end Call.Literal

namespace Engine
open Packrat.Action Program
variable {N σ α : Type} {g : Setting N σ} {m n : Machine σ} {text other : String} {depth i : Nat}

/-- What matching a text comes to. If it is ahead, that is a node of its kind, with the cursor
behind it; if not, an error that expects it, with the parser as it was. -/
inductive Spelled (g : Setting N σ) (text : String) (m : Machine σ) :
    Except Error N → Machine σ → Prop where
  | ahead {rest : List Char} {d : Cursor} {n : Machine σ}
    (hrest : m.parser.cursor.rest = .ok (text.toList ++ rest))
    (hd : m.parser.cursor.Takes text.toList d) (hn : n.parser = { m.parser with cursor := d }) :
    Spelled g text m (.ok (g.make text m.position)) n
  | missing {rest : List Char} {n : Machine σ} (hrest : m.parser.cursor.rest = .ok rest)
    (hnot : ¬text.toList <+: rest) (hn : n.parser = m.parser) :
    Spelled g text m (.error ⟨.expected [text], some m.position⟩) n

/-- No other text is matched with the same outcome. -/
theorem Spelled.unique {outcome : Except Error N} (h : Spelled g text m outcome n)
    (h' : Spelled g other m outcome n) : text = other := by
  generalize ho : outcome = outcome' at h'
  cases h with
  | ahead hrest hd hn =>
    cases h' with
    | ahead hrest' hd' hn' =>
      obtain rfl := congrArg Parser.cursor (hn.symm.trans hn')
      exact String.toList_inj.1 (hd.text_unique hd')
    | missing => cases ho
  | missing hrest hnot hn =>
    cases h' with
    | ahead => cases ho
    | missing =>
      cases ho
      rfl

/-- Only the parser tells what a match comes to. -/
theorem Spelled.of_parser {outcome : Except Error N} {k : Machine σ} (hk : k.parser = m.parser)
    (h : Spelled g text k outcome n) : Spelled g text m outcome n := by
  obtain ⟨p, s⟩ := k
  obtain rfl : p = m.parser := hk
  cases h with
  | ahead hrest hd hn => exact .ahead hrest hd hn
  | missing hrest hnot hn => exact .missing hrest hnot hn

theorem run_token_of_eat {taken : Bool} {d : Cursor}
    (h : m.parser.cursor.eat text.toList = .ok (taken, d)) (depth : Nat) :
    run g (depth + 1) _ (token text) m =
      if taken then
        .ok (.ok (g.make text m.position)) ((m.withCursor d).emit (.made text m.position))
      else .ok (.error ⟨.expected [text], some d.position⟩) (m.withCursor d) := by
  have hreading : (Call.eat text : Call σ).reading? (N := N) = some _ := rfl
  have hposition : reply g (run g depth) .position m = .ok m.position m := rfl
  have heat : reply g (run g depth) (.eat text) m = .ok taken (m.withCursor d) := by
    rw [eq_ok_iff_ends, ends_reading hreading, h]
    exact ⟨rfl, rfl⟩
  rw [token, run_bind, run_ask, bind_eq_of_ok hposition, run_bind, run_ask, bind_eq_of_ok heat]
  cases taken <;> rfl

/-- The token of a text matches that text. -/
theorem run_token (hs : m.parser.cursor.Sound) (hfits : m.parser.cursor.source.Fits)
    (text : String) (depth : Nat) :
    ∃ outcome n, run g (depth + 1) _ (token text) m = .ok outcome n ∧
      Spelled g text m outcome n ∧ n.shared.tokens = m.shared.tokens := by
  obtain ⟨before, rest, hb⟩ := hs
  by_cases h : text.toList <+: rest
  · obtain ⟨left, rfl⟩ := h
    obtain ⟨d, hd, htakes⟩ := Cursor.eat_of_ahead hb hfits
    exact ⟨_, _, run_token_of_eat hd depth, .ahead (Cursor.rest_eq hb) htakes rfl, rfl⟩
  · have hd := Cursor.eat_of_not_ahead hb h
    exact ⟨_, _, run_token_of_eat hd depth, .missing (Cursor.rest_eq hb) h rfl, rfl⟩

/-- Matching a text is matching what the table has under that name. -/
theorem run_literal (hs : m.parser.cursor.Sound) (hfits : m.parser.cursor.source.Fits)
    (text : String) (depth : Nat) :
    ∃ outcome n, run g (depth + 2) _ (literal text) m = .ok outcome n ∧
      Spelled g ((m.shared.tokens.literal? text).getD text) m outcome n ∧
      n.shared.tokens = m.shared.tokens.add text text := by
  obtain ⟨k, hk, hparser, htokens⟩ := addToken_eq text text m
  obtain ⟨outcome, n, hn, hspelled, hkept⟩ := run_token (g := g) (m := k) (hparser ▸ hs)
    (hparser ▸ hfits) ((m.shared.tokens.literal? text).getD text) depth
  refine ⟨outcome, n, ?_, hspelled.of_parser hparser, hkept.trans htokens⟩
  rw [literal, run_bind, run_ask]
  exact (bind_eq_of_ok hk).trans ((congrFun (run_ask _ _) k).trans hn)

/-! The calls that are made on the way. -/

theorem spells_of_meets {p : Program N σ α} {s : Site σ} (hs : Meets g depth i p m s)
    (hp : p.Only Call.Spells) : s.call.Spells := by
  induction hs with
  | here => exact hp.1
  | inside hc _ _ =>
    -- Such calls run nothing.
    cases hc <;> exact hp.1.elim
  | later _ _ ih => exact ih (hp.2 _ trivial)

theorem spells_token (text : String) :
    (token text : Program N σ (Except Error N)).Only Call.Spells := by
  refine ⟨trivial, fun _ _ => ⟨trivial, ?_⟩⟩
  intro taken _
  cases taken with
  | true => exact ⟨trivial, fun _ _ => trivial⟩
  | false => exact ⟨trivial, fun _ _ => trivial⟩

/-- The token is asked for, then run, and its calls run nothing. -/
theorem literal_of_meets {s : Site σ} (hs : Meets g depth i (literal text) m s) :
    s.call.Literal := by
  cases hs with
  | here => trivial
  | inside hc _ => cases hc
  | later hc hnext =>
    obtain ⟨_, hk, -⟩ := addToken_eq text text m
    cases hk.symm.trans hc
    cases hnext with
    | here => trivial
    | inside hc hp =>
      cases hc
      exact .of_spells (spells_of_meets hp (spells_token _))
    | later _ hnext => cases hnext

theorem literal_of_reaches {s : Site σ} (hs : Reaches g depth (literal text) m s) :
    s.call.Literal := by
  cases hs with
  | met hs => exact literal_of_meets hs
  | beneath hs hq _ => cases (literal_of_meets hs).below?_eq_none.symm.trans hq

/-- A text is matched literally, at any valid cursor, if and only if its name is not taken by a
token of another text, which is then the one that is matched; and the name is taken so where it was
registered so before, by any parser of the grammar. No skipper is run for the match. -/
theorem literal_matches_text_iff (g : Setting N σ) (text : String) :
    (∀ m : Machine σ, m.parser.cursor.Sound → m.parser.cursor.source.Fits → ∀ depth,
      ∃ outcome n, run g (depth + 2) _ (literal text) m = .ok outcome n ∧
        (Spelled g text m outcome n ↔ ¬m.Aliased text) ∧
        Spelled g ((m.shared.tokens.literal? text).getD text) m outcome n ∧
        n.shared.tokens = m.shared.tokens.add text text ∧
        ∀ s, Reaches g (depth + 2) (literal text) m s → ¬s.call.Skips) ∧
    ∀ (work : Work N σ) directory outside depth s, work.Meets g depth (.new directory outside) s →
      (s.machine.Aliased text ↔
        ∃ known, (text, known) ∈ s.machine.shared.registrations ∧ known ≠ text) := by
  constructor
  · intro m hs hfits depth
    obtain ⟨outcome, n, hn, hspelled, htokens⟩ := run_literal (g := g) hs hfits text depth
    refine ⟨outcome, n, hn, ?_, hspelled, htokens, fun s hs => (literal_of_reaches hs).not_skips⟩
    rw [Machine.aliased_iff, not_not]
    constructor
    · exact hspelled.unique
    · intro hknown
      rwa [hknown] at hspelled
  · intro work directory outside depth s hs
    have hnew : (Workspace.new directory outside).shared.Booked := Shared.booked_new 1 outside
    exact (Lasts.booked.of_work_meets hs hnew).aliased_iff

/-- Nodes are their kinds, and `ab` is a rule that matches another text. -/
def kindSetting : Setting String Unit where
  grammar := Grammar.empty.rule "ab" fun _ => token "cd"
  make kind _ := kind
  disk := .empty
  memoizes := true

/-- A text is matched after its name has been taken by another one. -/
def misnamingWork : Work String Unit :=
  .act (ask (.addToken "x" "y")) fun _ => .act (literal "x") fun _ => .rest

def misnamingSite : Site Unit where
  call := .addToken "x" "x"
  machine :=
    ((Workspace.new "" ()).act (run kindSetting 2 _ (ask (.addToken "x" "y")))).2.machine
  levels := 1
  pending := 0

theorem literal_matches_text_iff_namesake :
    ((beginning "abc").parser.cursor.Sound ∧ (beginning "abc").parser.cursor.source.Fits ∧
      ∃ n, run kindSetting 2 _ (literal "ab") (beginning "abc") = .ok (.ok "ab") n ∧
        Spelled kindSetting "ab" (beginning "abc") (.ok "ab") n) ∧
    misnamingWork.Meets kindSetting 2 (.new "" ()) misnamingSite ∧
      misnamingSite.machine.Aliased "x" := by
  constructor
  · have hs : (beginning "abc").parser.cursor.Sound := Cursor.sound_atStart _
    have hfits : (beginning "abc").parser.cursor.source.Fits := by
      unfold Source.Fits
      decide
    have hfree : ¬(beginning "abc").Aliased "ab" := by
      rintro ⟨known, h, -⟩
      cases (Tokens.literal?_empty "ab").symm.trans h
    obtain ⟨outcome, n, hn, hiff, -⟩ := (literal_matches_text_iff kindSetting "ab").1 _ hs hfits 0
    have hspelled := hiff.2 hfree
    cases hspelled with
    | ahead => exact ⟨hs, hfits, n, hn, hiff.2 hfree⟩
    | missing hrest hnot =>
      cases hrest
      exact absurd ⟨['c'], rfl⟩ hnot
  · have hmeets : misnamingWork.Meets kindSetting 2 (.new "" ()) misnamingSite :=
      .later (.here (.met .here))
    have hregistered : ("x", "y") ∈ misnamingSite.machine.shared.registrations := by
      decide +kernel
    have haliased := (literal_matches_text_iff kindSetting "x").2 misnamingWork "" () 2 _ hmeets
    exact ⟨hmeets, haliased.2 ⟨"y", hregistered, by decide⟩⟩

/-- The name `x` has been taken by the text `y`. -/
def misnamed : Machine Unit := (beginning "x").register "x" "y"

/-- Then the text `x` is not matched where it is ahead. -/
theorem literal_misses_taken_name :
    run kindSetting 1 _ (ask (.addToken "x" "y")) (beginning "x") = .ok (.token "y") misnamed ∧
      misnamed.parser.cursor.Sound ∧ misnamed.parser.cursor.source.Fits ∧
      misnamed.parser.cursor.rest = .ok "x".toList ∧
      ∃ n, run kindSetting 2 _ (literal "x") misnamed =
          .ok (.error ⟨.expected ["y"], some misnamed.position⟩) n ∧
        ¬Spelled kindSetting "x" misnamed (.error ⟨.expected ["y"], some misnamed.position⟩) n := by
  have hs : misnamed.parser.cursor.Sound := Cursor.sound_atStart _
  have hfits : misnamed.parser.cursor.source.Fits := by
    unfold Source.Fits
    decide
  have htaken : misnamed.shared.tokens.literal? "x" = some "y" :=
    Tokens.literal?_add_of_none (Tokens.literal?_empty "x")
  obtain ⟨outcome, n, hn, hspelled, -⟩ := run_literal (g := kindSetting) hs hfits "x" 0
  rw [htaken, Option.getD_some] at hspelled
  have hfails : outcome = .error ⟨.expected ["y"], some misnamed.position⟩ := by
    cases hspelled with
    | ahead hrest => cases hrest
    | missing => rfl
  subst hfails
  exact ⟨rfl, hs, hfits, rfl, n, hn, fun h => absurd (h.unique hspelled) (by decide)⟩

end Engine

end Packrat
