import Mathlib.Data.List.TakeWhile
import Packrat.Text.CharSet

/-! A scanner for chains of white space and comments. It goes through a text one character at a time
and keeps the last place where a chain may end; that is where the longest chain ends. -/

namespace Packrat
set_option autoImplicit false

/-- A part of a chain, by what it takes and what it leaves. -/
inductive Piece : List Char → List Char → Prop where
  | blank {run rest : List Char} : run ≠ [] → (∀ c ∈ run, isBlank c) → Piece run rest
  | line {body rest : List Char} : '\n' ∉ body → rest = [] ∨ rest.head? = some '\n' →
      Piece ('/' :: '/' :: body) rest
  /-- The body has no end of a comment in it, nor does it make one with the first half of its own. -/
  | block {body rest : List Char} : ¬['*', '/'] <:+: body ++ ['*'] →
      Piece ('/' :: '*' :: (body ++ ['*', '/'])) rest

inductive Chain : List Char → List Char → Prop where
  | done {rest : List Char} : Chain [] rest
  | link {piece more rest : List Char} : Piece piece (more ++ rest) → Chain more rest →
      Chain (piece ++ more) rest

/-- No chain that begins the text takes more. -/
structure LongestChain (text taken : List Char) : Prop where
  chain : ∃ rest, text = taken ++ rest ∧ Chain taken rest
  longest : ∀ taken' rest', text = taken' ++ rest' → Chain taken' rest' →
    taken'.length ≤ taken.length

/-! The scanner of chains, one character at a time. -/

/-- Where the scanner is: before the chain, behind a piece, behind a `/`, or inside a comment. -/
inductive Stage where
  | before
  | behind
  | slash
  | line
  | block
  /-- In a block comment, behind a `*`. -/
  | star
  deriving DecidableEq

namespace Stage

/-- Whether the chain may end here. -/
def ends : Stage → Bool
  | .behind | .line => true
  | .before | .slash | .block | .star => false

def next? : Stage → Char → Option Stage
  | .before, c | .behind, c =>
    if isBlank c then some .behind else if c = '/' then some .slash else none
  | .slash, c => if c = '/' then some .line else if c = '*' then some .block else none
  | .line, c => if c = '\n' then some .behind else some .line
  | .block, c => if c = '*' then some .star else some .block
  | .star, c =>
    if c = '/' then some .behind else if c = '*' then some .star else some .block

/-- How many characters there are to the last place where the chain may end. -/
def reach? (s : Stage) : List Char → Option Nat
  | [] => if s.ends then some 0 else none
  | c :: text =>
    (((s.next? c).bind fun t => t.reach? text).map (· + 1)).or (if s.ends then some 0 else none)

variable {s t : Stage} {c : Char} {text body rest : List Char} {n : Nat}

theorem reach?_cons (hs : s.next? c = some t) (ht : t.reach? text = some n) :
    s.reach? (c :: text) = some (n + 1) := by
  rw [reach?, hs, Option.bind_some, ht]
  rfl

theorem reach?_cons_of_none (ht : ∀ t, s.next? c = some t → t.reach? text = none) :
    s.reach? (c :: text) = if s.ends then some 0 else none := by
  rw [reach?, Option.bind_eq_none_iff.2 ht]
  rfl

/-- Before a chain and behind a piece the same characters lead on. -/
theorem reach?_behind (text : List Char) :
    Stage.behind.reach? text = some ((Stage.before.reach? text).getD 0) := by
  cases text with
  | nil => rfl
  | cons c text =>
    rw [reach?, reach?]
    show (Option.or (Option.map _ ((behind.next? c).bind fun t => t.reach? text)) (some 0)) =
      some ((Option.or (Option.map _ ((behind.next? c).bind fun t => t.reach? text)) none).getD 0)
    cases (behind.next? c).bind fun t => t.reach? text <;> rfl

theorem next?_behind_of_blank (hc : isBlank c) : Stage.behind.next? c = some .behind := if_pos hc

theorem reach?_append_of_blank {run : List Char} (hrun : ∀ c ∈ run, isBlank c)
    (hn : Stage.behind.reach? rest = some n) :
    Stage.behind.reach? (run ++ rest) = some (n + run.length) := by
  induction run with
  | nil => exact hn
  | cons c run ih =>
    obtain ⟨hc, hrun⟩ := List.forall_mem_cons.1 hrun
    exact reach?_cons (next?_behind_of_blank hc) (ih hrun)

/-- A line comment that has been read to its end is a piece. -/
theorem reach?_line (hrest : rest = [] ∨ rest.head? = some '\n') :
    Stage.line.reach? rest = Stage.behind.reach? rest := by
  rcases hrest with rfl | hrest
  · rfl
  · obtain ⟨more, rfl⟩ := List.head?_eq_some_iff.1 hrest
    rfl

theorem reach?_line_append (hbody : '\n' ∉ body) (hn : Stage.line.reach? rest = some n) :
    Stage.line.reach? (body ++ rest) = some (n + body.length) := by
  induction body with
  | nil => exact hn
  | cons c body ih =>
    have hc : c ≠ '\n' := fun h => hbody (h ▸ List.mem_cons_self)
    exact reach?_cons (if_neg hc) (ih fun h => hbody (List.mem_cons_of_mem c h))

/-- A block comment is read to its first end, whether a `*` stands before what is left of it or
not. -/
theorem reach?_block_append (hn : Stage.behind.reach? rest = some n) :
    (¬['*', '/'] <:+: body ++ ['*'] →
      Stage.block.reach? (body ++ '*' :: '/' :: rest) = some (n + (body.length + 2))) ∧
    (¬['*', '/'] <:+: '*' :: (body ++ ['*']) →
      Stage.star.reach? (body ++ '*' :: '/' :: rest) = some (n + (body.length + 2))) := by
  induction body with
  | nil =>
    have hclose : Stage.star.reach? ('/' :: rest) = some (n + 1) := reach?_cons rfl hn
    exact ⟨fun _ => reach?_cons rfl hclose, fun _ => reach?_cons rfl hclose⟩
  | cons c body ih =>
    by_cases hc : c = '*'
    · subst hc
      constructor
      · intro h
        exact reach?_cons rfl (ih.2 h)
      · intro h
        exact reach?_cons rfl (ih.2 fun hi => h (List.infix_cons hi))
    · have hblock : ¬['*', '/'] <:+: c :: (body ++ ['*']) →
          Stage.block.reach? (body ++ '*' :: '/' :: rest) = some (n + (body.length + 2)) :=
        fun h => ih.1 fun hi => h (List.infix_cons hi)
      constructor
      · intro h
        exact reach?_cons (if_neg hc) (hblock h)
      · intro h
        have hslash : c ≠ '/' := by
          rintro rfl
          exact h ⟨[], body ++ ['*'], rfl⟩
        refine reach?_cons ?_ (hblock fun hi => h (List.infix_cons hi))
        simp [next?, hc, hslash]

theorem reach?_append_of_piece {piece : List Char} (hp : Piece piece rest)
    (hn : Stage.behind.reach? rest = some n) :
    Stage.behind.reach? (piece ++ rest) = some (n + piece.length) := by
  cases hp with
  | blank _ hrun => exact reach?_append_of_blank hrun hn
  | line hbody hrest =>
    have hline := reach?_line_append hbody ((reach?_line hrest).trans hn)
    exact reach?_cons (t := .slash) rfl (reach?_cons (t := .line) rfl hline)
  | @block body _ hbody =>
    have hblock := (reach?_block_append hn).1 hbody
    have hopen := reach?_cons (s := .behind) (t := .slash) (c := '/') rfl
      (reach?_cons (t := .block) (c := '*') rfl hblock)
    simpa [Nat.add_assoc] using hopen

theorem reach?_append_of_chain {taken : List Char} (h : Chain taken rest)
    (hn : Stage.behind.reach? rest = some n) :
    Stage.behind.reach? (taken ++ rest) = some (n + taken.length) := by
  induction h with
  | done => exact hn
  | @link piece more rest hp _ ih =>
    rw [List.append_assoc, reach?_append_of_piece hp (ih hn), List.length_append]
    congr 1
    omega

/-! Where no piece begins, the scanner stops. -/

theorem reach?_block_of_not_infix :
    (¬['*', '/'] <:+: text → Stage.block.reach? text = none) ∧
    (¬['*', '/'] <:+: '*' :: text → Stage.star.reach? text = none) := by
  induction text with
  | nil => exact ⟨fun _ => rfl, fun _ => rfl⟩
  | cons c text ih =>
    by_cases hc : c = '*'
    · subst hc
      constructor
      · intro h
        exact reach?_cons_of_none fun t ht => by cases ht; exact ih.2 h
      · intro h
        exact reach?_cons_of_none fun t ht => by
          cases ht
          exact ih.2 fun hi => h (List.infix_cons hi)
    · constructor
      · intro h
        have hnext : Stage.block.next? c = some .block := if_neg hc
        exact reach?_cons_of_none fun t ht => by
          cases hnext.symm.trans ht
          exact ih.1 fun hi => h (List.infix_cons hi)
      · intro h
        have hslash : c ≠ '/' := by
          rintro rfl
          exact h ⟨[], text, rfl⟩
        have hnext : Stage.star.next? c = some .block := by simp [next?, hc, hslash]
        exact reach?_cons_of_none fun t ht => by
          cases hnext.symm.trans ht
          exact ih.1 fun hi => h (List.infix_cons (List.infix_cons hi))

theorem exists_first_close (h : ['*', '/'] <:+: text) :
    ∃ body rest, text = body ++ '*' :: '/' :: rest ∧ ¬['*', '/'] <:+: body ++ ['*'] := by
  induction text with
  | nil => simp at h
  | cons c text ih =>
    by_cases hfirst : ['*', '/'] <+: c :: text
    · obtain ⟨rest, hrest⟩ := hfirst
      exact ⟨[], rest, hrest.symm, by decide⟩
    · obtain ⟨body, rest, rfl, hbody⟩ := ih ((List.infix_cons_iff.1 h).resolve_left hfirst)
      refine ⟨c :: body, rest, rfl, fun hi => ?_⟩
      rcases List.infix_cons_iff.1 hi with hp | hi
      · have hlonger : c :: (body ++ ['*']) <+: c :: (body ++ '*' :: '/' :: rest) :=
          ⟨'/' :: rest, by simp⟩
        exact hfirst (hp.trans hlonger)
      · exact hbody hi

theorem piece_takeWhile (text : List Char) :
    Piece ('/' :: '/' :: text.takeWhile (· ≠ '\n')) (text.dropWhile (· ≠ '\n')) := by
  refine .line (fun h => by simpa using List.mem_takeWhile_imp h) ?_
  have hhead := List.head?_dropWhile_not (· ≠ '\n') text
  cases hrest : text.dropWhile (· ≠ '\n') with
  | nil => exact .inl rfl
  | cons c rest =>
    rw [hrest, List.head?_cons] at hhead
    exact .inr (by simpa using hhead)

theorem exists_comment_or_stop (text : List Char) :
    (∃ piece rest, '/' :: text = piece ++ rest ∧ piece ≠ [] ∧ Piece piece rest) ∨
      Stage.slash.reach? text = none := by
  rcases text with _ | ⟨c, text⟩
  · exact .inr rfl
  · by_cases hline : c = '/'
    · subst hline
      exact .inl ⟨_, _, by simp, by simp, piece_takeWhile text⟩
    · by_cases hblock : c = '*'
      · subst hblock
        by_cases hclose : ['*', '/'] <:+: text
        · obtain ⟨body, rest, rfl, hbody⟩ := exists_first_close hclose
          exact .inl ⟨'/' :: '*' :: (body ++ ['*', '/']), rest, by simp, by simp, .block hbody⟩
        · refine .inr (reach?_cons_of_none fun t ht => ?_)
          cases ht
          exact reach?_block_of_not_infix.1 hclose
      · refine .inr (reach?_cons_of_none fun t ht => ?_)
        simp [next?, hline, hblock] at ht

theorem exists_piece_or_stop (text : List Char) :
    (∃ piece rest, text = piece ++ rest ∧ piece ≠ [] ∧ Piece piece rest) ∨
      Stage.behind.reach? text = some 0 := by
  rcases text with _ | ⟨c, text⟩
  · exact .inr rfl
  · by_cases hblank : isBlank c
    · exact .inl ⟨[c], text, rfl, by simp, .blank (by simp) (by simpa using hblank)⟩
    · by_cases hslash : c = '/'
      · subst hslash
        rcases exists_comment_or_stop text with hpiece | hstop
        · exact .inl hpiece
        · refine .inr (reach?_cons_of_none fun t ht => ?_)
          cases ht
          exact hstop
      · refine .inr (reach?_cons_of_none fun t ht => ?_)
        simp [next?, hblank, hslash] at ht

theorem exists_chain (text : List Char) :
    ∃ taken rest, text = taken ++ rest ∧ Chain taken rest ∧
      Stage.behind.reach? text = some taken.length := by
  rcases exists_piece_or_stop text with ⟨piece, left, htext, hne, hp⟩ | hstop
  · have hlt : left.length < text.length := by
      have hpos := List.length_pos_iff.2 hne
      rw [htext, List.length_append]
      omega
    obtain ⟨more, rest, rfl, hchain, hreach⟩ := exists_chain left
    refine ⟨piece ++ more, rest, by rw [htext, List.append_assoc], .link hp hchain, ?_⟩
    rw [htext, reach?_append_of_piece hp hreach, List.length_append, Nat.add_comm]
  · exact ⟨[], text, rfl, .done, hstop⟩
termination_by text.length

/-- The scanner goes as far as a chain does. -/
theorem longestChain (text : List Char) :
    ∃ taken, LongestChain text taken ∧ Stage.behind.reach? text = some taken.length := by
  obtain ⟨taken, rest, rfl, hchain, hreach⟩ := exists_chain text
  refine ⟨taken, ⟨⟨rest, rfl, hchain⟩, ?_⟩, hreach⟩
  intro taken' rest' htext hchain'
  have hlonger := reach?_append_of_chain hchain' (reach?_behind rest')
  rw [← htext, hreach] at hlonger
  have hlength := Option.some.inj hlonger
  omega

end Stage

end Packrat
