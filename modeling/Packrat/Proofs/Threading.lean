import Packrat.Grammar
import Packrat.Proofs.Scanning
import Packrat.Regex.Match

/-! The threads of the stock expressions against the scanners of what these take. -/

namespace Packrat
set_option autoImplicit false

namespace Grammar

@[simp] theorem has_notLineEnd (c : Char) : notLineEnd.has c = !(c == '\n') := by
  simp [notLineEnd]

@[simp] theorem has_anyChar (c : Char) : anyChar.has c = true := by
  simp [anyChar]

theorem has_inlineBlank (c : Char) : inlineBlank.has c = (c = ' ' || c = '\t') := by
  simp [inlineBlank, CharSet.has_ofList]

end Grammar

/-! Threads. -/

namespace Thread
variable {threads more : List Thread} {c : Char}

theorem passed_append_of_done (h : threads.any isDone) :
    passed c (threads ++ more) = passed c threads := by
  induction threads with
  | nil => cases h
  | cons t threads ih =>
    cases t with
    | done => rfl
    | test set behind =>
      have h : threads.any isDone := by simpa [isDone] using h
      rw [List.cons_append, passed, passed, ih h]

theorem run_nil (n : Nat) (best? : Option Nat) :
    run threads n best? [] = if threads.any isDone then some n else best? := by
  rw [run]
  cases threads.any isDone <;> rfl

theorem run_cons (n : Nat) (best? : Option Nat) (text : List Char) :
    run threads n best? (c :: text) =
      let best? := if threads.any isDone then some n else best?
      match passed c threads with
      | [] => best?
      | nets => run (Net.threads (Edge.holds (some c) text.head?) nets) (n + 1) best? text := by
  rw [run]
  cases threads.any isDone <;> rfl

end Thread

namespace Net
open Grammar

/-- Goes on with a run of characters of the set. -/
def rounds (place : Nat) (set : CharSet) : Net := .loop (place + 1) (.test place set) true false

def slashTest (place : Nat) : Net := .test place (.single '/')

def starTest (place : Nat) : Net := .test place (.single '*')

def lineNet : Net := .seq (.seq (slashTest 3) (.seq (slashTest 4) .pass)) (rounds 5 notLineEnd)

def untilClose : Net := .loop 10 (.test 9 anyChar) false false

def close : Net := .seq (starTest 11) (.seq (slashTest 12) .pass)

def blockNet : Net :=
  .seq (.seq (slashTest 7) (.seq (starTest 8) .pass)) (.seq untilClose close)

def chain (entered : Bool) : Net :=
  .loop 15 (.alt 14 (.loop 2 (.test 1 .blank) true true) (.alt 13 lineNet blockNet)) true entered

/-! What is behind a character of a chain. -/

def behindBlank : List Net := [rounds 1 .blank, chain false]

def behindSlash : List (List Net) :=
  [[.seq (slashTest 4) .pass, rounds 5 notLineEnd, chain false],
   [.seq (starTest 8) .pass, .seq untilClose close, chain false]]

def inLine : List Net := [rounds 5 notLineEnd, chain false]

def inBlock : List Net := [untilClose, close, chain false]

def behindStar : List Net := [.seq (slashTest 12) .pass, chain false]

/-- Threads at the beginning of a piece. -/
def beginnings : List Thread :=
  .test .blank behindBlank :: behindSlash.map (.test (.single '/'))

end Net

namespace Stage
open Net Grammar

def threads : Stage → List Thread
  | .before => beginnings
  | .behind => beginnings ++ [.done]
  | .slash =>
    [.test (.single '/') (.pass :: inLine),
     .test (.single '*') [.pass, .seq untilClose close, chain false]]
  | .line => .test notLineEnd inLine :: beginnings ++ [.done]
  | .block => [.test (.single '*') behindStar, .test anyChar inBlock]
  | .star =>
    [.test (.single '/') [.pass, chain false], .test (.single '*') behindStar,
     .test anyChar inBlock]

theorem any_isDone_threads (s : Stage) : s.threads.any Thread.isDone = s.ends := by
  cases s <;> rfl

section
attribute [local simp] Net.threads Net.enterAll Net.enter Frontier.visit Frontier.push
  Frontier.empty Frontier.ordered Net.rounds slashTest starTest lineNet untilClose close blockNet
  Net.chain behindBlank behindSlash inLine inBlock behindStar beginnings Stage.threads
variable (holds : Edge → Bool)

/-! No edge is in a chain. What follows a thread that is done gives way to it. -/

theorem threads_blank : Net.threads holds [behindBlank] = Stage.behind.threads := by simp

theorem threads_slash : Net.threads holds behindSlash = Stage.slash.threads := by simp

theorem threads_line : Net.threads holds [.pass :: inLine] = Stage.line.threads := by simp

theorem threads_inLine : Net.threads holds [inLine] = Stage.line.threads := by simp

theorem threads_inLine_blank :
    Net.threads holds [inLine, behindBlank] = Stage.line.threads := by simp

theorem threads_inLine_slash :
    Net.threads holds (inLine :: behindSlash) = Stage.line.threads ++ Stage.slash.threads := by
  simp

theorem threads_block :
    Net.threads holds [[.pass, .seq untilClose close, chain false]] = Stage.block.threads := by simp

theorem threads_inBlock : Net.threads holds [inBlock] = Stage.block.threads := by simp

theorem threads_star : Net.threads holds [behindStar, inBlock] = Stage.star.threads := by simp

theorem threads_close :
    Net.threads holds [[.pass, chain false], inBlock] =
      Stage.behind.threads ++ Stage.block.threads := by
  simp

end

/-- A stage's threads at a character. -/
inductive Leads (s : Stage) (c : Char) (holds : Edge → Bool) : Prop where
  | nowhere : s.next? c = none → Thread.passed c s.threads = [] → Leads s c holds
  /-- More threads may follow where the chain may end. -/
  | onward {t : Stage} {nets : List (List Net)} {more : List Thread} :
      s.next? c = some t → nets ≠ [] → Thread.passed c s.threads = nets →
      Net.threads holds nets = t.threads ++ more → more = [] ∨ t.ends → Leads s c holds

variable {c : Char} {holds : Edge → Bool}

theorem passed_beginnings (c : Char) (last : List Thread) (hlast : last = [] ∨ last = [.done]) :
    Thread.passed c (beginnings ++ last) =
      if isBlank c then [behindBlank] else if c = '/' then behindSlash else [] := by
  have hend : Thread.passed c last = [] := by rcases hlast with rfl | rfl <;> rfl
  by_cases hblank : isBlank c
  · have hslash : c ≠ '/' := by
      rintro rfl
      cases hblank
    simp [beginnings, behindSlash, Thread.passed, hblank, hslash, hend]
  · by_cases hslash : c = '/'
    · subst hslash
      simp [beginnings, behindSlash, Thread.passed, hblank, hend]
    · simp [beginnings, behindSlash, Thread.passed, hblank, hslash, hend]

theorem leads_of_beginnings {s : Stage} {last : List Thread} (hlast : last = [] ∨ last = [.done])
    (hs : s.threads = beginnings ++ last)
    (hnext : s.next? c = if isBlank c then some .behind else if c = '/' then some .slash else none) :
    s.Leads c holds := by
  have hpassed := passed_beginnings c last hlast
  rw [← hs] at hpassed
  by_cases hblank : isBlank c
  · rw [if_pos hblank] at hnext hpassed
    exact .onward hnext (by simp) hpassed ((threads_blank holds).trans (List.append_nil _).symm)
      (.inl rfl)
  · rw [if_neg hblank] at hnext hpassed
    by_cases hslash : c = '/'
    · rw [if_pos hslash] at hnext hpassed
      exact .onward hnext (by simp [behindSlash]) hpassed
        ((threads_slash holds).trans (List.append_nil _).symm) (.inl rfl)
    · rw [if_neg hslash] at hnext hpassed
      exact .nowhere hnext hpassed

theorem Leads.one {s t : Stage} {nets : List (List Net)} (hnext : s.next? c = some t)
    (hne : nets ≠ []) (hpassed : Thread.passed c s.threads = nets)
    (hthreads : Net.threads holds nets = t.threads) : s.Leads c holds :=
  .onward hnext hne hpassed (hthreads.trans (List.append_nil _).symm) (.inl rfl)

theorem leads_slash : Stage.slash.Leads c holds := by
  by_cases hline : c = '/'
  · subst hline
    exact .one (t := .line) rfl (by simp) (by simp [threads, Thread.passed]) (threads_line holds)
  · by_cases hblock : c = '*'
    · subst hblock
      exact .one (t := .block) rfl (by simp) (by simp [threads, Thread.passed]) (threads_block holds)
    · exact .nowhere (by simp [next?, hline, hblock]) (by simp [threads, Thread.passed, hline, hblock])

theorem leads_line : Stage.line.Leads c holds := by
  have hpassed : Thread.passed c Stage.line.threads =
      (if c = '\n' then [] else [inLine]) ++ Thread.passed c (beginnings ++ [.done]) := by
    by_cases hc : c = '\n' <;> simp [threads, Thread.passed, hc]
  rw [passed_beginnings c [.done] (.inr rfl)] at hpassed
  by_cases hc : c = '\n'
  · subst hc
    exact .one (t := .behind) rfl (List.cons_ne_nil _ _) hpassed (threads_blank holds)
  · rw [if_neg hc] at hpassed
    have hnext : Stage.line.next? c = some .line := if_neg hc
    by_cases hblank : isBlank c
    · rw [if_pos hblank] at hpassed
      exact .one hnext (by simp) hpassed (threads_inLine_blank holds)
    · rw [if_neg hblank] at hpassed
      by_cases hslash : c = '/'
      · rw [if_pos hslash] at hpassed
        exact .onward hnext (by simp) hpassed (threads_inLine_slash holds) (.inr rfl)
      · rw [if_neg hslash] at hpassed
        exact .one hnext (by simp) hpassed (threads_inLine holds)

theorem leads_block : Stage.block.Leads c holds := by
  by_cases hstar : c = '*'
  · subst hstar
    exact .one (t := .star) rfl (by simp) (by simp [threads, Thread.passed]) (threads_star holds)
  · exact .one (t := .block) (if_neg hstar) (by simp) (by simp [threads, Thread.passed, hstar])
      (threads_inBlock holds)

theorem leads_star : Stage.star.Leads c holds := by
  by_cases hslash : c = '/'
  · subst hslash
    exact .onward (t := .behind) rfl (by simp) (by simp [threads, Thread.passed])
      (threads_close holds) (.inr rfl)
  · by_cases hstar : c = '*'
    · subst hstar
      exact .one (t := .star) rfl (by simp) (by simp [threads, Thread.passed]) (threads_star holds)
    · exact .one (t := .block) (by simp [next?, hslash, hstar]) (by simp)
        (by simp [threads, Thread.passed, hslash, hstar]) (threads_inBlock holds)

theorem leads (s : Stage) (c : Char) (holds : Edge → Bool) : s.Leads c holds := by
  cases s with
  | before => exact leads_of_beginnings (.inl rfl) (List.append_nil _).symm rfl
  | behind => exact leads_of_beginnings (.inr rfl) rfl rfl
  | slash => exact leads_slash
  | line => exact leads_line
  | block => exact leads_block
  | star => exact leads_star

theorem any_isDone_append {s : Stage} {more : List Thread} (h : more = [] ∨ s.ends) :
    (s.threads ++ more).any Thread.isDone = s.ends := by
  rw [List.any_append, any_isDone_threads]
  rcases h with rfl | h
  · simp
  · simp [h]

theorem passed_append {s : Stage} {more : List Thread} (h : more = [] ∨ s.ends) (c : Char) :
    Thread.passed c (s.threads ++ more) = Thread.passed c s.threads := by
  rcases h with rfl | h
  · rw [List.append_nil]
  · exact Thread.passed_append_of_done ((any_isDone_threads s).trans h)

/-- The threads go as far as the scanner. -/
theorem run_threads {s : Stage} {more : List Thread} (h : more = [] ∨ s.ends) (n : Nat)
    (best? : Option Nat) (text : List Char) :
    Thread.run (s.threads ++ more) n best? text = ((s.reach? text).map (n + ·)).or best? := by
  induction text generalizing s more n best? with
  | nil =>
    rw [Thread.run_nil, any_isDone_append h, reach?]
    cases s.ends <;> rfl
  | cons c text ih =>
    rw [Thread.run_cons, any_isDone_append h, passed_append h, reach?]
    cases s.leads c (Edge.holds (some c) text.head?) with
    | nowhere hnext hnone =>
      rw [hnone, hnext]
      cases s.ends <;> rfl
    | @onward t nets _ hnext hne hnets hthreads hmore =>
      rw [hnets, hnext, Option.bind_some]
      cases nets with
      | nil => exact absurd rfl hne
      | cons nets later =>
        dsimp only
        rw [hthreads, ih hmore]
        cases t.reach? text with
        | none => cases s.ends <;> rfl
        | some k => simp only [Option.map_some, Option.some_or, Nat.add_assoc, Nat.add_comm 1 k]

end Stage

/-! What the stock expressions take. -/

/-- A line comment that begins the text, without the `\n` behind it. -/
def lineTaken (text : List Char) : List Char :=
  if ['/', '/'] <+: text then '/' :: '/' :: (text.drop 2).takeWhile (· ≠ '\n') else []

theorem lineTaken_slashes (more : List Char) :
    lineTaken ('/' :: '/' :: more) = '/' :: '/' :: more.takeWhile (· ≠ '\n') :=
  if_pos ⟨more, rfl⟩

namespace Regex
open Net Grammar

/-- Of a text that an expression does not match it takes nothing. -/
theorem getD_eaten? {r : Regex} {text taken rest : List Char} (htext : text = taken ++ rest)
    (h : (r.length? none text).getD 0 = taken.length) : (r.eaten? text).getD [] = taken := by
  rw [eaten?]
  cases hlength : r.length? none text with
  | none =>
    rw [hlength] at h
    exact (List.length_eq_zero_iff.1 h.symm).symm
  | some n =>
    rw [hlength] at h
    subst h
    rw [Option.map_some, Option.getD_some, htext, List.take_left]

theorem exists_append_getD_eaten? (r : Regex) (text : List Char) :
    ∃ rest, text = (r.eaten? text).getD [] ++ rest := by
  cases h : r.eaten? text with
  | none => exact ⟨text, rfl⟩
  | some taken => exact append_of_eaten? h

theorem getD_eaten?_of_length {r : Regex} {text : List Char} {p : Char → Bool}
    (h : (r.length? none text).getD 0 = (text.takeWhile p).length) :
    (r.eaten? text).getD [] = text.takeWhile p :=
  getD_eaten? List.takeWhile_append_dropWhile.symm h

section
attribute [local simp] Regex.net Regex.numbering Numbering.seq Numbering.edge Numbering.alt
  Numbering.test Numbering.pass Numbering.literal Numbering.copies Numbering.loop Numbering.endless
  Net.threads Net.enterAll Net.enter Frontier.visit Frontier.push Frontier.empty Frontier.ordered
  Net.rounds Edge.holds
variable (holds : Edge → Bool) (next? : Option Char)

theorem threads_rounds (place : Nat) (set : CharSet) :
    Net.threads holds [[rounds place set]] = [.test set [rounds place set], .done] := by
  simp

theorem threads_run (set : CharSet) :
    Net.threads (Edge.holds none next?)
      [[(Regex.seq (.edge .start) (.rep (.oneOf set) 1 none true)).net]] =
      [.test set [rounds 1 set]] := by
  simp

theorem threads_lineComment :
    Net.threads (Edge.holds none next?) [[(Regex.seq (.edge .start) lineComment).net]] =
      [.test (.single '/') [.seq (slashTest 2) .pass, rounds 3 notLineEnd]] := by
  have hsome : (Regex.oneOf notLineEnd).takesSome = true := rfl
  simp [lineComment, slashTest, hsome]

theorem threads_secondSlash :
    Net.threads holds [[.seq (slashTest 2) .pass, rounds 3 notLineEnd]] =
      [.test (.single '/') [.pass, rounds 3 notLineEnd]] := by
  simp [slashTest]

theorem threads_comment :
    Net.threads holds [[.pass, rounds 3 notLineEnd]] =
      [.test notLineEnd [rounds 3 notLineEnd], .done] := by
  simp

theorem threads_chain :
    Net.threads (Edge.holds none next?) [[(Regex.seq (.edge .start)
      (.rep (.alt blankRun (.alt lineComment blockComment)) 1 none true)).net]] =
      Stage.before.threads := by
  have hline : (Regex.oneOf notLineEnd).takesSome = true := rfl
  have hany : (Regex.oneOf anyChar).takesSome = true := rfl
  simp [blankRun, lineComment, blockComment, hline, hany, Stage.threads, beginnings, behindBlank,
    behindSlash, slashTest, starTest, untilClose, close, chain, lineNet, blockNet]

end

theorem run_rounds (place : Nat) (set : CharSet) (n : Nat) (best? : Option Nat)
    (text : List Char) :
    Thread.run [.test set [rounds place set], .done] n best? text =
      some (n + (text.takeWhile set.has).length) := by
  induction text generalizing n best? with
  | nil => rfl
  | cons c text ih =>
    rw [Thread.run_cons]
    cases hc : set.has c with
    | false => simp [Thread.passed, hc, Thread.isDone]
    | true =>
      simp only [Thread.passed, hc, if_true, threads_rounds, ih, List.takeWhile_cons,
        List.length_cons]
      congr 1
      omega

/-- A run of characters of a set. -/
theorem getD_eaten?_run (set : CharSet) (text : List Char) :
    ((Regex.seq (.edge .start) (.rep (.oneOf set) 1 none true)).eaten? text).getD [] =
      text.takeWhile set.has := by
  refine getD_eaten?_of_length ?_
  rw [length?, threads_run]
  cases text with
  | nil => rfl
  | cons c text =>
    rw [Thread.run_cons]
    cases hc : set.has c with
    | false => simp [Thread.passed, hc, Thread.isDone]
    | true =>
      simp only [Thread.passed, hc, if_true, threads_rounds, run_rounds, List.takeWhile_cons,
        List.length_cons, Option.getD_some]
      omega

theorem length?_lineComment (more : List Char) :
    (Regex.seq (.edge .start) lineComment).length? none ('/' :: '/' :: more) =
      some (2 + (more.takeWhile (· ≠ '\n')).length) := by
  have hset : notLineEnd.has = (decide <| · ≠ '\n') := by
    funext c
    by_cases hc : c = '\n' <;> simp [hc]
  rw [length?, threads_lineComment, Thread.run_cons]
  simp only [Thread.passed, CharSet.has_single, beq_self_eq_true, if_true, threads_secondSlash]
  rw [Thread.run_cons]
  simp only [Thread.passed, CharSet.has_single, beq_self_eq_true, if_true, threads_comment,
    run_rounds, hset]

theorem length?_lineComment_eq_none {text : List Char} (h : ¬['/', '/'] <+: text) :
    (Regex.seq (.edge .start) lineComment).length? none text = none := by
  rw [length?, threads_lineComment]
  rcases text with _ | ⟨c, text⟩
  · rfl
  · rw [Thread.run_cons]
    by_cases hc : c = '/'
    · subst hc
      simp only [Thread.passed, CharSet.has_single, beq_self_eq_true, if_true, threads_secondSlash]
      rcases text with _ | ⟨d, text⟩
      · rfl
      · have hd : d ≠ '/' := by
          rintro rfl
          exact h ⟨text, rfl⟩
        rw [Thread.run_cons]
        simp [Thread.passed, hd, Thread.isDone]
    · simp [Thread.passed, hc, Thread.isDone]

theorem getD_eaten?_lineComment (text : List Char) :
    ((Regex.seq (.edge .start) lineComment).eaten? text).getD [] = lineTaken text := by
  by_cases hp : ['/', '/'] <+: text
  · obtain ⟨more, rfl⟩ := hp
    have htaken := lineTaken_slashes more
    have hsplit : '/' :: '/' :: more =
        lineTaken ('/' :: '/' :: more) ++ more.dropWhile (· ≠ '\n') := by
      rw [htaken, List.cons_append, List.cons_append, List.takeWhile_append_dropWhile]
    refine getD_eaten? hsplit ?_
    show (length? _ none ('/' :: '/' :: more)).getD 0 = (lineTaken ('/' :: '/' :: more)).length
    rw [htaken, length?_lineComment]
    exact Nat.add_comm 2 _
  · rw [lineTaken, if_neg hp, eaten?, length?_lineComment_eq_none hp]
    rfl

/-- The longest chain. -/
theorem longestChain_eaten? (text : List Char) :
    LongestChain text (((Regex.seq (.edge .start)
      (.rep (.alt blankRun (.alt lineComment blockComment)) 1 none true)).eaten? text).getD []) := by
  obtain ⟨taken, hlongest, hreach⟩ := Stage.longestChain text
  obtain ⟨rest, htext, -⟩ := hlongest.chain
  have hrun := Stage.run_threads (s := .before) (.inl rfl) 0 none text
  rw [List.append_nil, Option.or_none] at hrun
  rw [Stage.reach?_behind] at hreach
  rw [getD_eaten? htext]
  · exact hlongest
  · rw [length?, threads_chain, hrun, ← Option.some.inj hreach]
    cases Stage.before.reach? text <;> simp

end Regex
end Packrat
