import Packrat.Proofs.Reading
import Packrat.Proofs.Replies
import Packrat.Proofs.Stepping
import Packrat.Proofs.Threading

/-! The stock skippers against scanners of what they pass over. A scan that has come to its end goes
no further when it is made again. -/

namespace Packrat
set_option autoImplicit false

/-- What the stock skippers take of a text, by their names. -/
def scanners : List (String × (List Char → List Char → Prop)) :=
  [("whitespace", fun text taken => taken = text.takeWhile isBlank),
   ("inline_whitespace", fun text taken => taken = text.takeWhile fun c => c = ' ' || c = '\t'),
   ("line_comment", fun text taken => taken = lineTaken text),
   ("whitespace_and_comments", LongestChain)]

theorem takeWhile_eq_nil_of_append {p : Char → Bool} {taken rest : List Char}
    (h : taken = (taken ++ rest).takeWhile p) : rest.takeWhile p = [] := by
  have hall : ∀ c ∈ taken, p c := fun c hc => List.mem_takeWhile_imp (h ▸ hc)
  rw [List.takeWhile_append_of_pos hall] at h
  exact List.append_cancel_left (h.symm.trans (List.append_nil taken).symm)

theorem lineTaken_eq_nil {rest : List Char} (h : rest.takeWhile (· ≠ '\n') = []) :
    lineTaken rest = [] := by
  refine if_neg ?_
  rintro ⟨more, rfl⟩
  cases h

theorem lineTaken_eq_nil_of_append {taken rest : List Char} (h : taken = lineTaken (taken ++ rest)) :
    lineTaken rest = [] := by
  by_cases hp : ['/', '/'] <+: taken ++ rest
  · obtain ⟨more, hmore⟩ := hp
    have htaken : taken = (taken ++ rest).takeWhile (· ≠ '\n') := by
      rw [← hmore] at h ⊢
      exact h.trans (lineTaken_slashes more)
    exact lineTaken_eq_nil (takeWhile_eq_nil_of_append htaken)
  · rw [lineTaken, if_neg hp] at h
    subst h
    exact if_neg hp

theorem Chain.append {taken more rest : List Char} (h : Chain taken (more ++ rest))
    (hmore : Chain more rest) : Chain (taken ++ more) rest := by
  generalize hleft : more ++ rest = left at h
  induction h with
  | done => exact hmore
  | @link piece taken left hp _ ih =>
    subst hleft
    rw [List.append_assoc]
    exact .link (by rwa [List.append_assoc]) (ih rfl)

theorem LongestChain.of_rest {taken rest more : List Char} (h : LongestChain (taken ++ rest) taken)
    (hmore : LongestChain rest more) : more = [] := by
  obtain ⟨rest', htext, hchain⟩ := h.chain
  obtain rfl := List.append_cancel_left htext
  obtain ⟨left, rfl, hlater⟩ := hmore.chain
  have hle := h.longest (taken ++ more) left (List.append_assoc _ _ _).symm (hchain.append hlater)
  rw [List.length_append] at hle
  exact List.length_eq_zero_iff.1 (by omega)

/-- Behind what a scanner takes it takes nothing. -/
theorem eq_nil_of_scan {name : String} {scan : List Char → List Char → Prop}
    (hname : (name, scan) ∈ scanners) {taken rest more : List Char}
    (h : scan (taken ++ rest) taken) (hmore : scan rest more) : more = [] := by
  simp only [scanners, List.mem_cons, List.not_mem_nil, or_false, Prod.mk.injEq] at hname
  rcases hname with ⟨-, rfl⟩ | ⟨-, rfl⟩ | ⟨-, rfl⟩ | ⟨-, rfl⟩
  · exact hmore.trans (takeWhile_eq_nil_of_append h)
  · exact hmore.trans (takeWhile_eq_nil_of_append h)
  · exact hmore.trans (lineTaken_eq_nil_of_append h)
  · exact h.of_rest hmore

namespace Grammar
variable {N σ : Type} {g : Grammar N σ}

/-- The stock skippers are registered under their names. -/
def Stocked (g : Grammar N σ) : Prop :=
  ∀ entry ∈ stock, g.skippers[entry.1]? = some (Program.skipRegex entry.2)

theorem getElem?_skipper (name id : String) (body : Skipper N σ) :
    (g.skipper name body).skippers[id]? = if name = id then some body else g.skippers[id]? := by
  simp only [skipper, Std.TreeMap.getElem?_insert, Std.LawfulEqOrd.compare_eq_iff_eq]

theorem stocked_withStock : (withStock : Grammar N σ).Stocked := by
  intro entry hentry
  simp only [stock, List.mem_cons, List.not_mem_nil, or_false] at hentry
  simp only [withStock, stock, List.foldl, getElem?_skipper]
  rcases hentry with rfl | rfl | rfl | rfl <;> rfl

theorem Stocked.rule (h : g.Stocked) (name : String) (body : Rule N σ) :
    (g.rule name body).Stocked :=
  h

theorem Stocked.skipper (h : g.Stocked) {name : String} (hname : ∀ entry ∈ stock, entry.1 ≠ name)
    (body : Skipper N σ) : (g.skipper name body).Stocked := by
  intro entry hentry
  rw [getElem?_skipper, if_neg (hname entry hentry).symm]
  exact h entry hentry

theorem exists_stock_of_scanner {name : String} {scan : List Char → List Char → Prop}
    (h : (name, scan) ∈ scanners) :
    ∃ r, (name, r) ∈ stock ∧ ∀ text, scan text ((r.eaten? text).getD []) := by
  have hblank : CharSet.blank.has = isBlank := funext CharSet.has_blank
  have hinline : inlineBlank.has = fun c => c = ' ' || c = '\t' := funext has_inlineBlank
  simp only [scanners, List.mem_cons, List.not_mem_nil, or_false, Prod.mk.injEq] at h
  rcases h with ⟨rfl, rfl⟩ | ⟨rfl, rfl⟩ | ⟨rfl, rfl⟩ | ⟨rfl, rfl⟩
  · refine ⟨_, .head _, fun text => ?_⟩
    rw [← hblank]
    exact Regex.getD_eaten?_run _ text
  · refine ⟨_, .tail _ (.head _), fun text => ?_⟩
    rw [← hinline]
    exact Regex.getD_eaten?_run _ text
  · exact ⟨_, .tail _ (.tail _ (.head _)), Regex.getD_eaten?_lineComment⟩
  · exact ⟨_, .tail _ (.tail _ (.tail _ (.head _))), Regex.longestChain_eaten?⟩

end Grammar

namespace Cursor

/-- Reading with an expression moves behind what it takes. -/
theorem eatRegex_between {c : Cursor} {r : Regex} {before taken rest : List Char}
    (hb : c.position.Between before (taken ++ rest)) (hfits : c.source.Fits)
    (htaken : (r.eaten? (taken ++ rest)).getD [] = taken) :
    ∃ text? d, c.eatRegex r = .ok (text?, d) ∧ text?.getD [] = taken ∧ d.source = c.source ∧
      d.position.Between (before ++ taken) rest := by
  cases heaten : r.eaten? (taken ++ rest) with
  | none =>
    rw [heaten] at htaken
    subst htaken
    refine ⟨none, c, ?_, rfl, rfl, by simpa using hb⟩
    exact bind_eq_ok_iff.2 ⟨_, rest_eq hb, by rw [heaten]; rfl⟩
  | some text =>
    rw [heaten] at htaken
    subst htaken
    obtain ⟨d, hd, hsource, hd'⟩ := advance_size_between hb hfits
    refine ⟨some _, d, ?_, rfl, hsource, hd'⟩
    refine bind_eq_ok_iff.2 ⟨_, rest_eq hb, ?_⟩
    rw [heaten]
    exact bind_eq_ok_iff.2 ⟨d, hd, rfl⟩

end Cursor

namespace Engine
open Packrat.Action
variable {N σ : Type} {g : Setting N σ} {m : Machine σ}

theorem run_skipRegex {r : Regex} {cursor : Cursor} {text? : Option (List Char)}
    (h : m.parser.cursor.eatRegex r = .ok (text?, cursor)) (depth : Nat) :
    run g (depth + 1) _ (Program.skipRegex r) m =
      .ok (.ok (decide (text?.getD [] ≠ []))) (m.withCursor cursor) := by
  have hempty : ∀ text : List Char, (String.ofList text ≠ "") ↔ text ≠ [] := by
    intro text
    simp
  have hreading : (Call.eatRegex r : Call σ).reading? (N := N) = some _ := rfl
  rw [Program.skipRegex, run_bind, run_ask, eq_ok_iff_ends, ends_bind]
  refine (ends_reading hreading).2 ?_
  rw [h]
  cases text? with
  | none => exact ⟨rfl, rfl⟩
  | some text => exact ⟨congrArg _ (decide_eq_decide.2 (hempty text)), rfl⟩

theorem run_skip {id? : Option String} {id : String} {skipper : Skipper N σ} {depth : Nat}
    {skipped : Bool} {n : Machine σ} (hid : id?.or m.parser.skipper? = some id)
    (hs : g.grammar.skippers[id]? = some skipper)
    (h : run g depth _ skipper m = .ok (.ok skipped) n) :
    run g (depth + 1) _ (Program.ask (.skip id?)) m = .ok (.ok skipped) n := by
  rw [run_ask, eq_ok_iff_ends]
  refine (ends_skip_of_skipper hid hs).2 ?_
  rw [ends_of_eq_ok h]
  exact ⟨rfl, rfl⟩

/-- A stock skipper goes where its scanner goes, says whether that is anywhere else, and has nothing
more to skip there. -/
theorem stock_skippers_scan (hg : g.grammar.Stocked) {name : String}
    {scan : List Char → List Char → Prop} (hname : (name, scan) ∈ scanners)
    (hsound : m.parser.cursor.Sound) (hfits : m.parser.cursor.source.Fits) :
    ∃ before taken rest cursor moved,
      m.position.Between before (taken ++ rest) ∧ scan (taken ++ rest) taken ∧
      cursor.source = m.parser.cursor.source ∧
      cursor.position.Between (before ++ taken) rest ∧
      (moved = true ↔ cursor ≠ m.parser.cursor) ∧
      ∀ depth,
        run g (depth + 2) _ (Program.ask (.skip (some name))) m =
          .ok (.ok moved) (m.withCursor cursor) ∧
        run g (depth + 2) _ (Program.ask (.skip (some name))) (m.withCursor cursor) =
          .ok (.ok false) (m.withCursor cursor) := by
  obtain ⟨before, text, hb⟩ := hsound
  obtain ⟨r, hstock, hscan⟩ := Grammar.exists_stock_of_scanner hname
  obtain ⟨rest, htext⟩ := r.exists_append_getD_eaten? text
  have htaken := hscan text
  generalize heaten : (r.eaten? text).getD [] = taken at htext htaken
  subst htext
  obtain ⟨text?, cursor, hread, hget, hsource, hb'⟩ := Cursor.eatRegex_between hb hfits heaten
  have hmoved : decide (text?.getD [] ≠ []) = true ↔ cursor ≠ m.parser.cursor := by
    rw [hget, decide_eq_true_iff, ne_eq, ne_eq, not_iff_not]
    constructor
    · rintro rfl
      exact Cursor.eq_of_between (by simpa using hb') hb hsource
    · rintro rfl
      have hoffset := hb.offset.symm.trans hb'.offset
      have hlength := Utf8.length_le_size taken
      rw [Utf8.size_append] at hoffset
      exact List.length_eq_zero_iff.1 (by omega)
  -- At the new place the expression takes nothing.
  have hnothing : (r.eaten? ([] ++ rest)).getD [] = [] := eq_nil_of_scan hname htaken (hscan rest)
  obtain ⟨again?, there, hagain, hget', hsource', hthere⟩ :=
    Cursor.eatRegex_between hb' (hsource ▸ hfits) hnothing
  rw [List.append_nil] at hthere
  obtain rfl := Cursor.eq_of_between hthere hb' hsource'
  refine ⟨before, taken, rest, there, _, hb, htaken, hsource, hb', hmoved, fun depth => ⟨?_, ?_⟩⟩
  · exact run_skip rfl (hg _ hstock) (run_skipRegex hread depth)
  · have hrun := run_skipRegex (g := g) (m := m.withCursor there) hagain depth
    rw [hget'] at hrun
    exact run_skip rfl (hg _ hstock) hrun

def stockSetting : Setting Unit Unit where
  grammar := Grammar.withStock
  make _ _ := ()
  disk := .empty
  memoizes := true

/-- The first `*/` that may close the comment is the second one. -/
theorem stock_skippers_scan_comment :
    ∃ cursor moved, (moved = true ↔ cursor ≠ (beginning " /*/ */x").parser.cursor) ∧
      run stockSetting 2 _ (Program.ask (.skip (some "whitespace_and_comments")))
          (beginning " /*/ */x") = .ok (.ok moved) ((beginning " /*/ */x").withCursor cursor) ∧
      run stockSetting 2 _ (Program.ask (.skip (some "whitespace_and_comments")))
          ((beginning " /*/ */x").withCursor cursor) =
        .ok (.ok false) ((beginning " /*/ */x").withCursor cursor) := by
  have hname : ("whitespace_and_comments", LongestChain) ∈ scanners :=
    .tail _ (.tail _ (.tail _ (.head _)))
  have hfits : (beginning " /*/ */x").parser.cursor.source.Fits := by
    unfold Source.Fits
    decide
  obtain ⟨_, _, _, cursor, moved, -, -, -, -, hmoved, hrun⟩ :=
    stock_skippers_scan (g := stockSetting) Grammar.stocked_withStock hname
      (Cursor.sound_atStart _) hfits
  exact ⟨cursor, moved, hmoved, (hrun 0).1, (hrun 0).2⟩

end Engine

end Packrat
