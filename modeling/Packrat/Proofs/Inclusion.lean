import Mathlib.Data.List.TakeWhile
import Packrat.Proofs.Ledger
import Packrat.Proofs.Registration

/-! Included files. A parser of its own reads each of them, from the directory of the file that asks
for it; the parser that made it is left as it was, whatever comes of the file. -/

namespace Packrat
set_option autoImplicit false

/-! Paths. -/

namespace Path

/-- Names that are asked for one inside the other, with the paths of the files that were opened. A
name is looked for in the directory of the file that asks for it; inside of a text that has no path,
where it would have been from outside of that text. -/
inductive Routed : String → List (String × Option String) → Prop where
  | nil {directory : String} : Routed directory []
  | file {directory file parent : String} {later : List (String × Option String)}
    (hp : parent? (join directory file) = some parent) (h : Routed parent later) :
    Routed directory ((file, some (join directory file)) :: later)
  | text {directory name : String} {later : List (String × Option String)}
    (h : Routed directory later) : Routed directory ((name, none) :: later)

theorem anchor_cases (path : List Char) :
    anchor path = ['.'] ∨ anchor path = [] ∨ ∃ later, path = '/' :: later ∧ anchor path = ['/'] := by
  unfold anchor
  split
  · exact .inr (.inr ⟨_, rfl, rfl⟩)
  · exact .inl rfl
  · exact .inl rfl
  · exact .inr (.inl rfl)

/-- Only a path all of whose names are idle has no parent. -/
theorem exists_parent {path : String} (h : ¬∀ name ∈ names path.toList, isIdle name) :
    ∃ directory, parent? path = some directory := by
  unfold parent?
  dsimp only
  split
  · exact ⟨_, rfl⟩
  · next hnil =>
    have hidle : ∀ name ∈ names (path.toList.drop (anchor path.toList).length), isIdle name := by
      intro name hname
      exact List.dropWhile_eq_nil_iff.1 hnil name (List.mem_reverse.2 hname)
    rcases anchor_cases path.toList with hbase | hbase | ⟨later, hpath, hbase⟩
    · exact ⟨_, if_pos hbase⟩
    · rw [hbase] at hidle
      exact absurd hidle h
    · rw [hbase, hpath] at hidle
      refine absurd ?_ h
      intro name hname
      rw [hpath, names, if_pos rfl] at hname
      rcases List.mem_cons.1 hname with rfl | hname
      · rfl
      · exact hidle name hname

end Path

theorem Disk.walk_of_idle (d : Disk) {here later : List (List Char)}
    (h : ∀ name ∈ later, Path.isIdle name) : d.walk here later = .error .isDirectory := by
  induction later with
  | nil => rfl
  | cons name later ih =>
    obtain ⟨hname, hlater⟩ := List.forall_mem_cons.1 h
    rw [walk, if_pos hname]
    exact ih hlater

/-- A file that can be read is in some directory. -/
theorem Disk.exists_parent_of_read {d : Disk} {path : String} {text : List Char}
    (h : d.read path = .ok text) : ∃ directory, Path.parent? path = some directory := by
  apply Path.exists_parent
  intro hidle
  unfold read at h
  dsimp only at h
  rw [walk_of_idle d hidle] at h
  split at h
  · cases h
  · split at h
    · cases h
    · split at h
      · cases h
      · cases h

namespace Machine
variable {σ : Type} {m : Machine σ}

theorem root_of_parent {path directory : String} (hpath : m.source.path? = some path)
    (h : Path.parent? path = some directory) : m.root = directory := by
  show (m.source.path?.bind Path.parent?).getD m.parser.directory = directory
  rw [hpath, Option.bind_some, h, Option.getD_some]

theorem root_of_text (h : m.source.path? = none) : m.root = m.parser.directory := by
  show (m.source.path?.bind Path.parent?).getD m.parser.directory = m.parser.directory
  rw [h, Option.bind_none, Option.getD_none]

theorem root_congr {n : Machine σ} (hs : n.source = m.source)
    (hd : n.parser.directory = m.parser.directory) : n.root = m.root := by
  show (n.source.path?.bind Path.parent?).getD n.parser.directory = _
  rw [hs, hd]
  rfl

end Machine

namespace Engine
open Packrat.Action Machine Program
variable {N σ α : Type} {g : Setting N σ} {depth i : Nat} {m n k : Machine σ}

/-- The directory of a parser is for good. -/
def placed (g : Setting N σ) (directory : String) : Local g where
  parser p := p.directory = directory
  may _ := True
  spells _ _ := trivial
  grammar := g.grammar.only_of_always
  same hp hdirectory _ := hdirectory.trans hp
  advance hp _ := hp
  moveTo hp _ := hp
  restore hp _ := hp
  rollback _ hq := hq
  read _ hp _ _ := hp
  readText _ hp _ := hp

theorem Meets.directory {p : Program N σ α} {s : Site σ} (hs : Meets g depth i p m s) :
    s.machine.parser.directory = m.parser.directory :=
  ((placed g m.parser.directory).standing.holds_of_meets hs
    ((placed g m.parser.directory).abides p.only_of_always) rfl).2

theorem Meets.continues (hg : g.KeepsSessions) {p : Program N σ α} {s : Site σ}
    (hs : Meets g depth i p m s) (hp : p.Only (Call.KeepsSession g.disk)) :
    m.Continues s.machine := by
  induction hs with
  | here => exact .refl _
  | inside hc _ ih =>
    exact (continues_enters hg hc).trans (ih (Ledger.keeps_enters hg hc))
  | later hc _ ih =>
    exact ((continuing_reply hg (runsGrow_run hg _) hp.1 _).ok hc).trans (ih (hp.2 _ trivial))

/-- The call has a parser of its own open the file, or take the text, of that name; `k` is where the
session begins, with the rule. -/
inductive Opens (g : Setting N σ) : Call σ → Machine σ → String → String → Machine σ → Prop where
  | file {file rule : String} {m k : Machine σ} (hk : read g file m.sub = .ok (.ok ()) k) :
    Opens g (.parseBelow file rule) m file rule k
  | text {name content rule : String} {m k : Machine σ} (hk : readText name content m.sub = .ok () k) :
    Opens g (.parseTextBelow name content rule) m name rule k

theorem read_ok {file : String} (h : read g file m = .ok (.ok ()) k) :
    ∃ text, g.disk.read (Path.join m.parser.directory file) = .ok text ∧
      k = m.session (Path.join m.parser.directory file)
        (some (Path.join m.parser.directory file)) text := by
  have hread : Ends (read g file) m (fun outcome n => outcome = .ok () →
      ∃ text, g.disk.read (Path.join m.parser.directory file) = .ok text ∧
        n = m.session (Path.join m.parser.directory file)
          (some (Path.join m.parser.directory file)) text) fun _ _ => True := by
    apply ends_read.2
    split
    · intro hok
      cases hok
    · next text htext => exact fun _ => ⟨text, htext, rfl⟩
  exact hread.ok h rfl

theorem read_error {file : String} {e : Error} (h : read g file m = .ok (.error e) n) : n = m := by
  have hread : Ends (read g file) m (fun outcome n => outcome = .error e → n = m)
      fun _ _ => True := by
    apply ends_read.2
    split
    · exact fun _ => rfl
    · intro hok
      cases hok
  exact hread.ok h rfl

variable {name rule : String} {c : Call σ}

theorem Opens.fresh (h : Opens g c m name rule k) :
    k.parser = ⟨m.root, .atStart k.source, none, .empty, .zero⟩ := by
  cases h with
  | file hk =>
    obtain ⟨text, -, rfl⟩ := read_ok hk
    rfl
  | text hk =>
    cases hk
    rfl

theorem Opens.path (h : Opens g c m name rule k) {path : String}
    (hpath : k.source.path? = some path) :
    path = Path.join m.root name ∧ g.disk.read path = .ok k.source.content := by
  cases h with
  | file hk =>
    obtain ⟨text, htext, rfl⟩ := read_ok hk
    cases hpath
    exact ⟨rfl, htext⟩
  | text hk =>
    cases hk
    cases hpath

theorem Opens.given (h : Opens g c m name rule k) (hpath : k.source.path? = none) :
    ∃ content, c = .parseTextBelow name content rule ∧ k.source.content = content.toList := by
  cases h with
  | file hk =>
    obtain ⟨text, -, rfl⟩ := read_ok hk
    cases hpath
  | text hk =>
    cases hk
    exact ⟨_, rfl, rfl⟩

theorem Opens.run_eq (h : Opens g c m name rule k) {q : Program N σ (Except Error N)}
    (hq : c.below? = some q) (depth : Nat) :
    run g (depth + 1) _ q m.sub = start g (run g depth) rule k := by
  have hstart : run g (depth + 1) _ (ask (.start rule)) k = start g (run g depth) rule k :=
    congrFun (run_ask depth (.start rule)) k
  cases h with
  | file hk =>
    cases hq
    exact (bind_eq_of_ok hk).trans hstart
  | text hk =>
    cases hq
    exact (bind_eq_of_ok hk).trans hstart

theorem ends_of_below? {q : Program N σ (Except Error N)} (hq : c.below? = some q)
    {Q : Machine σ → Prop} {E : Halt → Machine σ → Prop} :
    Ends (reply g (run g depth) c) m (fun _ n => Q n) E ↔
      Ends (run g depth _ q) m.sub (fun _ n => Q (n.withParser m.parser)) E := by
  cases c <;> cases hq
  all_goals exact ends_below

/-- Includes one inside the other, with the paths that were opened: each but the first is made by the
rules that the one before it has run on what it has opened. -/
inductive Chain (g : Setting N σ) : Site σ → List (String × Option String) → Prop where
  | last {s : Site σ} {name rule : String} {k : Machine σ}
    (hk : Opens g s.call s.machine name rule k) : Chain g s [(name, k.source.path?)]
  | next {s t : Site σ} {name rule : String} {k : Machine σ} {later : List (String × Option String)}
    (hk : Opens g s.call s.machine name rule k) (ht : Meets g s.levels 0 (ask (.start rule)) k t)
    (hsource : t.machine.source = k.source) (h : Chain g t later) :
    Chain g s ((name, k.source.path?) :: later)

/-- What is opened at `m` is on the way to what is opened inside of it. -/
theorem Opens.routed (h : Opens g c m name rule k) {later : List (String × Option String)}
    (hlater : Path.Routed k.root later) : Path.Routed m.root ((name, k.source.path?) :: later) := by
  cases h with
  | file hk =>
    obtain ⟨text, htext, rfl⟩ := read_ok hk
    obtain ⟨parent, hparent⟩ := Disk.exists_parent_of_read htext
    rw [root_of_parent rfl hparent] at hlater
    exact .file hparent hlater
  | text hk =>
    cases hk
    rw [root_of_text rfl] at hlater
    exact .text hlater

theorem Chain.routed {s : Site σ} {chain : List (String × Option String)} (h : Chain g s chain) :
    Path.Routed s.machine.root chain := by
  induction h with
  | last hk => exact hk.routed .nil
  | next hk ht hsource _ ih =>
    apply hk.routed
    rw [← root_congr hsource ht.directory]
    exact ih

/-- A parser that has another one parse a file or a text is left as it was, whatever comes of it;
only tokens may have been registered. The other one begins afresh, in the directory of the file that
is being read or of the parser that reads a text, with what the disk has at the path that is made of
the name, or with the text that is given; and a file that cannot be read changes nothing. So the paths
of includes inside of includes are told by their names alone. -/
theorem includes_are_isolated (g : Setting N σ) (depth : Nat) :
    (∀ (c : Call σ) (q : Program N σ (Except Error N)) m a n, c.below? = some q →
      reply g (run g depth) c m = .ok a n → n.parser = m.parser ∧ m.shared.Endures n.shared) ∧
    (∀ c m name rule k, Opens g c m name rule k →
      k.parser = ⟨m.root, .atStart k.source, none, .empty, .zero⟩ ∧
      (∀ path, k.source.path? = some path →
        path = Path.join m.root name ∧ g.disk.read path = .ok k.source.content) ∧
      (k.source.path? = none → ∃ content, c = .parseTextBelow name content rule ∧
        k.source.content = content.toList) ∧
      ∀ q, c.below? = some q → run g (depth + 1) _ q m.sub = start g (run g depth) rule k) ∧
    (∀ (α : Type) (p : Program N σ α) i m s, Meets g depth i p m s →
      s.machine.parser.directory = m.parser.directory) ∧
    (∀ file m e n, reply g (run g depth) (.read file) m = .ok (.error e) n → n = m) ∧
    (∀ file rule m trouble, g.disk.read (Path.join m.parser.directory file) = .error trouble →
      run g (depth + 1) _ (parse file rule) m = .ok (.error
        ⟨.readFailed (Path.join m.parser.directory file) trouble.message, none⟩) m) ∧
    (∀ s chain, Chain g s chain →
      (∀ path directory, s.machine.source.path? = some path → Path.parent? path = some directory →
        Path.Routed directory chain) ∧
      (s.machine.source.path? = none → Path.Routed s.machine.parser.directory chain)) ∧
    (g.KeepsSessions → ∀ i rule k s, Meets g depth i (ask (.start rule)) k s →
      s.machine.source = k.source) := by
  refine ⟨?_, ?_, fun α p i m s hs => hs.directory, fun file m e n h => read_error h, ?_, ?_, ?_⟩
  · intro c q m a n hq hx
    constructor
    · have hback : Ends (reply g (run g depth) c) m (fun _ n => n.parser = m.parser)
          fun _ _ => True := (ends_of_below? hq).2 (ends_of_ok fun _ _ _ => rfl)
      exact hback.ok hx
    · exact ((Lasts.endures m.shared).ends_reply depth c (.refl _)).ok hx
  · intro c m name rule k hk
    exact ⟨hk.fresh, fun path => hk.path, hk.given, fun q hq => hk.run_eq hq depth⟩
  · intro file rule m trouble htrouble
    have hread : read g file m = .ok (.error
        ⟨.readFailed (Path.join m.parser.directory file) trouble.message, none⟩) m := by
      apply eq_ok_iff_ends.2
      apply ends_read.2
      rw [htrouble]
      exact ⟨rfl, rfl⟩
    exact bind_eq_of_ok hread
  · intro s chain h
    have hrouted := h.routed
    constructor
    · intro path directory hpath hdirectory
      rw [← root_of_parent hpath hdirectory]
      exact hrouted
    · intro hpath
      rw [← root_of_text hpath]
      exact hrouted
  · intro hg i rule k s hs
    exact (hs.continues hg ⟨trivial, fun _ _ => trivial⟩).source

/-- A file that includes another one of its directory. -/
def nestedSetting : Setting Unit Unit where
  grammar := (Grammar.empty.rule "part" fun _ => ask (.parseBelow "leaf" "ab")).rule "whole"
    fun _ => ask (.parseBelow "parts/first" "part")
  make _ _ := ()
  disk := (Disk.empty.add "parts/first" (.file (some []))).add "parts/leaf" (.file (some ['a', 'b']))
  memoizes := true

def outerSite : Site Unit := ⟨.parseBelow "parts/first" "part", beginning "", 3, 0⟩

def firstSession : Machine Unit :=
  outerSite.machine.sub.session "parts/first" (some "parts/first") []

def innerSite : Site Unit :=
  ⟨.parseBelow "leaf" "ab", (firstSession.emit (.started "parts/first" "part")).matching, 1, 0⟩

def secondSession : Machine Unit :=
  innerSite.machine.sub.session "parts/leaf" (some "parts/leaf") ['a', 'b']

theorem includes_are_isolated_nested :
    Chain nestedSetting outerSite [("parts/first", some "parts/first"), ("leaf", some "parts/leaf")] ∧
      Path.Routed "" [("parts/first", some "parts/first"), ("leaf", some "parts/leaf")] := by
  have hfirst : Opens nestedSetting outerSite.call outerSite.machine "parts/first" "part"
      firstSession := .file rfl
  have hinner : Meets nestedSetting 3 0 (ask (.start "part")) firstSession innerSite :=
    .inside (.start rfl) .here
  have hsecond : Opens nestedSetting innerSite.call innerSite.machine "leaf" "ab" secondSession :=
    .file rfl
  have hchain : Chain nestedSetting outerSite
      [("parts/first", some "parts/first"), ("leaf", some "parts/leaf")] :=
    .next hfirst hinner rfl (.last hsecond)
  exact ⟨hchain, ((includes_are_isolated nestedSetting 3).2.2.2.2.2.1 _ _ hchain).2 rfl⟩

end Engine

end Packrat
