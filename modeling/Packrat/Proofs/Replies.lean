import Packrat.Proofs.Conduct
import Packrat.Proofs.Endings

/-! What each operation of the engine does, as a condition on the programs that it runs. -/

namespace Packrat
set_option autoImplicit false

/-- What the memo would answer to a test. -/
def Setting.recall? {N σ : Type} (g : Setting N σ) (m : Machine σ) (rule : String) : Option Bool :=
  if g.memoizes then m.parser.memo.get? m.parser.cursor.offset rule else none

theorem recall?_of_memoizes {N σ : Type} {g : Setting N σ} (hmemo : g.memoizes = true)
    (m : Machine σ) (rule : String) :
    g.recall? m rule = m.parser.memo.get? m.parser.cursor.offset rule :=
  if_pos hmemo

namespace Machine
variable {σ : Type}

def position (m : Machine σ) : Position := m.parser.cursor.position

def testing (m : Machine σ) : Machine σ := m.count fun s => { s with tests := s.tests + 1 }

def hit (m : Machine σ) (rule : String) (matched : Bool) : Machine σ :=
  (m.testing.count fun s => { s with hits := s.hits + 1 }).emit
    (.tested true rule m.position matched)

/-- A test of `rule` at `start` has its outcome, which is kept. -/
def miss (m : Machine σ) (start : Snapshot) (rule : String) (matched : Bool) : Machine σ :=
  ((m.restore start).emit (.tested false rule start.position matched)).memoize
    start.position.offset rule matched

/-- A test of `rule` at `start` has been made. -/
def tested (m : Machine σ) (start : Snapshot) (rule : String) : Except Error Bool → Machine σ
  | .ok matched => m.miss start rule matched
  | .error _ => m.restore start

def matching (m : Machine σ) : Machine σ := m.count fun s => { s with runs := s.runs + 1 }

/-- The skipper has been made the active one, and the skip that comes with it is to be made. -/
def installing (m : Machine σ) (id : String) : Machine σ :=
  (m.emit (.skipperSet m.parser.skipper? id)).withSkipper (some id)

def loaded (m : Machine σ) : Machine σ :=
  m.withShared { m.shared with nextSerial := m.shared.nextSerial + 1 }

def session (m : Machine σ) (name : String) (path? : Option String) (content : List Char) :
    Machine σ :=
  m.loaded.withParser
    (Engine.freshParser m.parser.directory ⟨m.shared.nextSerial, name, path?, content⟩)

def root (m : Machine σ) : String :=
  (m.parser.cursor.source.path?.bind Path.parent?).getD m.parser.directory

/-- A parser for included files has been made, and works. -/
def sub (m : Machine σ) : Machine σ :=
  (m.emit (.rooted m.root)).loaded.withParser
    (Engine.freshParser m.root ⟨m.shared.nextSerial, Engine.emptyName, none, []⟩)

end Machine

namespace Engine
open Packrat.Action
variable {N σ α : Type} {g : Setting N σ} {run : Runner N σ} {m : Machine σ}
variable {E : Halt → Machine σ → Prop}

theorem run_ask (depth : Nat) (c : Call σ) :
    Engine.run g (depth + 1) _ (Program.ask c) = reply g (Engine.run g depth) c :=
  bind_pure _

theorem run_bind {β : Type} (depth : Nat) (p : Program N σ α) (f : α → Program N σ β) :
    Engine.run g (depth + 1) β (p >>= f) =
      Engine.run g (depth + 1) α p >>= fun a => Engine.run g (depth + 1) β (f a) :=
  Program.answer_bind _ p f

theorem ends_addToken {id literal : String} {Q : Resolved → Machine σ → Prop} :
    Ends (addToken id literal) m Q E ↔
      match m.shared.tokens.literal? id with
      | some known => Q (.token known) m
      | none => Q (.token literal) (m.register id literal) := by
  unfold addToken
  simp only [ends_bind, ends_get]
  cases m.shared.tokens.literal? id <;> rfl

theorem ends_resolve {id : String} {Q : Resolved → Machine σ → Prop} :
    Ends (resolve g id) m Q E ↔
      if g.grammar.rules.contains id then Q (.rule id) m else Ends (addToken id id) m Q E := by
  unfold resolve
  split <;> rfl

theorem invoke_eq (r : Resolved) (params : Params) :
    invoke g run r params = run _ (g.body r params) := by
  unfold invoke Setting.body
  cases r with
  | token literal => rfl
  | rule id =>
    dsimp only
    cases g.grammar.rules[id]? <;> rfl

theorem reply_invoke (r : Resolved) (params : Params) :
    reply g run (.invoke r params) = run _ (g.body r params) :=
  invoke_eq r params

theorem ends_resolveAndInvoke {id : String} {params : Params}
    {Q : Except Error N → Machine σ → Prop} :
    Ends (resolveAndInvoke g run id params) m Q E ↔
      Ends (resolve g id) m (fun r n => Ends (run _ (g.body r params)) n Q E) E := by
  unfold resolveAndInvoke
  simp only [ends_bind, invoke_eq]

theorem ends_skip {id? : Option String} {Q : Except Error Bool → Machine σ → Prop} :
    Ends (skip g run id?) m Q E ↔
      match id?.or m.parser.skipper? with
      | none => Q (.ok false) m
      | some id =>
        match g.grammar.skippers[id]? with
        | none => Q (.error ⟨.unknownSkipper id, some m.position⟩) m
        | some skipper =>
          Ends (run _ skipper) m
            (fun outcome n =>
              match outcome with
              | .ok skipped => Q (.ok skipped) n
              | .error e =>
                if e.isFatal then Q (.error e) n else Q (.ok false) (n.restore m.snapshot)) E := by
  unfold skip
  simp only [ends_bind, ends_getParser]
  cases id?.or m.parser.skipper? with
  | none => rfl
  | some id =>
    cases hs : g.grammar.skippers[id]? with
    | none => simp only [hs, ends_bind, ends_failAt, ends_pure, Machine.position]
    | some skipper =>
      simp only [hs, ends_bind, ends_snapshot]
      refine ends_congr fun outcome n => ?_
      cases outcome with
      | ok skipped => rfl
      | error e =>
        dsimp only
        cases e.isFatal <;> rfl

theorem ends_setSkipper_of_empty {id? : Option String} (h : id? = none ∨ id? = some "")
    {Q : Except Error (Option String) → Machine σ → Prop} :
    Ends (setSkipper g run id?) m Q E ↔ Q (.ok m.parser.skipper?) m := by
  rcases h with rfl | rfl <;> rfl

theorem ends_setSkipper {id : String} (h : id ≠ "")
    {Q : Except Error (Option String) → Machine σ → Prop} :
    Ends (setSkipper g run (some id)) m Q E ↔
      if g.grammar.skippers.contains id then
        Ends (skip g run none) ((m.emit (.skipperSet m.parser.skipper? id)).withSkipper (some id))
          (fun outcome n =>
            match outcome with
            | .ok _ => Q (.ok m.parser.skipper?) n
            | .error e => Q (.error e) n) E
      else Q (.error ⟨.unknownSkipper id, some m.position⟩) m := by
  simp only [setSkipper, ends_bind, ends_getParser]
  split
  · simp only [ends_bind, ends_emit, ends_modifyParser]
    refine ends_congr fun outcome n => ?_
    cases outcome <;> rfl
  · rfl

theorem contains_iff_exists_skipper {id : String} :
    g.grammar.skippers.contains id ↔ ∃ skipper, g.grammar.skippers[id]? = some skipper := by
  rw [Std.TreeMap.contains_eq_isSome_getElem?, Option.isSome_iff_exists]

theorem ends_skip_of_skipper {id? : Option String} {id : String} {skipper : Skipper N σ}
    (hid : id?.or m.parser.skipper? = some id) (hs : g.grammar.skippers[id]? = some skipper)
    {Q : Except Error Bool → Machine σ → Prop} :
    Ends (skip g run id?) m Q E ↔
      Ends (run _ skipper) m
        (fun outcome n =>
          match outcome with
          | .ok skipped => Q (.ok skipped) n
          | .error e =>
            if e.isFatal then Q (.error e) n else Q (.ok false) (n.restore m.snapshot)) E := by
  rw [ends_skip, hid]
  simp only [hs]

theorem ends_setSkipper_of_skipper {id : String} {skipper : Skipper N σ} (hid : id ≠ "")
    (hs : g.grammar.skippers[id]? = some skipper)
    {Q : Except Error (Option String) → Machine σ → Prop} :
    Ends (setSkipper g run (some id)) m Q E ↔
      Ends (run _ skipper) (m.installing id)
        (fun outcome n =>
          match outcome with
          | .ok _ => Q (.ok m.parser.skipper?) n
          | .error e =>
            if e.isFatal then Q (.error e) n
            else Q (.ok m.parser.skipper?) (n.restore (m.installing id).snapshot)) E := by
  rw [ends_setSkipper hid, if_pos (contains_iff_exists_skipper.2 ⟨skipper, hs⟩)]
  exact ends_skip_of_skipper (m := m.installing id) rfl hs

theorem ends_setSkipper_of_unknown {id : String} (hid : id ≠ "")
    (hs : g.grammar.skippers[id]? = none) {Q : Except Error (Option String) → Machine σ → Prop} :
    Ends (setSkipper g run (some id)) m Q E ↔
      Q (.error ⟨.unknownSkipper id, some m.position⟩) m := by
  have hc : ¬g.grammar.skippers.contains id := by
    rw [contains_iff_exists_skipper, hs]
    rintro ⟨skipper, h⟩
    cases h
  rw [ends_setSkipper hid, if_neg hc]

theorem ends_test {id : String} {Q : Except Error Bool → Machine σ → Prop} :
    Ends (test g run id) m Q E ↔
      match g.recall? m id with
      | some matched => Q (.ok matched) (m.hit id matched)
      | none =>
        Ends (resolveAndInvoke g run id []) m.testing
          (fun outcome n =>
            match verdict outcome with
            | .error e => Q (.error e) (n.restore m.snapshot)
            | .ok matched => Q (.ok matched) (n.miss m.snapshot id matched)) E := by
  unfold test
  simp only [ends_bind, ends_count, ends_getParser]
  show (Ends (match g.recall? m id with
    | some matched => _
    | none => _) _ Q E) ↔ _
  cases g.recall? m id with
  | some matched => rfl
  | none =>
    simp only [ends_bind, ends_snapshot, ends_restore]
    refine ends_congr fun outcome n => ?_
    cases verdict outcome <;> rfl

theorem ends_test_of_recall {id : String} {matched : Bool} (h : g.recall? m id = some matched)
    {Q : Except Error Bool → Machine σ → Prop} :
    Ends (test g run id) m Q E ↔ Q (.ok matched) (m.hit id matched) := by
  rw [ends_test, h]

theorem ends_test_of_miss {id : String} (h : g.recall? m id = none)
    {Q : Except Error Bool → Machine σ → Prop} :
    Ends (test g run id) m Q E ↔
      Ends (resolveAndInvoke g run id []) m.testing
        (fun outcome n => Q (verdict outcome) (n.tested m.snapshot id (verdict outcome))) E := by
  rw [ends_test, h]
  refine ends_congr fun outcome n => ?_
  cases verdict outcome <;> rfl

theorem test_of_recall {id : String} {matched : Bool} (h : g.recall? m id = some matched) :
    test g run id m = .ok (.ok matched) (m.hit id matched) := by
  rw [eq_ok_iff_ends, ends_test_of_recall h]
  exact ⟨rfl, rfl⟩

theorem test_of_miss {id : String} {outcome : Except Error N} {n : Machine σ}
    (h : g.recall? m id = none) (hx : resolveAndInvoke g run id [] m.testing = .ok outcome n) :
    test g run id m = .ok (verdict outcome) (n.tested m.snapshot id (verdict outcome)) := by
  rw [eq_ok_iff_ends, ends_test_of_miss h, ends_of_eq_ok hx]
  exact ⟨rfl, rfl⟩

theorem test_of_miss_error {id : String} {why : Halt} {n : Machine σ} (h : g.recall? m id = none)
    (hx : resolveAndInvoke g run id [] m.testing = .error why n) :
    test g run id m = .error why n := by
  rw [eq_error_iff_ends, ends_test_of_miss h, ends_of_eq_error hx]
  exact ⟨rfl, rfl⟩

theorem ends_runAll_cons {id : String} {ids : List String}
    {Q : Except Error Unit → Machine σ → Prop} :
    Ends (runAll g run (id :: ids)) m Q E ↔
      Ends (resolveAndInvoke g run id []) m
        (fun outcome n =>
          match outcome with
          | .ok _ => Ends (runAll g run ids) n Q E
          | .error e => Q (.error e) n) E := by
  rw [runAll]
  simp only [ends_bind]
  refine ends_congr fun outcome n => ?_
  cases outcome <;> rfl

theorem ends_testAll {ids : List String} {Q : Except Error Bool → Machine σ → Prop} :
    Ends (testAll g run ids) m Q E ↔
      Ends (runAll g run ids) m (fun outcome n => Q (verdict outcome) (n.restore m.snapshot)) E := by
  unfold testAll
  simp only [ends_bind, ends_snapshot, ends_restore, ends_pure]

theorem ends_matchWith {ref : RuleRef} {params : Params} {Q : Except Error N → Machine σ → Prop} :
    Ends (matchWith g run ref params) m Q E ↔
      match ref.skipper? with
      | none => Ends (resolveAndInvoke g run ref.id params) m.matching Q E
      | some skipper =>
        Ends (setSkipper g run (some skipper)) m.matching
          (fun installed n =>
            match installed with
            | .error e => Q (.error e) n
            | .ok previous? =>
              Ends (resolveAndInvoke g run ref.id params) n
                (fun outcome k => Q outcome (k.withSkipper previous?)) E) E := by
  unfold matchWith
  simp only [ends_bind, ends_count]
  cases ref.skipper? with
  | none => rfl
  | some skipper =>
    simp only [ends_bind]
    refine ends_congr fun installed n => ?_
    cases installed with
    | error e => rfl
    | ok previous? => simp only [ends_bind, ends_modifyParser, ends_pure]; rfl

theorem ends_read {file : String} {Q : Except Error Unit → Machine σ → Prop} :
    Ends (read g file) m Q E ↔
      match g.disk.read (Path.join m.parser.directory file) with
      | .error trouble =>
        Q (.error ⟨.readFailed (Path.join m.parser.directory file) trouble.message, none⟩) m
      | .ok content =>
        Q (.ok ())
          (m.session (Path.join m.parser.directory file)
            (some (Path.join m.parser.directory file)) content) := by
  unfold read
  simp only [ends_bind, ends_getParser]
  cases g.disk.read (Path.join m.parser.directory file) <;> rfl

theorem ends_runSkipper {id : String} {Q : Option (Except Error Bool) → Machine σ → Prop} :
    Ends (reply g run (.runSkipper id)) m Q E ↔
      match g.grammar.skippers[id]? with
      | none => Q none m
      | some skipper => Ends (run _ skipper) m (fun outcome n => Q (some outcome) n) E := by
  simp only [reply]
  cases g.grammar.skippers[id]? with
  | none => rfl
  | some skipper => simp only [ends_bind, ends_pure]

theorem ends_start {rule : String} {Q : Except Error N → Machine σ → Prop} :
    Ends (start g run rule) m Q E ↔
      Ends (matchWith g run ⟨rule, none⟩ []) (m.emit (.started m.position.source.name rule))
        (fun outcome n =>
          match outcome with
          | .ok node =>
            Q (.ok node)
              (n.emit (.finished n.position.source.name n.parser.memo.size n.parser.stats))
          | .error e =>
            Q (.error (e.orAt n.position))
              (n.emit (.failed n.position.source.name (e.orAt n.position).message))) E := by
  unfold start
  simp only [ends_bind, ends_emit, sourceName, ends_getParser, ends_pure]
  refine ends_congr fun outcome n => ?_
  cases outcome <;> rfl

theorem ends_below {program : Program N σ α} {Q : α → Machine σ → Prop} :
    Ends (below run program) m Q E ↔
      Ends (run α program) m.sub (fun a n => Q a (n.withParser m.parser)) E := by
  unfold below
  simp only [ends_bind, ends_getParser]
  rfl

def beginning (text : String) : Machine Unit where
  parser := freshParser "" ⟨0, "text", none, text.toList⟩
  shared := ⟨.empty, 1, [], ()⟩

end Engine

end Packrat
