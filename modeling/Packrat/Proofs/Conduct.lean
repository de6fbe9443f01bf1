import Packrat.Machine

/-! What a program may do is told from its calls, given what it is told by replies. Grammars are held
to it rule by rule and skipper by skipper. -/

namespace Packrat
set_option autoImplicit false

namespace Program
variable {N σ α β : Type}

/-- As long as replies are as `told` says, the calls are as `may` says, and so is the result as
`gives` says. -/
def Abides (may : Call σ → Prop) (told : (c : Call σ) → c.Reply N → Prop) (gives : α → Prop) :
    Program N σ α → Prop
  | .done a => gives a
  | .call c next => may c ∧ ∀ reply, told c reply → (next reply).Abides may told gives

/-- Whatever the replies are, the calls are as `may` says. -/
def Only (may : Call σ → Prop) (p : Program N σ α) : Prop :=
  p.Abides may (fun _ _ => True) fun _ => True

variable {may : Call σ → Prop} {told : (c : Call σ) → c.Reply N → Prop}
variable {gives : α → Prop} {keeps : β → Prop}

theorem Abides.bind {p : Program N σ α} {f : α → Program N σ β} (hp : p.Abides may told gives)
    (hf : ∀ a, gives a → (f a).Abides may told keeps) : (p.bind f).Abides may told keeps := by
  induction p with
  | done a => exact hf a hp
  | call c next ih =>
    obtain ⟨hc, hnext⟩ := hp
    refine ⟨hc, ?_⟩
    intro reply hreply
    exact ih reply (hnext reply hreply)

theorem Abides.of_always (hmay : ∀ c, may c) (hgives : ∀ a, gives a) (p : Program N σ α) :
    p.Abides may told gives := by
  induction p with
  | done a => exact hgives a
  | call c next ih =>
    refine ⟨hmay c, ?_⟩
    intro reply _
    exact ih reply

theorem Only.call {c : Call σ} {next : c.Reply N → Program N σ α} (hc : may c)
    (hnext : ∀ reply, (next reply).Only may) : (Program.call c next).Only may := by
  refine ⟨hc, ?_⟩
  intro reply _
  exact hnext reply

end Program

def Setting.body {N σ : Type} (g : Setting N σ) (r : Resolved) (params : Params) :
    Program N σ (Except Error N) :=
  match r with
  | .token literal => Program.token literal
  | .rule id =>
    match g.grammar.rules[id]? with
    | some rule => rule params
    | none => Program.token id

/-- Every rule is as `R` says and every skipper as `S` says. -/
structure Grammar.All {N σ : Type} (g : Grammar N σ) (R : Program N σ (Except Error N) → Prop)
    (S : Skipper N σ → Prop) : Prop where
  rule : ∀ (id : String) (rule : Rule N σ) params, g.rules[id]? = some rule → R (rule params)
  skipper : ∀ (id : String) skipper, g.skippers[id]? = some skipper → S skipper

namespace Grammar.All
variable {N σ : Type} {g : Grammar N σ} {R : Program N σ (Except Error N) → Prop}
variable {S : Skipper N σ → Prop}

theorem empty : (Grammar.empty : Grammar N σ).All R S where
  rule := by
    intro id rule params h
    simp [Grammar.empty] at h
  skipper := by
    intro id skipper h
    simp [Grammar.empty] at h

theorem insert_rule (h : g.All R S) {name : String} {body : Rule N σ}
    (hb : ∀ params, R (body params)) : (g.rule name body).All R S where
  rule := by
    intro id rule params hr
    simp only [Grammar.rule, Std.TreeMap.getElem?_insert] at hr
    split at hr
    · cases hr
      exact hb params
    · exact h.rule id rule params hr
  skipper := h.skipper

theorem insert_skipper (h : g.All R S) {name : String} {body : Skipper N σ} (hb : S body) :
    (g.skipper name body).All R S where
  rule := h.rule
  skipper := by
    intro id skipper hs
    simp only [Grammar.skipper, Std.TreeMap.getElem?_insert] at hs
    split at hs
    · cases hs
      exact hb
    · exact h.skipper id skipper hs

theorem withStock (hs : ∀ r, S (Program.skipRegex r)) : (Grammar.withStock : Grammar N σ).All R S :=
  insert_skipper (insert_skipper (insert_skipper (insert_skipper empty (hs _)) (hs _)) (hs _)) (hs _)

end Grammar.All

theorem Grammar.All.body {N σ : Type} {g : Setting N σ} {R : Program N σ (Except Error N) → Prop}
    {S : Skipper N σ → Prop} (h : g.grammar.All R S) (htoken : ∀ text, R (Program.token text))
    (r : Resolved) (params : Params) : R (g.body r params) := by
  unfold Setting.body
  cases r with
  | token literal => exact htoken literal
  | rule id =>
    dsimp only
    split
    · next rule hrule => exact h.rule id rule params hrule
    · exact htoken id

/-! Sessions. -/

/-- The call leaves the source of the parser that runs it; a file is asked for only if there is
none. -/
def Call.KeepsSession {σ : Type} (disk : Disk) : Call σ → Prop
  | .read file => ∀ directory text, disk.read (Path.join directory file) ≠ .ok text
  | .readText .. => False
  | _ => True

namespace Setting
variable {N σ : Type}

/-- No rule or skipper replaces the session of the parser that runs it. Parsers for included files
have sessions of their own. -/
def KeepsSessions (g : Setting N σ) : Prop :=
  g.grammar.All (Program.Only (Call.KeepsSession g.disk)) (Program.Only (Call.KeepsSession g.disk))

theorem KeepsSessions.token (g : Setting N σ) (text : String) :
    (Program.token text : Program N σ (Except Error N)).Only (Call.KeepsSession g.disk) := by
  apply Program.Only.call trivial
  intro start
  apply Program.Only.call trivial
  intro taken
  cases taken with
  | true =>
    apply Program.Only.call trivial
    intro node
    trivial
  | false =>
    apply Program.Only.call trivial
    intro place
    trivial

theorem KeepsSessions.body {g : Setting N σ} (hg : g.KeepsSessions) (r : Resolved)
    (params : Params) : (g.body r params).Only (Call.KeepsSession g.disk) :=
  Grammar.All.body hg (token g) r params

end Setting

/-! Positions. -/

/-- The positions to be read off nodes and off the outside state. -/
structure View (N σ : Type) where
  node : N → Position → Prop
  outside : σ → Position → Prop

def Error.Within (known : Position → Prop) (e : Error) : Prop :=
  ∀ p, e.position? = some p → known p

/-- What an outcome tells of is known. -/
def Outcome (known : Position → Prop) {α : Type} (gives : α → Prop) : Except Error α → Prop
  | .ok a => gives a
  | .error e => e.Within known

namespace View
variable {N σ : Type}

def Node (view : View N σ) (known : Position → Prop) (a : N) : Prop := ∀ p, view.node a p → known p

def Outside (view : View N σ) (known : Position → Prop) (s : σ) : Prop :=
  ∀ p, view.outside s p → known p

/-- The call names known positions only. -/
def Names (view : View N σ) (known : Position → Prop) : Call σ → Prop
  | .moveTo p | .make _ p => known p
  | .restore s => known s.position
  | .consult f => ∀ s, view.Outside known s → view.Outside known (f s)
  | _ => True

/-- The reply tells of known positions only. -/
def Tells (view : View N σ) (known : Position → Prop) : (c : Call σ) → c.Reply N → Prop
  | .position, p => known p
  | .invoke .., outcome | .matchWith .., outcome | .start _, outcome | .parseBelow .., outcome
  | .parseTextBelow .., outcome => Outcome known (view.Node known) outcome
  | .test _, outcome | .testAll _, outcome | .skip _, outcome => Outcome known (fun _ => True) outcome
  | .setSkipper _, outcome => Outcome known (fun _ => True) outcome
  | .read _, outcome => Outcome known (fun _ => True) outcome
  | .runSkipper _, outcome? => ∀ outcome ∈ outcome?, Outcome known (fun _ => True) outcome
  | .make .., a => view.Node known a
  | .consult _, s => view.Outside known s
  | _, _ => True

end View

/-- Programs of rules name known positions only, and tell of known positions only, as long as they
are told of none but known ones. So do nodes. -/
structure Setting.Respects {N σ : Type} (g : Setting N σ) (view : View N σ)
    (known : Position → Prop) : Prop where
  grammar : g.grammar.All
    (Program.Abides (view.Names known) (view.Tells known) (Outcome known (view.Node known)))
    (Program.Abides (view.Names known) (view.Tells known) (Outcome known fun _ => True))
  make : ∀ kind p, known p → view.Node known (g.make kind p)

section
variable {N σ : Type} {known : Position → Prop}

theorem View.names_of_always (view : View N σ) (hknown : ∀ p, known p) (c : Call σ) :
    view.Names known c := by
  cases c with
  | moveTo p => exact hknown p
  | restore s => exact hknown s.position
  | make kind p => exact hknown p
  | consult f =>
    intro s _ p _
    exact hknown p
  | _ => trivial

theorem Outcome.of_always {α : Type} {gives : α → Prop} (hknown : ∀ p, known p)
    (hgives : ∀ a, gives a) (outcome : Except Error α) : Outcome known gives outcome := by
  cases outcome with
  | ok a => exact hgives a
  | error e =>
    intro p _
    exact hknown p

theorem Program.abides_of_always {α : Type} (view : View N σ) (hknown : ∀ p, known p)
    (p : Program N σ α) : p.Abides (view.Names known) (view.Tells known) fun _ => True :=
  .of_always (view.names_of_always hknown) (fun _ => trivial) p

theorem Setting.respects_of_always (g : Setting N σ) (view : View N σ) (hknown : ∀ p, known p) :
    g.Respects view known where
  grammar := by
    have hnames := view.names_of_always hknown
    constructor
    · intro id rule params _
      apply Program.Abides.of_always hnames
      apply Outcome.of_always hknown
      intro node p _
      exact hknown p
    · intro id skipper _
      apply Program.Abides.of_always hnames
      apply Outcome.of_always hknown
      intro skipped
      trivial
  make := by
    intro kind p _ q _
    exact hknown q

end

namespace Setting.Respects
variable {N σ : Type} {g : Setting N σ} {view : View N σ} {known : Position → Prop}

theorem token (view : View N σ) (known : Position → Prop) (text : String) :
    (Program.token text).Abides (view.Names known) (view.Tells known)
      (Outcome known (view.Node known)) := by
  refine ⟨trivial, ?_⟩
  intro start hstart
  refine ⟨trivial, ?_⟩
  intro taken _
  cases taken with
  | true =>
    refine ⟨hstart, ?_⟩
    intro node hnode
    exact hnode
  | false =>
    refine ⟨trivial, ?_⟩
    intro place hplace p hp
    cases hp
    exact hplace

theorem parse (view : View N σ) (known : Position → Prop) (file rule : String) :
    (Program.parse file rule).Abides (view.Names known) (view.Tells known)
      (Outcome known (view.Node known)) := by
  refine ⟨trivial, ?_⟩
  intro outcome houtcome
  cases outcome with
  | error e => exact houtcome
  | ok => exact ⟨trivial, fun outcome houtcome => houtcome⟩

theorem parseText (view : View N σ) (known : Position → Prop) (name content rule : String) :
    (Program.parseText name content rule).Abides (view.Names known) (view.Tells known)
      (Outcome known (view.Node known)) := by
  refine ⟨trivial, ?_⟩
  intro _ _
  exact ⟨trivial, fun outcome houtcome => houtcome⟩

theorem body (hg : g.Respects view known) (r : Resolved) (params : Params) :
    (g.body r params).Abides (view.Names known) (view.Tells known)
      (Outcome known (view.Node known)) :=
  Grammar.All.body hg.grammar (token view known) r params

end Setting.Respects

end Packrat
