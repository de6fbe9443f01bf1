import Packrat.Proofs.Lasting

/-! Tokens are registered once. However many parsers of a grammar ask for them, at whatever depth of
rules, the first registration of a name is the one that stays, and the log of registrations tells
what the table holds. -/

namespace Packrat
set_option autoImplicit false

namespace Shared
variable {σ : Type} {s : Shared σ}

/-- The names that were registered, with their texts, the first one first. -/
def registrations (s : Shared σ) : List (String × String) :=
  s.events.reverse.filterMap Event.registration?

/-- The table holds what was registered, and no name was registered twice. -/
structure Booked (s : Shared σ) : Prop where
  tokens : ∀ id literal, s.tokens.literal? id = some literal ↔ (id, literal) ∈ s.registrations
  nodup : (s.registrations.map Prod.fst).Nodup
  size : s.tokens.size = s.registrations.length

/-- All that is registered in `s` is so later. -/
structure Endures (s t : Shared σ) : Prop where
  tokens : s.tokens.Within t.tokens
  registrations : s.registrations <+: t.registrations

theorem registrations_cons (events : List Event) (e : Event) (tokens : Tokens) (nextSerial : Nat)
    (outside : σ) :
    (⟨tokens, nextSerial, e :: events, outside⟩ : Shared σ).registrations =
      (⟨tokens, nextSerial, events, outside⟩ : Shared σ).registrations ++
        e.registration?.toList := by
  simp only [registrations, List.reverse_cons, List.filterMap_append]
  cases h : e.registration? <;> simp [h]

theorem registrations_emit {e : Event} (he : e.registration? = none) :
    ({ s with events := e :: s.events } : Shared σ).registrations = s.registrations := by
  rw [registrations_cons, he, Option.toList_none, List.append_nil]

theorem registrations_register (id literal : String) :
    ({ s with events := .registered id literal :: s.events
              tokens := s.tokens.add id literal } : Shared σ).registrations =
      s.registrations ++ [(id, literal)] :=
  registrations_cons _ _ _ _ _

theorem Endures.refl (s : Shared σ) : s.Endures s := ⟨.refl _, List.prefix_refl _⟩

theorem booked_new (nextSerial : Nat) (outside : σ) :
    (⟨.empty, nextSerial, [], outside⟩ : Shared σ).Booked where
  tokens := by simp [registrations]
  nodup := List.nodup_nil
  size := Std.TreeMap.size_emptyc

theorem Booked.register (h : s.Booked) {id : String} (literal : String)
    (hid : s.tokens.literal? id = none) :
    ({ s with events := .registered id literal :: s.events
              tokens := s.tokens.add id literal } : Shared σ).Booked where
  tokens := by
    intro other text
    rw [registrations_register, List.mem_append, List.mem_singleton, ← h.tokens, Prod.mk.injEq]
    constructor
    · intro hother
      exact (Tokens.of_literal?_add hid hother).imp_right fun ⟨hname, htext⟩ => ⟨hname, htext.symm⟩
    · rintro (hother | ⟨rfl, rfl⟩)
      · exact Tokens.within_add _ _ _ _ _ hother
      · exact Tokens.literal?_add_of_none hid
  nodup := by
    rw [registrations_register, List.map_append, List.nodup_append]
    refine ⟨h.nodup, by simp, ?_⟩
    intro name hname other hother heq
    obtain rfl := List.mem_singleton.1 hother
    subst heq
    obtain ⟨⟨_, text⟩, hmem, rfl⟩ := List.mem_map.1 hname
    cases hid.symm.trans ((h.tokens _ text).2 hmem)
  size := by
    rw [registrations_register, Tokens.size_add_of_none hid, h.size, List.length_append]
    rfl

end Shared

namespace Lasts
variable {σ : Type}

theorem booked : Lasts (Shared.Booked (σ := σ)) where
  emit := by
    intro s e hs he
    have hregistrations := Shared.registrations_emit (s := s) he
    constructor
    · rw [hregistrations]
      exact hs.tokens
    · rw [hregistrations]
      exact hs.nodup
    · rw [hregistrations]
      exact hs.size
  load hs := ⟨hs.tokens, hs.nodup, hs.size⟩
  register literal hs hid := hs.register literal hid
  consult _ hs := ⟨hs.tokens, hs.nodup, hs.size⟩

theorem endures (start : Shared σ) : Lasts start.Endures where
  emit := by
    intro s e hs he
    refine ⟨hs.tokens, ?_⟩
    rw [Shared.registrations_emit he]
    exact hs.registrations
  load hs := ⟨hs.tokens, hs.registrations⟩
  register := by
    intro s id literal hs _
    refine ⟨hs.tokens.trans (Tokens.within_add _ _ _), ?_⟩
    rw [Shared.registrations_register]
    exact hs.registrations.trans (List.prefix_append _ _)
  consult _ hs := ⟨hs.tokens, hs.registrations⟩

theorem knows (id literal : String) :
    Lasts fun s : Shared σ => s.tokens.literal? id = some literal where
  emit hs _ := hs
  load hs := hs
  register _ hs _ := Tokens.within_add _ _ _ _ _ hs
  consult _ hs := hs

end Lasts

namespace Engine
open Packrat.Action Machine Program
variable {N σ : Type} {g : Setting N σ}

/-- A name is given the text that it has, or the one that it is asked for with. -/
theorem addToken_eq (id literal : String) (m : Machine σ) :
    ∃ n, addToken id literal m = .ok (.token ((m.shared.tokens.literal? id).getD literal)) n ∧
      n.parser = m.parser ∧ n.shared.tokens = m.shared.tokens.add id literal := by
  have h : Ends (addToken id literal) m (fun r n =>
      r = .token ((m.shared.tokens.literal? id).getD literal) ∧ n.parser = m.parser ∧
        n.shared.tokens = m.shared.tokens.add id literal) fun _ _ => False := by
    apply ends_addToken.2
    cases hknown : m.shared.tokens.literal? id with
    | some known =>
      refine ⟨rfl, rfl, ?_⟩
      unfold Tokens.add
      rw [hknown]
    | none => exact ⟨rfl, rfl, rfl⟩
  cases hx : addToken id literal m with
  | ok r n =>
    obtain ⟨rfl, hn⟩ := h.ok hx
    exact ⟨n, rfl, hn⟩
  | error why n => exact (h.error hx).elim

theorem resolve_of_rule {id : String} {rule : Rule N σ} (h : g.grammar.rules[id]? = some rule)
    (m : Machine σ) : resolve g id m = .ok (.rule id) m := by
  have hc : g.grammar.rules.contains id := by
    rw [Std.TreeMap.contains_eq_isSome_getElem?, h]
    rfl
  unfold resolve
  rw [if_pos hc]
  rfl

theorem resolve_of_none {id : String} (h : g.grammar.rules[id]? = none) (m : Machine σ) :
    resolve g id m = addToken id id m := by
  have hc : ¬g.grammar.rules.contains id := by
    rw [Std.TreeMap.contains_eq_isSome_getElem?, h]
    exact Bool.false_ne_true
  unfold resolve
  rw [if_neg hc]

/-- The token that a name stands for where the grammar has no rule of that name. -/
def token? (g : Setting N σ) (id : String) : Option (String × String) :=
  if g.grammar.rules.contains id then none else some (id, id)

/-- The token that the call asks for before all else, with the text to be registered if it is new. -/
def asked? (g : Setting N σ) (m : Machine σ) : Call σ → Option (String × String)
  | .addToken id literal => some (id, literal)
  | .resolve id | .start id | .matchWith ⟨id, none⟩ _ => token? g id
  | .test id => if (g.recall? m id).isSome then none else token? g id
  | _ => none

/-- The text that the name has for good, if it is asked for with that literal at `m`. -/
def Knows (m : Machine σ) (id literal : String) (s : Shared σ) : Prop :=
  s.tokens.literal? id = some ((m.shared.tokens.literal? id).getD literal)

theorem ends_addToken_knows (id literal : String) (m : Machine σ) :
    EndsSharing (addToken id literal) m (Knows m id literal) := by
  obtain ⟨n, hn, -, htokens⟩ := addToken_eq id literal m
  apply (ends_of_eq_ok hn).2
  unfold Knows
  rw [htokens, Tokens.literal?_add, if_pos rfl]

theorem ends_resolve_knows {name id literal : String} (hid : token? g name = some (id, literal))
    (m : Machine σ) : EndsSharing (resolve g name) m (Knows m id literal) := by
  unfold token? at hid
  split at hid
  · cases hid
  · next hrule =>
    cases hid
    apply ends_resolve.2
    rw [if_neg hrule]
    exact ends_addToken_knows _ _ m

theorem ends_resolveAndInvoke_knows {name id literal : String}
    (hid : token? g name = some (id, literal)) (depth : Nat) (params : Params) (m : Machine σ) :
    EndsSharing (resolveAndInvoke g (run g depth) name params) m (Knows m id literal) := by
  apply ends_resolveAndInvoke.2
  apply (ends_resolve_knows hid m).imp_ok
  intro r n hn
  exact (Lasts.knows id _).ends_run depth (g.body r params) hn

theorem ends_asked {c : Call σ} {id literal : String} {m : Machine σ}
    (hc : asked? g m c = some (id, literal)) (depth : Nat) :
    EndsSharing (reply g (run g depth) c) m (Knows m id literal) := by
  unfold asked? at hc
  split at hc
  · cases hc
    exact ends_addToken_knows _ _ m
  · exact ends_resolve_knows hc m
  · apply ends_start.2
    apply ends_matchWith.2
    apply (ends_resolveAndInvoke_knows hc depth [] _).imp_ok
    intro outcome n hn
    cases outcome <;> exact hn
  · next name params =>
    show Ends (matchWith g (run g depth) ⟨name, none⟩ params) m _ _
    apply ends_matchWith.2
    exact ends_resolveAndInvoke_knows hc depth params m.matching
  · split at hc
    · cases hc
    · next name hrecall =>
      apply (ends_test_of_miss (Option.not_isSome_iff_eq_none.1 hrecall)).2
      apply (ends_resolveAndInvoke_knows hc depth [] m.testing).imp_ok
      intro outcome n hn
      rw [Knows, tokens_tested]
      exact hn
  · cases hc

/-- Whatever is done with any number of parsers of a grammar: names that are registered stay so, with
the text of the first registration, from any machine on to any other that a run comes to and to the
end of all work; the table has what the log of registrations has, each name once; and a name is
resolved to the rule of the grammar, or else to the token of that name, which is registered with the
name as its text if there is none. -/
theorem first_registration_stays (g : Setting N σ) (work more : Work N σ) (directory : String)
    (outside : σ) (depth : Nat) :
    (work.run g depth (.new directory outside)).shared.Booked ∧
    (work.run g depth (.new directory outside)).shared.Endures
      (more.run g depth (work.run g depth (.new directory outside))).shared ∧
    (∀ s, work.Meets g depth (.new directory outside) s →
      s.machine.shared.Booked ∧
      s.machine.shared.Endures (work.run g depth (.new directory outside)).shared ∧
      (∀ r n, gauge s.machine = .ok r n → r.tokens = s.machine.shared.registrations.length) ∧
      ∀ id literal, asked? g s.machine s.call = some (id, literal) →
        Knows s.machine id literal (work.run g depth (.new directory outside)).shared) ∧
    (∀ (α : Type) (p : Program N σ α) m,
      (∀ a n, run g depth _ p m = .ok a n → m.shared.Endures n.shared) ∧
        ∀ s, Reaches g depth p m s → m.shared.Endures s.machine.shared) ∧
    (∀ id literal (m : Machine σ), ∃ n,
      addToken id literal m = .ok (.token ((m.shared.tokens.literal? id).getD literal)) n ∧
        n.parser = m.parser ∧ n.shared.tokens = m.shared.tokens.add id literal) ∧
    (∀ id m, g.grammar.rules[id]? = none → resolve g id m = addToken id id m) ∧
    (∀ id rule m, g.grammar.rules[id]? = some rule →
      resolve g id m = .ok (.rule id) m ∧ ∀ params, g.body (.rule id) params = rule params) ∧
    (∀ literal params, g.body (.token literal) params = token literal) ∧
    ∀ run m, reply g run .ruleNames m = .ok g.grammar.rules.keys m ∧
      reply g run .skipperNames m = .ok g.grammar.skippers.keys m := by
  have hnew : (Workspace.new directory outside).shared.Booked := Shared.booked_new 1 outside
  refine ⟨Lasts.booked.work_run work depth hnew, (Lasts.endures _).work_run more depth (.refl _),
    ?_, ?_, addToken_eq, fun id m h => resolve_of_none h m, ?_, fun _ _ => rfl,
    fun _ _ => ⟨rfl, rfl⟩⟩
  · intro s hs
    have hbooked : s.machine.shared.Booked := Lasts.booked.of_work_meets hs hnew
    have hendures := (Lasts.endures s.machine.shared).ends_reply (g := g) s.levels s.call (.refl _)
    refine ⟨hbooked, (Lasts.endures _).work_of_meets hs hendures, ?_, ?_⟩
    · rintro _ _ ⟨⟩
      exact hbooked.size
    · intro id literal hc
      exact (Lasts.knows id _).work_of_meets hs (ends_asked hc s.levels)
  · intro α p m
    constructor
    · intro a n hx
      exact ((Lasts.endures m.shared).ends_run depth p (.refl _)).ok hx
    · intro s hs
      exact (Lasts.endures m.shared).of_reaches hs (.refl _)
  · intro id rule m h
    refine ⟨resolve_of_rule h m, ?_⟩
    intro params
    simp only [Setting.body, h]

/-- A rule whose name is taken for a token, too. -/
def namesakeSetting : Setting Unit Unit where
  grammar := Grammar.empty.rule "word" fun _ => token "ab"
  make _ _ := ()
  disk := .empty
  memoizes := true

def namesakeWork : Work Unit Unit :=
  .act (ask (.addToken "word" "cd")) fun _ => .newParser "" (.act (ask (.addToken "word" "ef"))
    fun _ => .act (parseText "text" "ab" "ab") fun _ => .rest)

theorem first_registration_stays_namesake :
    (namesakeWork.run namesakeSetting 4 (.new "" ())).shared.registrations =
        [("word", "cd"), ("ab", "ab")] ∧
      (namesakeWork.run namesakeSetting 4 (.new "" ())).shared.Booked := by
  constructor
  · decide +kernel
  · exact (first_registration_stays namesakeSetting namesakeWork .rest "" () 4).1

end Engine

end Packrat
