import Packrat.Tokens

/-! Token tables that grow out of each other. A name that is registered in one of them has the same
text in all that are grown from it. -/

namespace Packrat.Tokens
set_option autoImplicit false

variable {t u v v' w : Tokens} {id literal : String}

/-- All entries of `t` are in `u`. -/
def Within (t u : Tokens) : Prop :=
  ∀ id text, t.literal? id = some text → u.literal? id = some text

/-- No name has one text in `t` and another in `u`. -/
def Agree (t u : Tokens) : Prop :=
  ∀ id text text', t.literal? id = some text → u.literal? id = some text' → text = text'

/-- All entries of `u` are in `t` or in `v`. -/
def InEither (u t v : Tokens) : Prop :=
  ∀ id text, u.literal? id = some text → t.literal? id = some text ∨ v.literal? id = some text

theorem Within.refl (t : Tokens) : t.Within t := fun _ _ h => h

theorem Within.trans (h : t.Within u) (h' : u.Within v) : t.Within v := by
  intro id text ht
  apply h' id text
  exact h id text ht

theorem Agree.symm (h : t.Agree u) : u.Agree t := by
  intro id text text' hu ht
  exact (h id text' text ht hu).symm

theorem Within.agree (h : t.Within u) : u.Agree t := by
  intro id text text' hu ht
  have hu' : u.literal? id = some text' := h id text' ht
  exact Option.some.inj (hu.symm.trans hu')

theorem Agree.of_within (h : t.Agree v) (hu : u.Within v) : t.Agree u := by
  intro id text text' ht hu'
  apply h id text text' ht
  exact hu id text' hu'

theorem Agree.of_either (h : t.Agree v) (hw : w.Within v) (hu : u.InEither t w) : u.Agree v := by
  intro id text text' hu' hv
  rcases hu id text hu' with ht | hw'
  · exact h id text text' ht hv
  · exact hw.agree.symm id text text' hw' hv

theorem InEither.trans (h : u.InEither t v) (h' : w.InEither u v') (hv : v.Within v') :
    w.InEither t v' := by
  intro id text hw
  rcases h' id text hw with hu | hv'
  · rcases h id text hu with ht | hv'
    · exact .inl ht
    · exact .inr (hv id text hv')
  · exact .inr hv'

theorem InEither.symm (h : u.InEither t v) : u.InEither v t := by
  intro id text hu
  exact (h id text hu).symm

theorem InEither.within (h : u.InEither t v) (hv : v.Within t) : u.Within t := by
  intro id text hu
  rcases h id text hu with ht | hv'
  · exact ht
  · exact hv id text hv'

theorem Within.in_either (h : u.Within t) (v : Tokens) : u.InEither t v := by
  intro id text hu
  exact .inl (h id text hu)

theorem within_add (t : Tokens) (id literal : String) : t.Within (t.add id literal) := by
  intro other text ht
  rw [literal?_add]
  split
  · next heq => rw [heq, ht, Option.getD_some]
  · exact ht

theorem literal?_add_of_none (h : t.literal? id = none) :
    (t.add id literal).literal? id = some literal := by
  rw [literal?_add, if_pos rfl, h, Option.getD_none]

theorem size_add_of_none (h : t.literal? id = none) : (t.add id literal).size = t.size + 1 := by
  have hc : t.table.contains id = false :=
    Std.TreeMap.contains_eq_isSome_getElem?.trans (congrArg Option.isSome h)
  have hadd : t.add id literal = ⟨t.table.insert id literal⟩ := by
    unfold add
    rw [h]
  simp [hadd, size, Std.TreeMap.size_insert, hc]

theorem of_literal?_add {other text : String} (ht : t.literal? id = none)
    (h : (t.add id literal).literal? other = some text) :
    t.literal? other = some text ∨ other = id ∧ literal = text := by
  rw [literal?_add] at h
  split at h
  · next heq =>
    rw [ht, Option.getD_none] at h
    exact .inr ⟨heq.symm, Option.some.inj h⟩
  · exact .inl h

theorem Within.add_left (h : t.Within u) (ht : t.literal? id = none)
    (hu : u.literal? id = some literal) : (t.add id literal).Within u := by
  intro other text hother
  rcases of_literal?_add ht hother with hother | ⟨rfl, rfl⟩
  · exact h other text hother
  · exact hu

theorem inEither_add (ht : t.literal? id = none) (hu : u.literal? id = some literal) :
    (t.add id literal).InEither t u := by
  intro other text hother
  rcases of_literal?_add ht hother with hother | ⟨rfl, rfl⟩
  · exact .inl hother
  · exact .inr hu

end Packrat.Tokens
