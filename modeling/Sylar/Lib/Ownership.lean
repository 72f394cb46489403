import Mathlib.Logic.Function.Basic
import Mathlib.Tactic.Common

/-!
# Resources and their owners

`holds o` is the resource that the owner `o` has, if any, and `live` are
the resources that exist. The books are `Exact` when every resource that
exists has one owner and none has one that does not: nothing is leaked,
and nothing is given back twice. A `Transfer` is what one owner may do.
-/

namespace Sylar

variable {O R : Type}

structure Exact (holds : O → Option R) (live : R → Prop) : Prop where
  alive : ∀ {o r}, holds o = some r → live r
  single : ∀ {o o' r}, holds o = some r → holds o' = some r → o = o'
  owned : ∀ {r}, live r → ∃ o, holds o = some r

/-- What one owner does: from `x` to `y`, while the resources go from `live`
to `live'`. -/
inductive Transfer : (R → Prop) → Option R → Option R → (R → Prop) → Prop
  | stay {x : Option R} {live live' : R → Prop} (h : ∀ r, live' r ↔ live r) :
      Transfer live x x live'
  | take {r : R} {live live' : R → Prop} (hfresh : ¬live r)
      (h : ∀ r', live' r' ↔ r' = r ∨ live r') : Transfer live none (some r) live'
  | release {r : R} {live live' : R → Prop} (h : ∀ r', live' r' ↔ r' ≠ r ∧ live r') :
      Transfer live (some r) none live'
  | trans {x y z : Option R} {live live' live'' : R → Prop} :
      Transfer live x y live' → Transfer live' y z live'' → Transfer live x z live''

/-- What it has in the end exists. -/
theorem Transfer.alive {x y : Option R} {live live' : R → Prop} (h : Transfer live x y live')
    (hx : ∀ r, x = some r → live r) : ∀ r, y = some r → live' r := by
  induction h with
  | stay h => exact fun r hr => (h r).mpr (hx r hr)
  | take _ h => exact fun r hr => (h r).mpr (.inl (Option.some.inj hr).symm)
  | release => exact fun r hr => nomatch hr
  | trans _ _ ih ih' => exact ih' (ih hx)

namespace Exact

variable {holds holds' : O → Option R} {live live' : R → Prop}

theorem existsUnique (h : Exact holds live) {r : R} (hr : live r) : ∃! o, holds o = some r := by
  obtain ⟨o, ho⟩ := h.owned hr
  exact ⟨o, ho, fun o' ho' => h.single ho' ho⟩

/-- One owner takes a resource that is new. -/
theorem take (h : Exact holds live) {o : O} {r : R} (hold : holds o = none) (hfresh : ¬live r)
    (hlive : ∀ r', live' r' ↔ r' = r ∨ live r') (hself : holds' o = some r)
    (hother : ∀ o', o' ≠ o → holds' o' = holds o') : Exact holds' live' := by
  have hcases {o' : O} {r' : R} (hr : holds' o' = some r') :
      o' = o ∧ r' = r ∨ o' ≠ o ∧ r' ≠ r ∧ holds o' = some r' := by
    by_cases ho : o' = o
    · subst ho
      exact .inl ⟨rfl, Option.some.inj (hr.symm.trans hself)⟩
    · rw [hother o' ho] at hr
      refine .inr ⟨ho, ?_, hr⟩
      rintro rfl
      exact hfresh (h.alive hr)
  refine ⟨fun {o' r'} hr => ?_, fun {o₁ o₂ r'} h₁ h₂ => ?_, fun {r'} hr => ?_⟩
  · rw [hlive]
    exact (hcases hr).imp (·.2) fun hr => h.alive hr.2.2
  · obtain ⟨rfl, rfl⟩ | ⟨-, hne, h₁⟩ := hcases h₁
    · exact ((hcases h₂).resolve_right fun h₂ => h₂.2.1 rfl).1.symm
    · exact h.single h₁ ((hcases h₂).resolve_left fun h₂ => hne h₂.2).2.2
  · obtain rfl | hr := (hlive r').mp hr
    · exact ⟨o, hself⟩
    · obtain ⟨o', ho'⟩ := h.owned hr
      refine ⟨o', (hother o' ?_).trans ho'⟩
      rintro rfl
      cases hold.symm.trans ho'

/-- One owner gives back what it has. -/
theorem release (h : Exact holds live) {o : O} {r : R} (hold : holds o = some r)
    (hlive : ∀ r', live' r' ↔ r' ≠ r ∧ live r') (hself : holds' o = none)
    (hother : ∀ o', o' ≠ o → holds' o' = holds o') : Exact holds' live' := by
  have hcases {o' : O} {r' : R} (hr : holds' o' = some r') : r' ≠ r ∧ holds o' = some r' := by
    have ho : o' ≠ o := by
      rintro rfl
      cases hself.symm.trans hr
    rw [hother o' ho] at hr
    refine ⟨?_, hr⟩
    rintro rfl
    exact ho (h.single hr hold)
  refine ⟨fun hr => ?_, fun h₁ h₂ => h.single (hcases h₁).2 (hcases h₂).2, fun {r'} hr => ?_⟩
  · exact (hlive _).mpr ⟨(hcases hr).1, h.alive (hcases hr).2⟩
  · obtain ⟨hne, hr⟩ := (hlive r').mp hr
    obtain ⟨o', ho'⟩ := h.owned hr
    refine ⟨o', (hother o' ?_).trans ho'⟩
    rintro rfl
    exact hne (Option.some.inj (ho'.symm.trans hold))

/-- The books stay exact whatever one owner does. -/
theorem transfer {x y : Option R} (ht : Transfer live x y live') :
    ∀ {holds holds' : O → Option R} {o : O}, Exact holds live → holds o = x → holds' o = y →
      (∀ o', o' ≠ o → holds' o' = holds o') → Exact holds' live' := by
  induction ht with
  | stay hlive =>
      intro holds holds' o h hx hself hother
      have hsame : holds' = holds := by
        funext o'
        by_cases ho : o' = o
        · rw [ho, hself, hx]
        · exact hother o' ho
      rw [hsame]
      exact ⟨fun hr => (hlive _).mpr (h.alive hr), h.single, fun hr => h.owned ((hlive _).mp hr)⟩
  | take hfresh hlive =>
      intro holds holds' o h hx hself hother
      exact h.take hx hfresh hlive hself hother
  | release hlive =>
      intro holds holds' o h hx hself hother
      exact h.release hx hlive hself hother
  | @trans x y z _ _ _ _ _ ih ih' =>
      intro holds holds' o h hx hself hother
      classical
      refine ih' (ih h hx (Function.update_self o y holds) fun o' ho => ?_)
        (Function.update_self o y holds) hself fun o' ho => ?_
      · exact Function.update_of_ne ho ..
      · rw [hother o' ho, Function.update_of_ne ho]

end Exact

end Sylar
