import Mathlib.Logic.Function.Basic
import Noaaport.Lib.Trace

/-! A lock seen from the places in the code of the threads that use it. -/
namespace Noaaport.Lib
variable {ι κ σ ε : Type*} {inside : κ → Prop} {pc : ι → κ} {o : Option ι} {p : ι} {k : κ}

/-- The threads inside are the owner, if the lock has one. -/
def Owned (inside : κ → Prop) (pc : ι → κ) (o : Option ι) : Prop :=
  ∀ t, inside (pc t) ↔ o = some t

namespace Owned

theorem unique (h : Owned inside pc o) {t u : ι} (ht : inside (pc t)) (hu : inside (pc u)) :
    t = u := by
  have heq := ((h t).1 ht).symm.trans ((h u).1 hu)
  exact Option.some.inj heq

theorem not_inside (h : Owned inside pc none) (t : ι) : ¬ inside (pc t) := by
  intro ht
  cases (h t).1 ht

variable [DecidableEq ι]

/-- A step that stays on its side of the lock, -/
theorem stay (h : Owned inside pc o) (hk : inside k ↔ inside (pc p)) :
    Owned inside (Function.update pc p k) o := by
  intro t
  by_cases ht : t = p
  · subst t
    rw [Function.update_self, hk]
    exact h p
  · rw [Function.update_of_ne ht]
    exact h t

/-- one that takes the free lock, -/
theorem enter (h : Owned inside pc none) (hk : inside k) :
    Owned inside (Function.update pc p k) (some p) := by
  intro t
  by_cases ht : t = p
  · subst t
    rw [Function.update_self]
    exact ⟨fun _ => rfl, fun _ => hk⟩
  · rw [Function.update_of_ne ht]
    refine ⟨fun hin => absurd hin (h.not_inside t), fun heq => ?_⟩
    exact absurd (Option.some.inj heq).symm ht

/-- and one that gives it back. -/
theorem leave (h : Owned inside pc (some p)) (hk : ¬ inside k) :
    Owned inside (Function.update pc p k) none := by
  intro t
  by_cases ht : t = p
  · subst t
    rw [Function.update_self]
    exact ⟨fun hin => absurd hin hk, nofun⟩
  · rw [Function.update_of_ne ht]
    refine ⟨fun hin => ?_, nofun⟩
    exact absurd (Option.some.inj ((h t).1 hin)).symm ht

end Owned

/-- What the allowed steps from states of the invariant show, every event of a run
of allowed steps shows. -/
theorem Trace.events {step : σ → ε → σ → Prop} {P : σ → Prop} {A Q : ε → Prop}
    (hstep : ∀ s e t, P s → A e → step s e t → P t ∧ Q e) {s t : σ} {es : List ε}
    (h : Trace step s es t) (hA : ∀ e ∈ es, A e) (h0 : P s) : P t ∧ ∀ e ∈ es, Q e := by
  induction h with
  | nil => exact ⟨h0, nofun⟩
  | cons hs _ ih =>
    obtain ⟨hp, hq⟩ := hstep _ _ _ h0 (hA _ (List.mem_cons_self ..)) hs
    obtain ⟨hend, hall⟩ := ih (fun e he => hA e (List.mem_cons_of_mem _ he)) hp
    exact ⟨hend, List.forall_mem_cons.2 ⟨hq, hall⟩⟩

end Noaaport.Lib
