import Mathlib.Data.List.Basic

/-! Labelled transition systems: executions with their event lists, the
invariant rule, forward simulation, and the queue every FIFO here refines. -/
namespace Noaaport.Lib
variable {σ τ ε : Type*}

inductive Trace (step : σ → ε → σ → Prop) : σ → List ε → σ → Prop where
  | nil (s : σ) : Trace step s [] s
  | cons {s t u : σ} {e : ε} {es : List ε} :
      step s e t → Trace step t es u → Trace step s (e :: es) u

/-- Only the steps from states that meet `C`. -/
def Guarded (C : σ → Prop) (step : σ → ε → σ → Prop) (s : σ) (e : ε) (t : σ) : Prop :=
  C s ∧ step s e t

/-- A system with a value on the side, which its steps update and do not read. -/
def WithGhost {γ : Type*} (step : σ → ε → σ → Prop) (update : γ → σ → γ) (a : σ × γ) (e : ε)
    (b : σ × γ) : Prop :=
  step a.1 e b.1 ∧ b.2 = update a.2 a.1

namespace Trace
variable {step : σ → ε → σ → Prop} {s t u : σ} {es fs : List ε}

theorem append (h : Trace step s es t) (h' : Trace step t fs u) : Trace step s (es ++ fs) u := by
  induction h with
  | nil => exact h'
  | cons hs _ ih => exact .cons hs (ih h')

/-- What holds at the start and is kept by every step holds at the end. -/
theorem invariant {P : σ → Prop} (hstep : ∀ s e t, P s → step s e t → P t)
    (h : Trace step s es t) (h0 : P s) : P t := by
  induction h with
  | nil => exact h0
  | cons hs _ ih => exact ih (hstep _ _ _ h0 hs)

/-- The same, where the steps keep it from states that meet a condition and all states reached
from the start do. -/
theorem invariant_of_reachable {P C : σ → Prop} (hstep : ∀ s e t, P s → C s → step s e t → P t)
    (hC : ∀ es t, Trace step s es t → C t) (h : Trace step s es t) (h0 : P s) : P t := by
  induction h with
  | nil => exact h0
  | @cons s t u e es hs _ ih =>
    exact ih (fun es' u' h' => hC _ u' (.cons hs h')) (hstep _ _ _ h0 (hC [] _ (.nil _)) hs)

/-- Every execution can be followed with the value on the side. -/
theorem withGhost {γ : Type*} (h : Trace step s es t) (update : γ → σ → γ) (n : γ) :
    ∃ m, Trace (WithGhost step update) (s, n) es (t, m) := by
  induction h generalizing n with
  | nil s => exact ⟨n, .nil _⟩
  | @cons s t u e es hs _ ih =>
    obtain ⟨m, hm⟩ := ih (update n s)
    exact ⟨m, .cons ⟨hs, rfl⟩ hm⟩

/-- Executions of a system are executions of one that can do more. -/
theorem mono {step' : σ → ε → σ → Prop} (hsub : ∀ s e t, step s e t → step' s e t) (h : Trace step s es t) :
    Trace step' s es t := by
  induction h with
  | nil s => exact .nil s
  | cons hs _ ih => exact .cons (hsub _ _ _ hs) ih

theorem guard_mono {C D : σ → Prop} (hCD : ∀ s, C s → D s)
    (h : Trace (Guarded C step) s es t) : Trace (Guarded D step) s es t :=
  h.mono fun s _ _ hs => ⟨hCD s hs.1, hs.2⟩

theorem unguarded {C : σ → Prop} (h : Trace (Guarded C step) s es t) : Trace step s es t :=
  h.mono fun _ _ _ hs => hs.2

/-- Where each state has one successor, executions of one length are the same. -/
theorem unique {t' : σ} {es' : List ε}
    (hdet : ∀ s e t e' t', step s e t → step s e' t' → e = e' ∧ t = t') (h : Trace step s es t)
    (h' : Trace step s es' t') (hlen : es.length = es'.length) : es = es' ∧ t = t' := by
  induction h generalizing es' with
  | nil =>
    cases h' with
    | nil => exact ⟨rfl, rfl⟩
    | cons => cases hlen
  | cons hs _ ih =>
    cases h' with
    | nil => cases hlen
    | cons hs' h' =>
      obtain ⟨rfl, rfl⟩ := hdet _ _ _ _ _ hs hs'
      obtain ⟨rfl, rfl⟩ := ih h' (Nat.succ.inj hlen)
      exact ⟨rfl, rfl⟩

/-- There, of two executions from one state one goes on where the other ends. -/
theorem extends_or {t' : σ} {es' : List ε}
    (hdet : ∀ s e t e' t', step s e t → step s e' t' → e = e' ∧ t = t') (h : Trace step s es t)
    (h' : Trace step s es' t') :
    (∃ fs, es' = es ++ fs ∧ Trace step t fs t') ∨ ∃ fs, es = es' ++ fs ∧ Trace step t' fs t := by
  induction h generalizing es' with
  | nil s => exact .inl ⟨es', rfl, h'⟩
  | cons hs hrest ih =>
    cases h' with
    | nil => exact .inr ⟨_, rfl, .cons hs hrest⟩
    | cons hs' h' =>
      obtain ⟨rfl, rfl⟩ := hdet _ _ _ _ _ hs hs'
      obtain ⟨fs, rfl, hfs⟩ | ⟨fs, rfl, hfs⟩ := ih h'
      · exact .inl ⟨fs, rfl, hfs⟩
      · exact .inr ⟨fs, rfl, hfs⟩

/-- If related states stay related, with the same event on both sides, every
execution is an abstract execution with the same events. -/
theorem simulate (astep : τ → ε → τ → Prop) (R : σ → τ → Prop) {a : τ}
    (hstep : ∀ s e t a, R s a → step s e t → ∃ b, astep a e b ∧ R t b)
    (h : Trace step s es t) (h0 : R s a) : ∃ b, Trace astep a es b ∧ R t b := by
  induction h generalizing a with
  | nil => exact ⟨a, .nil _, h0⟩
  | cons hs _ ih =>
    obtain ⟨b, hb, hr⟩ := hstep _ _ _ _ h0 hs
    obtain ⟨c, hc, hr'⟩ := ih hr
    exact ⟨c, .cons hb hc, hr'⟩

/-- A balance kept by every step is kept by the whole execution: `before` is
the abstract content, `ins` and `outs` what each event adds and takes. -/
theorem balance {β : Type*} (content : σ → List β) {ins outs : ε → List β}
    (hstep : ∀ s e t, step s e t → content s ++ ins e = outs e ++ content t)
    (h : Trace step s es t) :
    content s ++ es.flatMap ins = es.flatMap outs ++ content t := by
  induction h with
  | nil => simp
  | cons hs _ ih =>
    rw [List.flatMap_cons, List.flatMap_cons, ← List.append_assoc, hstep _ _ _ hs,
      List.append_assoc, ih, List.append_assoc]

/-- From an empty queue on, what has come out is a prefix of what has gone in. -/
theorem outs_prefix {β : Type*} {content : σ → List β} {ins outs : ε → List β}
    (hstep : ∀ s e t, step s e t → content s ++ ins e = outs e ++ content t)
    (h : Trace step s es t) (h0 : content s = []) : es.flatMap outs <+: es.flatMap ins := by
  have hb := balance _ hstep h
  rw [h0, List.nil_append] at hb
  exact ⟨content t, hb.symm⟩

end Trace
end Noaaport.Lib
