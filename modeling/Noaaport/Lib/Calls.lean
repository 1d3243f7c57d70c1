import Mathlib.Data.Option.Basic

/-! Calls one after the other on a state: what holds of every call of a sequence.
A call without a result ends the sequence. -/
namespace Noaaport.Lib
variable {σ α : Type*} {call : α → σ → Option σ} {P Q A : σ → α → Prop} {I : σ → Prop} {s : σ}
  {cs : List α}

/-- `P` holds of each call of the sequence and of the state it finds. -/
def Throughout (call : α → σ → Option σ) (P : σ → α → Prop) : σ → List α → Prop
  | _, [] => True
  | s, c :: cs => P s c ∧ ∀ t ∈ call c s, Throughout call P t cs

namespace Throughout

instance instDecidable (call : α → σ → Option σ) (P : σ → α → Prop) [∀ s c, Decidable (P s c)] :
    ∀ (s : σ) (cs : List α), Decidable (Throughout call P s cs)
  | _, [] => inferInstanceAs (Decidable True)
  | s, c :: cs =>
    match hc : call c s with
    | none => decidable_of_iff (P s c) (by simp [Throughout, hc])
    | some t =>
      have : Decidable (Throughout call P t cs) := instDecidable call P t cs
      decidable_of_iff (P s c ∧ Throughout call P t cs) (by simp [Throughout, hc])

theorem of_true (s : σ) (cs : List α) : Throughout call (fun _ _ => True) s cs := by
  induction cs generalizing s with
  | nil => exact True.intro
  | cons c cs ih => exact ⟨True.intro, fun t _ => ih t⟩

theorem of_forall (h : ∀ c ∈ cs, ∀ s, P s c) (s : σ) : Throughout call P s cs := by
  induction cs generalizing s with
  | nil => exact True.intro
  | cons c cs ih =>
    exact ⟨h c List.mem_cons_self s, fun t _ => ih (fun d hd => h d (List.mem_cons_of_mem _ hd)) t⟩

/-- What holds of every call in a state of an invariant holds along every sequence. -/
theorem of_invariant (hP : ∀ s c, I s → A s c → P s c)
    (hI : ∀ s c t, I s → A s c → call c s = some t → I t) (h0 : I s)
    (hA : Throughout call A s cs) : Throughout call P s cs := by
  induction cs generalizing s with
  | nil => exact True.intro
  | cons c cs ih =>
    obtain ⟨hc, hrest⟩ := hA
    exact ⟨hP s c h0 hc, fun t ht => ih (hI s c t h0 hc ht) (hrest t ht)⟩

/-- The last call finds what the calls before it have made of the state. -/
theorem last {c : α} {t : σ} (h : Throughout call P s (cs ++ [c]))
    (ht : cs.foldlM (fun s c => call c s) s = some t) : P t c := by
  induction cs generalizing s with
  | nil =>
    cases ht
    exact h.1
  | cons d cs ih =>
    rw [List.cons_append] at h
    rw [List.foldlM_cons] at ht
    obtain ⟨u, hu, ht⟩ := Option.bind_eq_some_iff.1 ht
    exact ih (h.2 u hu) ht

/-- Two laws that agree in every state of an invariant agree along a sequence, if the
invariant is kept by the calls that obey them. `A` is what the callers see to. -/
theorem iff_of_invariant (hPQ : ∀ s c, I s → A s c → (P s c ↔ Q s c))
    (hI : ∀ s c t, I s → A s c → P s c → call c s = some t → I t) (h0 : I s)
    (hA : Throughout call A s cs) : Throughout call P s cs ↔ Throughout call Q s cs := by
  induction cs generalizing s with
  | nil => exact Iff.rfl
  | cons c cs ih =>
    obtain ⟨hc, hrest⟩ := hA
    have hnext : P s c → ∀ t ∈ call c s, (Throughout call P t cs ↔ Throughout call Q t cs) :=
      fun hp t ht => ih (hI s c t h0 hc hp ht) (hrest t ht)
    constructor
    · rintro ⟨hp, hps⟩
      exact ⟨(hPQ s c h0 hc).1 hp, fun t ht => (hnext hp t ht).1 (hps t ht)⟩
    · rintro ⟨hq, hqs⟩
      have hp := (hPQ s c h0 hc).2 hq
      exact ⟨hp, fun t ht => (hnext hp t ht).2 (hqs t ht)⟩

end Throughout
end Noaaport.Lib
