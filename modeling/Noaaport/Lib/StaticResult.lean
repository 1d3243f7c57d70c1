import Mathlib.Data.List.Basic
import Mathlib.Data.List.Perm.Basic
import Mathlib.Logic.Function.Basic

/-! Functions that return a constant, or the address of a buffer that they overwrite: what is
read of their results when several of them have been called, in any order. -/
namespace Noaaport.Lib
variable {β τ ι : Type*} [DecidableEq β]

inductive StaticResult (β τ : Type*) where
  | constant (t : τ)
  | buffered (b : β) (t : τ)

namespace StaticResult

/-- What the function meant to return. -/
def own : StaticResult β τ → τ
  | .constant t => t
  | .buffered _ t => t

/-- The buffers after the call, -/
def store (m : β → τ) : StaticResult β τ → β → τ
  | .constant _ => m
  | .buffered b t => Function.update m b t

/-- after calls in this order, -/
def evaluate (call : ι → StaticResult β τ) (order : List ι) (m : β → τ) : β → τ :=
  order.foldl (fun m i => (call i).store m) m

/-- and what is read of a result then. -/
def read (m : β → τ) : StaticResult β τ → τ
  | .constant t => t
  | .buffered b _ => m b

/-- Two results in one buffer are the same. -/
def Alike (call : ι → StaticResult β τ) (args : List ι) : Prop :=
  ∀ i ∈ args, ∀ j ∈ args, ∀ b t t', call i = .buffered b t → call j = .buffered b t' → t = t'

variable {call : ι → StaticResult β τ} {order args : List ι} {m : β → τ} {i : ι} {b : β} {t : τ}

/-- A buffer holds what it held, or the result of one of the calls. -/
theorem evaluate_mem (call : ι → StaticResult β τ) (order : List ι) (m : β → τ) (b : β) :
    evaluate call order m b = m b ∧ (∀ i ∈ order, ∀ t, call i ≠ .buffered b t) ∨
      ∃ i ∈ order, call i = .buffered b (evaluate call order m b) := by
  induction order generalizing m with
  | nil => exact .inl ⟨rfl, fun i hi => by cases hi⟩
  | cons k order ih =>
    rcases ih ((call k).store m) with ⟨hm, hnone⟩ | ⟨i, hi, hc⟩
    · cases hk : call k with
      | constant t =>
        refine .inl ⟨hm.trans (by rw [hk]; rfl), fun i hi t' hi' => ?_⟩
        rcases List.mem_cons.1 hi with rfl | hi
        · rw [hk] at hi'
          cases hi'
        · exact hnone i hi t' hi'
      | buffered b' t =>
        rw [hk] at hm
        by_cases hb : b = b'
        · subst hb
          refine .inr ⟨k, List.mem_cons_self, ?_⟩
          have ht : evaluate call (k :: order) m b = t := by
            change evaluate call order ((call k).store m) b = t
            rw [hk, hm, store, Function.update_self]
          rw [ht, hk]
        · refine .inl ⟨?_, fun i hi t' hi' => ?_⟩
          · change evaluate call order ((call k).store m) b = m b
            rw [hk, hm, store, Function.update_of_ne hb]
          · rcases List.mem_cons.1 hi with rfl | hi
            · rw [hk] at hi'
              cases hi'
              exact hb rfl
            · exact hnone i hi t' hi'
    · exact .inr ⟨i, List.mem_cons_of_mem _ hi, hc⟩

/-- What is read is the result of one of the calls, perhaps of another one. -/
theorem read_evaluate (call : ι → StaticResult β τ) (m : β → τ) (hi : i ∈ order) :
    ∃ j ∈ order, (call i).read (evaluate call order m) = (call j).own := by
  cases hc : call i with
  | constant t => exact ⟨i, hi, by rw [hc]; rfl⟩
  | buffered b t =>
    rcases evaluate_mem call order m b with ⟨-, hnone⟩ | ⟨j, hj, hcj⟩
    · exact absurd hc (hnone i hi t)
    · exact ⟨j, hj, by rw [hcj]; rfl⟩

/-- The last call's result is its own. -/
theorem read_last (call : ι → StaticResult β τ) (order : List ι) (m : β → τ)
    (hc : call i = .buffered b t) : evaluate call (order ++ [i]) m b = t := by
  rw [evaluate, List.foldl_append, List.foldl_cons, List.foldl_nil, hc, store, Function.update_self]

theorem Alike.read_own (h : Alike call order) (m : β → τ) (hi : i ∈ order) :
    (call i).read (evaluate call order m) = (call i).own := by
  cases hc : call i with
  | constant t => rfl
  | buffered b t =>
    rcases evaluate_mem call order m b with ⟨-, hnone⟩ | ⟨j, hj, hcj⟩
    · exact absurd hc (hnone i hi t)
    · exact (h i hi j hj b _ _ hc hcj).symm

omit [DecidableEq β] in
theorem Alike.perm (h : Alike call args) (hp : order.Perm args) : Alike call order :=
  fun i hi j hj => h i (hp.mem_iff.1 hi) j (hp.mem_iff.1 hj)

/-- Every result is read as it was meant, in every order of the calls, iff those in one buffer
are the same. -/
theorem read_own_iff (call : ι → StaticResult β τ) (args : List ι) :
    (∀ order, order.Perm args → ∀ m, ∀ i ∈ args,
      (call i).read (evaluate call order m) = (call i).own) ↔ Alike call args := by
  constructor
  · intro h i hi j hj b t t' hci hcj
    obtain ⟨front, rest, rfl⟩ := List.append_of_mem hi
    have hperm : (front ++ rest ++ [i]).Perm (front ++ i :: rest) :=
      (List.perm_append_singleton i (front ++ rest)).trans List.perm_middle.symm
    have hread := h _ hperm (fun _ => t) j hj
    rw [hcj, read, read_last call _ _ hci] at hread
    exact hread
  · intro h order hp m i hi
    exact (h.perm hp).read_own m (hp.mem_iff.2 hi)

end StaticResult
end Noaaport.Lib
