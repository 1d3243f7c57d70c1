import Mathlib.Algebra.BigOperators.Group.List.Basic
import Mathlib.Data.List.Basic

/-! Counters that one thread adds to and another one reads and sets back to zero,
each time with the lock held. -/
namespace Noaaport.Lib
variable {M N : Type*} [AddCommMonoid M] [AddCommMonoid N]

/-- What a thread does with the lock held. -/
inductive Locked (M : Type*) where
  | add (m : M)
  | report

namespace Locked

/-- What the adding thread does, however the reports fall in between. -/
def added {α : Type*} : List (Locked α) → List α
  | [] => []
  | .add m :: es => m :: added es
  | .report :: es => added es

/-- The values reported, and the one the counters are left with. -/
def run : M → List (Locked M) → List M × M
  | c, [] => ([], c)
  | c, .add m :: es => run (c + m) es
  | c, .report :: es => (c :: (run 0 es).1, (run 0 es).2)

/-- Everything reported, with what has not been. -/
def total (c : M) (es : List (Locked M)) : M := (run c es).1.sum + (run c es).2

/-- Nothing is lost and nothing is counted twice. -/
theorem total_eq (c : M) (es : List (Locked M)) : total c es = c + (added es).sum := by
  induction es generalizing c with
  | nil => simp [total, run, added]
  | cons e es ih =>
    cases e with
    | add m =>
      have h := ih (c + m)
      simp only [total, run, added, List.sum_cons] at h ⊢
      rw [h, add_assoc]
    | report =>
      have h := ih 0
      simp only [total, run, added, List.sum_cons] at h ⊢
      rw [add_assoc, h, zero_add]

theorem total_map (f : M →+ N) (c : M) (es : List (Locked M)) :
    ((run c es).1.map f).sum + f (run c es).2 = f c + ((added es).map f).sum := by
  rw [← map_list_sum, ← map_list_sum, ← map_add, ← map_add]
  exact congrArg f (total_eq c es)

@[simp] theorem added_map_add {α : Type*} (ms : List α) : added (ms.map add) = ms := by
  induction ms with
  | nil => rfl
  | cons m ms ih => rw [List.map_cons, added, ih]

end Locked
end Noaaport.Lib
