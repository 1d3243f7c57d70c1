import Mathlib.Data.List.Basic

/-! Messages sent in numbered parts and put together one at a time: part 0 starts
a message whatever is under way, the part that is due goes on with it, any other
part drops it. -/
namespace Noaaport.Lib.Reassembly
variable {M K : Type*}

inductive Progress (M : Type*) where
  | idle
  | building (m : M) (k : Nat)

section Step
variable [DecidableEq K] (key : M → K) (size : M → Nat)

/-- With its first `k` parts a message is complete or not. -/
def advance (m : M) (k : Nat) : Progress M × List M :=
  if k = size m then (.idle, [m]) else (.building m k, [])

/-- One part arrives; what is delivered for it. -/
def step : Progress M → M × Nat → Progress M × List M
  | _, (m, 0) => advance size m 1
  | .idle, (_, _ + 1) => (.idle, [])
  | .building m k, (n, j + 1) =>
    if key n = key m ∧ j + 1 = k then advance size m (k + 1) else (.idle, [])

def run : Progress M → List (M × Nat) → Progress M × List M
  | st, [] => (st, [])
  | st, x :: xs =>
    ((run (step key size st x).1 xs).1, (step key size st x).2 ++ (run (step key size st x).1 xs).2)

def partsFrom (m : M) (k : Nat) : List (M × Nat) :=
  (List.range' k (size m - k)).map fun j => (m, j)

def parts (m : M) : List (M × Nat) := partsFrom size m 0

theorem mem_parts {m : M} {x : M × Nat} (h : x ∈ parts size m) : x.2 < size x.1 := by
  obtain ⟨j, hj, rfl⟩ := List.mem_map.1 h
  have hlt := (List.mem_range'_1.1 hj).2
  rwa [Nat.zero_add] at hlt

theorem fst_of_mem_parts {m : M} {x : M × Nat} (h : x ∈ parts size m) : x.1 = m := by
  obtain ⟨j, -, rfl⟩ := List.mem_map.1 h
  rfl

theorem run_append (st : Progress M) (xs ys : List (M × Nat)) :
    run key size st (xs ++ ys) =
      ((run key size (run key size st xs).1 ys).1,
        (run key size st xs).2 ++ (run key size (run key size st xs).1 ys).2) := by
  induction xs generalizing st with
  | nil => rfl
  | cons x xs ih =>
    rw [List.cons_append, run, ih]
    simp only [run, List.append_assoc]

theorem partsFrom_end {m : M} {k : Nat} (h : size m ≤ k) : partsFrom size m k = [] := by
  unfold partsFrom
  rw [Nat.sub_eq_zero_of_le h]
  rfl

theorem partsFrom_cons {m : M} {k : Nat} (h : k < size m) :
    partsFrom size m k = (m, k) :: partsFrom size m (k + 1) := by
  unfold partsFrom
  obtain ⟨d, hd⟩ := Nat.exists_eq_add_of_lt h
  rw [show size m - k = (size m - (k + 1)) + 1 by omega, List.range'_succ, List.map_cons]

/-- The parts that are still due, in order, deliver the message. -/
theorem run_partsFrom (m : M) (d k : Nat) (hk : 0 < k) (hd : k + (d + 1) = size m) :
    run key size (.building m k) (partsFrom size m k) = (.idle, [m]) := by
  induction d generalizing k with
  | zero =>
    obtain ⟨j, rfl⟩ := Nat.exists_eq_succ_of_ne_zero (Nat.ne_of_gt hk)
    rw [partsFrom_cons size (by omega), partsFrom_end size (by omega)]
    have hsize : j + 1 + 1 = size m := by omega
    simp [run, step, advance, hsize]
  | succ d ih =>
    obtain ⟨j, rfl⟩ := Nat.exists_eq_succ_of_ne_zero (Nat.ne_of_gt hk)
    rw [partsFrom_cons size (by omega), run]
    have hstep : step key size (.building m (j + 1)) (m, j + 1) = (.building m (j + 1 + 1), []) := by
      have hne : j + 1 + 1 ≠ size m := by omega
      simp [step, advance, hne]
    rw [hstep, ih (j + 1 + 1) (by omega) (by omega)]
    rfl

/-- All the parts of a message, in order, deliver it from any state. -/
theorem run_parts (st : Progress M) (m : M) (h : 0 < size m) :
    run key size st (parts size m) = (.idle, [m]) := by
  unfold parts
  rw [partsFrom_cons size h, run]
  have hstep : step key size st (m, 0) = advance size m 1 := by
    cases st <;> rfl
  rw [hstep, advance]
  split_ifs with h1
  · rw [partsFrom_end size (by omega)]
    rfl
  · rw [run_partsFrom key size m (size m - 2) (0 + 1) (by omega) (by omega)]
    rfl

/-- Whole messages, each in order, are delivered one after the other. -/
theorem run_messages (ms : List M) (h : ∀ m ∈ ms, 0 < size m) :
    run key size .idle (ms.flatMap (parts size)) = (.idle, ms) := by
  induction ms with
  | nil => rfl
  | cons m ms ih =>
    rw [List.flatMap_cons, run_append, run_parts key size _ m (h m List.mem_cons_self),
      ih fun n hn => h n (List.mem_cons_of_mem m hn)]
    rfl

/-- What is under way or delivered after a part was sent or under way before. -/
theorem step_from {C : M → Prop} {st : Progress M} {x : M × Nat} (hx : C x.1)
    (hst : ∀ m k, st = .building m k → C m) :
    (∀ m k, (step key size st x).1 = .building m k → C m) ∧ ∀ m ∈ (step key size st x).2, C m := by
  have hadv (m : M) (k : Nat) (hm : C m) :
      (∀ n j, (advance size m k).1 = .building n j → C n) ∧ ∀ n ∈ (advance size m k).2, C n := by
    unfold advance
    split_ifs
    · exact ⟨nofun, fun n hn => List.mem_singleton.1 hn ▸ hm⟩
    · exact ⟨fun n j h => by cases h; exact hm, nofun⟩
  obtain ⟨m, j⟩ := x
  cases j with
  | zero =>
    cases st with
    | idle => exact hadv m 1 hx
    | building n k => exact hadv m 1 hx
  | succ j =>
    cases st with
    | idle => exact ⟨nofun, nofun⟩
    | building n k =>
      by_cases h : key m = key n ∧ j + 1 = k
      · have hs : step key size (.building n k) (m, j + 1) = advance size n (k + 1) := if_pos h
        rw [hs]
        exact hadv n (k + 1) (hst n k rfl)
      · have hs : step key size (.building n k) (m, j + 1) = (.idle, []) := if_neg h
        rw [hs]
        exact ⟨nofun, nofun⟩

/-- A message begins when none is under way, and its parts are left undisturbed. -/
def Orderly : Progress M → List (M × Nat) → Prop
  | _, [] => True
  | st, x :: xs =>
    (x.2 = 0 ∧ st = .idle ∨ x.2 ≠ 0 ∧ ∃ k, st = .building x.1 k) ∧
      Orderly (step key size st x).1 xs

theorem Orderly.append {st : Progress M} {xs ys : List (M × Nat)} (h : Orderly key size st xs)
    (h' : Orderly key size (run key size st xs).1 ys) : Orderly key size st (xs ++ ys) := by
  induction xs generalizing st with
  | nil => exact h'
  | cons x xs ih => exact ⟨h.1, ih h.2 h'⟩

theorem orderly_partsFrom (m : M) (d k : Nat) (hk : 0 < k) (hd : k + d = size m) :
    Orderly key size (.building m k) (partsFrom size m k) := by
  induction d generalizing k with
  | zero =>
    rw [partsFrom_end size (by omega)]
    trivial
  | succ d ih =>
    obtain ⟨j, rfl⟩ := Nat.exists_eq_succ_of_ne_zero (Nat.ne_of_gt hk)
    rw [partsFrom_cons size (by omega)]
    refine ⟨.inr ⟨Nat.succ_ne_zero j, j + 1, rfl⟩, ?_⟩
    have hs : step key size (.building m (j + 1)) (m, j + 1) = advance size m (j + 1 + 1) :=
      if_pos ⟨rfl, rfl⟩
    change Orderly key size (step key size (.building m (j + 1)) (m, j + 1)).1 _
    rw [hs, advance]
    split_ifs with hend
    · rw [partsFrom_end size (by omega)]
      trivial
    · exact ih (j + 1 + 1) (by omega) (by omega)

/-- Whole messages in order disturb none of each other. -/
theorem orderly_messages (ms : List M) (h : ∀ m ∈ ms, 0 < size m) :
    Orderly key size .idle (ms.flatMap (parts size)) := by
  induction ms with
  | nil => trivial
  | cons m ms ih =>
    have hm := h m List.mem_cons_self
    rw [List.flatMap_cons]
    refine Orderly.append key size ?_ ?_
    · rw [parts, partsFrom_cons size hm]
      refine ⟨.inl ⟨rfl, rfl⟩, ?_⟩
      change Orderly key size (advance size m 1).1 _
      rw [advance]
      split_ifs with hend
      · rw [partsFrom_end size (by omega)]
        trivial
      · exact orderly_partsFrom key size m (size m - 1) 1 Nat.one_pos (by omega)
    · rw [run_parts key size _ m hm]
      exact ih fun n hn => h n (List.mem_cons_of_mem m hn)

end Step
end Noaaport.Lib.Reassembly
