import Mathlib.Algebra.Order.Ring.Int
import Mathlib.Data.List.Basic
import Mathlib.Tactic.SplitIfs

/-! Flat memories: a cell for every address, block stores and block loads.
Nothing here bounds a block; bounds are statements about addresses. -/
namespace Noaaport.Lib
variable {β : Type*}

abbrev Mem (β : Type*) := Nat → β

def store (m : Mem β) (a : Nat) (bs : List β) : Mem β :=
  fun i => if a ≤ i then (bs[i - a]?).getD (m i) else m i

def load (m : Mem β) (a n : Nat) : List β :=
  (List.range n).map fun i => m (a + i)

@[simp] theorem length_load (m : Mem β) (a n : Nat) : (load m a n).length = n := by
  simp [load]

@[simp] theorem load_zero (m : Mem β) (a : Nat) : load m a 0 = [] := rfl

@[simp] theorem getElem_load (m : Mem β) (a n i : Nat) (h : i < (load m a n).length) :
    (load m a n)[i] = m (a + i) := by
  simp [load]

@[simp] theorem store_nil (m : Mem β) (a : Nat) : store m a [] = m := by
  funext i
  simp [store]

theorem store_before (m : Mem β) (a : Nat) (bs : List β) (i : Nat) (h : i < a) :
    store m a bs i = m i := by
  have : ¬ a ≤ i := by omega
  simp [store, this]

theorem store_after (m : Mem β) (a : Nat) (bs : List β) (i : Nat) (h : a + bs.length ≤ i) :
    store m a bs i = m i := by
  have hn : bs.length ≤ i - a := by omega
  simp [store, List.getElem?_eq_none hn]

theorem store_inside (m : Mem β) (a : Nat) (bs : List β) (i : Nat) (h : i < bs.length) :
    store m a bs (a + i) = bs[i] := by
  simp [store, List.getElem?_eq_getElem h]

theorem store_head (m : Mem β) (a : Nat) (b : β) (bs : List β) : store m a (b :: bs) a = b :=
  store_inside m a (b :: bs) 0 (Nat.succ_pos _)

/-- Addresses outside a stored block keep their cell. -/
theorem store_outside (m : Mem β) (a : Nat) (bs : List β) (i : Nat)
    (h : i < a ∨ a + bs.length ≤ i) : store m a bs i = m i := by
  rcases h with h | h
  · exact store_before m a bs i h
  · exact store_after m a bs i h

theorem load_congr {m m' : Mem β} {a a' n : Nat} (h : ∀ i, i < n → m (a + i) = m' (a' + i)) :
    load m a n = load m' a' n := by
  apply List.ext_getElem
  · simp
  · intro i hi _
    have hn : i < n := by simpa using hi
    simpa using h i hn

/-- The cells of two loads that are equal. -/
theorem load_inj {m m' : Mem β} {a a' n : Nat} (h : load m a n = load m' a' n) (i : Nat) (hi : i < n) :
    m (a + i) = m' (a' + i) := by
  have hg := congrArg (fun l => l[i]?) h
  simpa [List.getElem?_eq_getElem, hi] using hg

theorem load_add (m : Mem β) (a n k : Nat) :
    load m a (n + k) = load m a n ++ load m (a + n) k := by
  simp [load, List.range_add, Nat.add_assoc]

theorem load_eq_iff {m : Mem β} {a : Nat} {bs : List β} :
    load m a bs.length = bs ↔ ∀ i (h : i < bs.length), m (a + i) = bs[i] := by
  constructor
  · intro h i hi
    have hl : i < (load m a bs.length).length := by simpa using hi
    have hg := getElem_load m a bs.length i hl
    rw [← hg]
    simp only [h]
  · intro h
    apply List.ext_getElem
    · simp
    · intro i hi hi'
      simpa using h i hi'

theorem load_store (m : Mem β) (a : Nat) (bs : List β) :
    load (store m a bs) a bs.length = bs :=
  load_eq_iff.2 fun i h => store_inside m a bs i h

theorem load_store_before (m : Mem β) (a : Nat) (bs : List β) (a' n : Nat) (h : a' + n ≤ a) :
    load (store m a bs) a' n = load m a' n :=
  load_congr fun i hi => store_before m a bs (a' + i) (by omega)

/-- A store that starts where a loaded block ends extends the block. -/
theorem load_store_append (m : Mem β) (a n : Nat) (bs : List β) :
    load (store m (a + n) bs) a (n + bs.length) = load m a n ++ bs := by
  rw [load_add, load_store_before _ _ _ _ _ (Nat.le_refl _), load_store]

/-- Two stores, the second where the first one ends. -/
theorem store_append (m : Mem β) (a : Nat) (bs cs : List β) :
    store (store m a bs) (a + bs.length) cs = store m a (bs ++ cs) := by
  funext i
  by_cases hb : i < a + bs.length
  · rw [store_before _ _ _ _ hb]
    by_cases ha : a ≤ i
    · obtain ⟨k, rfl⟩ := Nat.exists_eq_add_of_le ha
      have hk : k < bs.length := by omega
      rw [store_inside _ _ _ _ hk, store_inside _ _ _ _ (by rw [List.length_append]; omega),
        List.getElem_append_left hk]
    · rw [store_before _ _ _ _ (by omega), store_before _ _ _ _ (by omega)]
  · obtain ⟨k, rfl⟩ := Nat.exists_eq_add_of_le (Nat.le_of_not_lt hb)
    by_cases hk : k < cs.length
    · have hk' : bs.length + k < (bs ++ cs).length := by rw [List.length_append]; omega
      rw [store_inside _ _ _ _ hk, Nat.add_assoc, store_inside _ _ _ _ hk',
        List.getElem_append_right (Nat.le_add_right ..)]
      simp only [Nat.add_sub_cancel_left]
    · rw [store_after _ _ _ _ (by omega), store_after _ _ _ _ (by omega),
        store_after _ _ _ _ (by rw [List.length_append]; omega)]

theorem load_take (m : Mem β) (a n k : Nat) (h : k ≤ n) :
    (load m a n).take k = load m a k := by
  obtain ⟨d, rfl⟩ := Nat.exists_eq_add_of_le h
  rw [load_add, List.take_left' (by simp)]

theorem load_drop (m : Mem β) (a n k : Nat) :
    (load m a (k + n)).drop k = load m (a + k) n := by
  rw [load_add, List.drop_left' (by simp)]

end Noaaport.Lib
