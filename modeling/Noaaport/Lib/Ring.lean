import Mathlib.Data.Nat.ModEq
import Noaaport.Lib.Memory

/-! A cyclic buffer laid out in a flat memory: `cap` cells from `base` on, read
and written as at most two blocks, the second one from `base` again. -/
namespace Noaaport.Lib
variable {β : Type*}

def ringLoad (m : Mem β) (base cap start n : Nat) : List β :=
  (List.range n).map fun i => m (base + (start + i) % cap)

def splitLoad (m : Mem β) (base cap start n : Nat) : List β :=
  load m (base + start) (min (cap - start) n) ++ load m base (n - min (cap - start) n)

def splitStore (m : Mem β) (base cap start : Nat) (bs : List β) : Mem β :=
  store (store m (base + start) (bs.take (min (cap - start) bs.length)))
    base (bs.drop (min (cap - start) bs.length))

theorem ring_index {cap start i : Nat} (hs : start < cap) (hi : i < cap) :
    (start + i) % cap = if start + i < cap then start + i else start + i - cap := by
  split_ifs with h
  · exact Nat.mod_eq_of_lt h
  · rw [Nat.mod_eq_sub_mod (by omega)]
    exact Nat.mod_eq_of_lt (by omega)

@[simp] theorem length_ringLoad (m : Mem β) (base cap start n : Nat) :
    (ringLoad m base cap start n).length = n := by
  simp [ringLoad]

@[simp] theorem ringLoad_zero (m : Mem β) (base cap start : Nat) :
    ringLoad m base cap start 0 = [] := rfl

@[simp] theorem getElem_ringLoad (m : Mem β) (base cap start n i : Nat)
    (h : i < (ringLoad m base cap start n).length) :
    (ringLoad m base cap start n)[i] = m (base + (start + i) % cap) := by
  simp [ringLoad]

theorem ringLoad_congr {m m' : Mem β} {base cap start n : Nat}
    (h : ∀ i, i < n → m (base + (start + i) % cap) = m' (base + (start + i) % cap)) :
    ringLoad m base cap start n = ringLoad m' base cap start n := by
  apply List.map_congr_left
  intro i hi
  exact h i (List.mem_range.1 hi)

theorem ringLoad_mod (m : Mem β) (base cap start n : Nat) :
    ringLoad m base cap (start % cap) n = ringLoad m base cap start n := by
  simp only [ringLoad, Nat.mod_add_mod]

theorem ringLoad_add (m : Mem β) (base cap start n k : Nat) :
    ringLoad m base cap start (n + k) =
      ringLoad m base cap start n ++ ringLoad m base cap ((start + n) % cap) k := by
  rw [ringLoad_mod]
  simp [ringLoad, List.range_add, Nat.add_assoc]

theorem ringLoad_take (m : Mem β) (base cap start n k : Nat) (h : k ≤ n) :
    (ringLoad m base cap start n).take k = ringLoad m base cap start k := by
  obtain ⟨d, rfl⟩ := Nat.exists_eq_add_of_le h
  rw [ringLoad_add, List.take_left' (by simp)]

theorem ringLoad_drop (m : Mem β) (base cap start n k : Nat) (h : k ≤ n) :
    (ringLoad m base cap start n).drop k = ringLoad m base cap ((start + k) % cap) (n - k) := by
  obtain ⟨d, rfl⟩ := Nat.exists_eq_add_of_le h
  rw [ringLoad_add, List.drop_left' (by simp), Nat.add_sub_cancel_left]

/-- Copying out in two blocks reads the cyclic block. -/
theorem splitLoad_eq (m : Mem β) {base cap start n : Nat} (hs : start < cap) (hn : n ≤ cap) :
    splitLoad m base cap start n = ringLoad m base cap start n := by
  apply List.ext_getElem
  · simp only [splitLoad, List.length_append, length_load, length_ringLoad]
    omega
  · intro i hi _
    have hin : i < n := by
      simp only [splitLoad, List.length_append, length_load] at hi
      omega
    rw [getElem_ringLoad, ring_index hs (by omega)]
    by_cases h : i < min (cap - start) n
    · have hc : start + i < cap := by omega
      simp only [splitLoad]
      rw [List.getElem_append_left (by rw [length_load]; omega), getElem_load, if_pos hc, Nat.add_assoc]
    · have hc : ¬ start + i < cap := by omega
      simp only [splitLoad]
      rw [List.getElem_append_right (by rw [length_load]; omega), getElem_load, if_neg hc, length_load]
      congr 1
      omega

theorem ring_index_inj {cap start i j : Nat} (hi : i < cap) (hj : j < cap)
    (h : (start + i) % cap = (start + j) % cap) : i = j := by
  have h' : i % cap = j % cap := Nat.ModEq.add_left_cancel' start h
  rwa [Nat.mod_eq_of_lt hi, Nat.mod_eq_of_lt hj] at h'

/-- Writing the cell at cyclic index `i` sets entry `i` of a block that has it. -/
theorem ringLoad_store_cell (m : Mem β) (base : Nat) {cap start n i : Nat} (b : β)
    (hi : i < cap) (hn : n ≤ cap) :
    ringLoad (store m (base + (start + i) % cap) [b]) base cap start n =
      (ringLoad m base cap start n).set i b := by
  apply List.ext_getElem
  · simp
  · intro j hj _
    have hjn : j < n := by simpa using hj
    rw [getElem_ringLoad, List.getElem_set]
    by_cases h : i = j
    · subst j
      have hs := store_inside m (base + (start + i) % cap) [b] 0 (by simp)
      simpa using hs
    · have hne : (start + j) % cap ≠ (start + i) % cap :=
        fun he => h (ring_index_inj hi (by omega) he.symm)
      rw [if_neg h, getElem_ringLoad, store_outside]
      simp only [List.length_singleton]
      omega

section SplitStore
variable {m : Mem β} {base cap start : Nat} {bs : List β}

theorem splitStore_inside (hs : start < cap) (hl : bs.length ≤ cap) {i : Nat} (hi : i < bs.length) :
    splitStore m base cap start bs (base + (start + i) % cap) = bs[i] := by
  rw [ring_index hs (by omega)]
  unfold splitStore
  by_cases h : start + i < cap
  · have hb : i < (bs.take (min (cap - start) bs.length)).length := by
      rw [List.length_take]; omega
    rw [if_pos h, store_outside, ← Nat.add_assoc, store_inside _ _ _ _ hb, List.getElem_take]
    rw [List.length_drop]
    omega
  · have hb : start + i - cap < (bs.drop (min (cap - start) bs.length)).length := by
      rw [List.length_drop]; omega
    rw [if_neg h, store_inside _ _ _ _ hb, List.getElem_drop]
    congr 1
    omega

theorem splitStore_outside (hs : start < cap) {i : Nat} (hl : bs.length ≤ i) (hi : i < cap) :
    splitStore m base cap start bs (base + (start + i) % cap) =
      m (base + (start + i) % cap) := by
  rw [ring_index hs hi]
  unfold splitStore
  rw [store_outside, store_outside]
  · rw [List.length_take]
    split_ifs <;> omega
  · rw [List.length_drop]
    split_ifs <;> omega

/-- A split store never leaves the cyclic buffer. -/
theorem splitStore_frame (hs : start < cap) (hl : bs.length ≤ cap) {a : Nat}
    (ha : a < base ∨ base + cap ≤ a) : splitStore m base cap start bs a = m a := by
  unfold splitStore
  rw [store_outside, store_outside]
  · rw [List.length_take]; omega
  · rw [List.length_drop]; omega

theorem ringLoad_splitStore (hs : start < cap) (hl : bs.length ≤ cap) :
    ringLoad (splitStore m base cap start bs) base cap start bs.length = bs := by
  apply List.ext_getElem
  · simp
  · intro i hi hi'
    rw [getElem_ringLoad, splitStore_inside hs hl hi']

/-- The `n` cells before a split store are kept as long as both fit. -/
theorem ringLoad_splitStore_before {n : Nat} (hs : start < cap) (hn : n + bs.length ≤ cap) :
    ringLoad (splitStore m base cap ((start + n) % cap) bs) base cap start n =
      ringLoad m base cap start n := by
  apply ringLoad_congr
  intro i hi
  have hc : 0 < cap := by omega
  have hw : (start + n) % cap < cap := Nat.mod_lt _ hc
  have he : (start + i) % cap = ((start + n) % cap + (cap - n + i)) % cap := by
    have hsum : start + n + (cap - n + i) = start + i + cap := by omega
    rw [Nat.mod_add_mod, hsum, Nat.add_mod_right]
  rw [he]
  exact splitStore_outside hw (by omega) (by omega)

/-- Storing right behind a cyclic block appends to it. -/
theorem ringLoad_splitStore_append {n : Nat} (hs : start < cap) (hn : n + bs.length ≤ cap) :
    ringLoad (splitStore m base cap ((start + n) % cap) bs) base cap start (n + bs.length) =
      ringLoad m base cap start n ++ bs := by
  have hw : (start + n) % cap < cap := Nat.mod_lt _ (by omega)
  rw [ringLoad_add, ringLoad_splitStore_before hs hn, ringLoad_splitStore hw (by omega)]

end SplitStore
end Noaaport.Lib
