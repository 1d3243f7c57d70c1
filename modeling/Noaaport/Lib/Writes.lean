import Noaaport.Lib.Memory

/-! Writes to a memory as a list: what they leave behind and how far they reach. -/
namespace Noaaport.Lib
variable {β : Type*}

structure Write (β : Type*) where
  off : Nat
  bytes : List β
  deriving DecidableEq

def replay (m : Mem β) (ws : List (Write β)) : Mem β := ws.foldl (fun m w => store m w.off w.bytes) m

/-- Every cell that is written lies below `n`. -/
def Below (n : Nat) (ws : List (Write β)) : Prop := ∀ w ∈ ws, ∀ i < w.bytes.length, w.off + i < n

section Replay
variable {m : Mem β} {n a : Nat} {w : Write β} {ws ws' : List (Write β)} {bs : List β}

@[simp] theorem replay_nil : replay m ([] : List (Write β)) = m := rfl
@[simp] theorem replay_cons : replay m (w :: ws) = replay (store m w.off w.bytes) ws := rfl

theorem replay_append : replay m (ws ++ ws') = replay (replay m ws) ws' := List.foldl_append ..

@[simp] theorem below_nil : Below n ([] : List (Write β)) := nofun

theorem below_cons : Below n (w :: ws) ↔ Below n [w] ∧ Below n ws := by
  simp only [Below, List.mem_cons, List.not_mem_nil, or_false, forall_eq_or_imp, forall_eq]

theorem below_append : Below n (ws ++ ws') ↔ Below n ws ∧ Below n ws' := by
  simp only [Below, List.mem_append, or_imp, forall_and]

/-- One write: it has no bytes, or its last one is below. -/
theorem below_singleton : Below n [⟨a, bs⟩] ↔ bs.length = 0 ∨ a + bs.length ≤ n := by
  constructor
  · intro h
    by_cases h0 : bs.length = 0
    · exact .inl h0
    · have hlast := h _ (List.mem_singleton_self _) (bs.length - 1) (by dsimp only; omega)
      dsimp only at hlast
      omega
  · intro h w hw i hi
    cases List.mem_singleton.1 hw
    dsimp only at hi ⊢
    omega

/-- Writes below a bound leave the cells from it on alone. -/
theorem Below.replay_eq (h : Below n ws) {k : Nat} (hk : n ≤ k) : replay m ws k = m k := by
  induction ws generalizing m with
  | nil => rfl
  | cons w ws ih =>
    obtain ⟨hw, hws⟩ := below_cons.1 h
    rw [replay_cons, ih hws]
    refine store_outside _ _ _ _ ?_
    have hone := below_singleton.1 hw
    by_cases h0 : w.bytes.length = 0
    · omega
    · exact .inr (by omega)

end Replay

/-- Writes one behind the other, from a cursor on. -/
def inRow (a : Nat) : List (List β) → List (Write β)
  | [] => []
  | bs :: rest => ⟨a, bs⟩ :: inRow (a + bs.length) rest

section InRow
variable {n a : Nat} {chunks : List (List β)}

theorem below_inRow :
    Below n (inRow a chunks) ↔ chunks.flatten.length = 0 ∨ a + chunks.flatten.length ≤ n := by
  induction chunks generalizing a with
  | nil => exact ⟨fun _ => .inl rfl, fun _ => below_nil⟩
  | cons bs rest ih =>
    rw [inRow, below_cons, below_singleton, ih, List.flatten_cons, List.length_append]
    omega

end InRow
end Noaaport.Lib
