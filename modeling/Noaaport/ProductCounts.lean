import Noaaport.Fragments
import Noaaport.PacketCounts
import Noaaport.ProductQueue

/-! The counter of products: calls of `process_prod` against insertions. -/
namespace Noaaport
open Lib
open ProductQueue (InsertAnswers lpqInsert)

section Counting
variable {answers : Nat → InsertAnswers} {p : Program} {lib : Library} {s t u : State}

/-- How many of the first `n` calls of `lpqInsert` return 0. -/
def insertions (answers : Nat → InsertAnswers) (n : Nat) : Nat :=
  (List.range n).countP fun k => lpqInsert (answers k) = 0

theorem insertions_succ (answers : Nat → InsertAnswers) (n : Nat) :
    insertions answers (n + 1) =
      insertions answers n + if lpqInsert (answers n) = 0 then 1 else 0 := by
  rw [insertions, List.range_succ, List.countP_append]
  simp [insertions, List.countP_cons]

theorem insertions_eq_iff (answers : Nat → InsertAnswers) (n : Nat) :
    insertions answers n = n ↔ ∀ k, k < n → lpqInsert (answers k) = 0 := by
  have h := List.countP_eq_length (l := List.range n) (p := fun k => lpqInsert (answers k) = 0)
  rw [List.length_range] at h
  simpa [insertions] using h

theorem insertions_le (answers : Nat → InsertAnswers) (n : Nat) : insertions answers n ≤ n := by
  have h := List.countP_le_length (l := List.range n) (p := fun k => lpqInsert (answers k) = 0)
  rwa [List.length_range] at h

/-- The calls of `process_prod` that get as far as `lpqInsert`. -/
structure Reaching (s : State) : Prop where
  length : s.asm.inserts.length = s.asm.calls.countP fun c => c.heap ≠ []

/-- One call more, or none; and at most one insertion for it. -/
theorem works_counts {w : Work} (h : Works p lib s w t) (hs : Reaching s) :
    Reaching t ∧ (t.asm.calls = s.asm.calls ∧ t.asm.inserts.length = s.asm.inserts.length ∨
      ∃ c, t.asm.calls = s.asm.calls ++ [c] ∧ t.asm.inserts.length =
        s.asm.inserts.length + if c.heap ≠ [] then 1 else 0) := by
  obtain ⟨⟨e, hstep⟩, -⟩ := h
  cases step_handover hstep with
  | none hq =>
    have hc : t.asm.calls = s.asm.calls := hq.calls
    have hi : t.asm.inserts = s.asm.inserts := hq.inserts
    exact ⟨⟨by rw [hi, hc]; exact hs.length⟩, .inl ⟨hc, by rw [hi]⟩⟩
  | one c _ hc hi =>
    obtain ⟨q, hq, hsome⟩ := hi
    have hc : t.asm.calls = s.asm.calls ++ [c] := hc
    have hlen : t.asm.inserts.length = s.asm.inserts.length + if c.heap ≠ [] then 1 else 0 := by
      rw [hq, List.length_append]
      congr 1
      cases q with
      | none => rw [if_neg (mt hsome.2 (by simp))]; rfl
      | some q => rw [if_pos (hsome.1 rfl)]; rfl
    refine ⟨⟨?_⟩, .inr ⟨c, hc, hlen⟩⟩
    rw [hlen, hc, List.countP_append, hs.length]
    simp [List.countP_cons]

/-- Every call has had something to insert and has inserted it. -/
def AllInserted (answers : Nat → InsertAnswers) (s : State) : Prop :=
  (∀ c ∈ s.asm.calls, c.heap ≠ []) ∧ ∀ k, k < s.asm.calls.length → lpqInsert (answers k) = 0

theorem Reaching.counts (h : Reaching s) (answers : Nat → InsertAnswers) :
    insertions answers s.asm.inserts.length ≤ s.asm.calls.length ∧
      (insertions answers s.asm.inserts.length = s.asm.calls.length ↔ AllInserted answers s) := by
  have hle := insertions_le answers s.asm.inserts.length
  have hcount : s.asm.inserts.length ≤ s.asm.calls.length := by
    rw [h.length]
    exact List.countP_le_length
  have hall : s.asm.inserts.length = s.asm.calls.length ↔ ∀ c ∈ s.asm.calls, c.heap ≠ [] := by
    rw [h.length, List.countP_eq_length]
    simp
  refine ⟨Nat.le_trans hle hcount, fun heq => ?_, fun ⟨hheap, hans⟩ => ?_⟩
  · have hlen : s.asm.inserts.length = s.asm.calls.length := by omega
    exact ⟨hall.1 hlen, (insertions_eq_iff ..).1 (hlen ▸ heq)⟩
  · have hlen := hall.2 hheap
    rw [hlen]
    exact (insertions_eq_iff ..).2 hans

/-- The numbers agree, as `unsigned long`s. -/
def Agree (answers : Nat → InsertAnswers) (s : State) : Prop :=
  UInt64.ofNat s.asm.calls.length = UInt64.ofNat (insertions answers s.asm.inserts.length)

/-- From one state to the next the calls get at most one ahead, so they cannot get a
multiple of `2 ^ 64` ahead unseen. -/
theorem AllInserted.step {w : Work} (h : Works p lib s w t) (hs : Reaching s)
    (hall : AllInserted answers s) (ht : Agree answers t) : AllInserted answers t := by
  obtain ⟨hreach, hor⟩ := works_counts h hs
  obtain ⟨hle, hiff⟩ := hreach.counts answers
  have heq := (hs.counts answers).2.2 hall
  have hle' : t.asm.calls.length ≤ insertions answers t.asm.inserts.length + 1 := by
    obtain ⟨hc, hi⟩ | ⟨c, hc, hi⟩ := hor
    · rw [hc, hi]
      omega
    · rw [hc, hi, List.length_append, List.length_singleton, ← heq]
      split_ifs
      · rw [insertions_succ]
        omega
      · exact Nat.le_refl _
  refine hiff.1 ?_
  by_contra hne
  have hnext : t.asm.calls.length = insertions answers t.asm.inserts.length + 1 := by omega
  unfold Agree at ht
  rw [hnext, UInt64.ofNat_add] at ht
  have hone : (1 : UInt64) = 0 := by
    refine add_left_cancel (a := UInt64.ofNat (insertions answers t.asm.inserts.length)) ?_
    rw [add_zero]
    exact ht
  exact absurd hone (by decide)

end Counting

section Runs
variable {answers : Nat → InsertAnswers} {size : Nat} {closed : Bool} {lib : Library}
  {s t u : State} {ws : List Work}

/-- The run passes through the state. -/
def Passes (p : Program) (lib : Library) (s : State) (ws : List Work) (t : State) (ws₁ : List Work)
    (u : State) : Prop :=
  Trace (Works p lib) s ws₁ u ∧ ∃ ws₂, ws = ws₁ ++ ws₂ ∧ Trace (Works p lib) u ws₂ t

/-- However the reports fall, the products counted are the products inserted. -/
def CountsInsertions (answers : Nat → InsertAnswers) (ws : List Work) (t : State) : Prop :=
  ∀ es, Locked.added es = sections ws →
    tally Counters.nprods es = UInt64.ofNat (insertions answers t.asm.inserts.length)

theorem nprods_sectionsOf (st : Stats) (ks : List Sbn) : (sectionsOf st ks).sum.nprods = 0 := by
  induction ks generalizing st with
  | nil => rfl
  | cons k ks ih =>
    rw [sectionsOf, List.sum_append, Counters.nprods_add, ih, add_zero]
    cases classify st k with
    | newRun => rfl
    | retrograde => rfl
    | forward gap => rw [sum_sections_forward]

/-- What is counted is the calls of `process_prod`. -/
theorem tally_nprods (h : Trace (Works (pmStart size closed) lib) s ws t)
    (h0 : s.asm.calls = []) {es : List (Locked Counters)} (hes : Locked.added es = sections ws) :
    tally Counters.nprods es = UInt64.ofNat t.asm.calls.length := by
  have heq := tally_eq nprodsHom hes
  rw [(trace_sections h).2.2, nsmul_product, h0, List.length_nil, Nat.sub_zero] at heq
  refine heq.trans ?_
  change (sectionsOf s.inp.stats ((packets ws).map Input.sbn)).sum.nprods + _ = _
  rw [nprods_sectionsOf, zero_add]

theorem countsInsertions_iff (h : Trace (Works (pmStart size closed) lib) s ws t)
    (h0 : s.asm.calls = []) : CountsInsertions answers ws t ↔ Agree answers t := by
  constructor
  · intro hc
    rw [Agree, ← hc _ (Locked.added_map_add _), tally_nprods h h0 (Locked.added_map_add _)]
  · intro ha es hes
    rw [tally_nprods h h0 hes]
    exact ha

theorem trace_reaching {p : Program} (h : Trace (Works p lib) s ws t) (hs : Reaching s) :
    Reaching t ∧ ∃ cs, t.asm.calls = s.asm.calls ++ cs := by
  refine h.invariant (P := fun t => Reaching t ∧ ∃ cs, t.asm.calls = s.asm.calls ++ cs) ?_
    ⟨hs, [], (List.append_nil _).symm⟩
  rintro u w v ⟨hu, cs, hcs⟩ hw
  obtain ⟨hv, ⟨hc, -⟩ | ⟨c, hc, -⟩⟩ := works_counts hw hu
  · exact ⟨hv, cs, hc.trans hcs⟩
  · exact ⟨hv, cs ++ [c], by rw [hc, hcs, List.append_assoc]⟩

theorem AllInserted.of_append {cs : List Call} (h : AllInserted answers t)
    (hcs : t.asm.calls = s.asm.calls ++ cs) : AllInserted answers s := by
  constructor
  · exact fun c hc => h.1 c (by rw [hcs]; exact List.mem_append_left _ hc)
  · refine fun k hk => h.2 k ?_
    rw [hcs, List.length_append]
    omega

theorem trace_allInserted {p : Program} (h : Trace (Works p lib) s ws t) (hs : Reaching s)
    (hall : AllInserted answers s)
    (hagree : ∀ ws₁ u, Passes p lib s ws t ws₁ u → Agree answers u) : AllInserted answers t := by
  induction h with
  | nil => exact hall
  | @cons s u t w ws hw htr ih =>
    have hu : Agree answers u := hagree [w] u ⟨.cons hw (.nil u), ws, rfl, htr⟩
    refine ih (works_counts hw hs).1 (hall.step hw hs hu) fun ws₁ v hv => ?_
    obtain ⟨hfst, ws₂, heq, hsnd⟩ := hv
    exact hagree (w :: ws₁) v ⟨.cons hw hfst, ws₂, by rw [heq]; rfl, hsnd⟩

/-- The counter is right all along a run exactly if every call of `process_prod` has had
data and has got it into the queue. -/
theorem product_count_iff (answers : Nat → InsertAnswers) (h0 : Initial s)
    (h : Trace (Works (pmStart size closed) lib) s ws t) :
    (∀ ws₁ u, Passes (pmStart size closed) lib s ws t ws₁ u → CountsInsertions answers ws₁ u) ↔
      (∀ c ∈ t.asm.calls, c.heap ≠ []) ∧
        ∀ k, k < t.asm.calls.length → lpqInsert (answers k) = 0 := by
  have hcalls := h0.calls.1
  have hreach : Reaching s := ⟨by rw [hcalls, h0.calls.2.1]; rfl⟩
  have hstart : AllInserted answers s := by
    constructor <;> rw [hcalls] <;> exact nofun
  constructor
  · intro hcounts
    exact trace_allInserted h hreach hstart fun ws₁ u hu =>
      (countsInsertions_iff hu.1 hcalls).1 (hcounts ws₁ u hu)
  · rintro hall ws₁ u ⟨hfst, ws₂, -, hsnd⟩
    obtain ⟨hu, -⟩ := trace_reaching hfst hreach
    obtain ⟨-, cs, hcs⟩ := trace_reaching hsnd hu
    have huall : AllInserted answers u := AllInserted.of_append hall hcs
    refine (countsInsertions_iff hfst hcalls).2 (congrArg UInt64.ofNat ?_)
    exact ((hu.counts answers).2.2 huall).symm

/-- A product of one packet. -/
def oneProduct : List Work × State := counted 1 (State.fresh singlePacket .blank)

theorem oneProduct_trace :
    Trace (Works (pmStart 10000 false) .plain) (State.fresh singlePacket .blank) oneProduct.1
      oneProduct.2 :=
  iterateWorks_trace ..

theorem product_count_iff_run :
    CountsInsertions (fun _ => ⟨true, .inserted⟩) oneProduct.1 oneProduct.2 :=
  (product_count_iff (fun _ => ⟨true, .inserted⟩) (State.fresh_initial ..) oneProduct_trace).2
    ⟨by decide +kernel, fun _ _ => rfl⟩ _ _ ⟨oneProduct_trace, [], (List.append_nil _).symm, .nil _⟩

/-- A duplicate is counted as a product. -/
theorem duplicate_counted :
    Passes (pmStart 10000 false) .plain (State.fresh singlePacket .blank) oneProduct.1 oneProduct.2
        oneProduct.1 oneProduct.2 ∧
      sections oneProduct.1 = [.product] ∧
      insertions (fun _ => ⟨true, .duplicate⟩) oneProduct.2.asm.inserts.length = 0 ∧
      ¬ CountsInsertions (fun _ => ⟨true, .duplicate⟩) oneProduct.1 oneProduct.2 := by
  have hsections : sections oneProduct.1 = [.product] := by decide +kernel
  have hnone : insertions (fun _ => ⟨true, .duplicate⟩) oneProduct.2.asm.inserts.length = 0 := by
    decide +kernel
  refine ⟨⟨oneProduct_trace, [], (List.append_nil _).symm, .nil _⟩, hsections, hnone, fun h => ?_⟩
  have htally := h [.add .product, .report] hsections.symm
  rw [hnone] at htally
  exact absurd htally (by decide)

end Runs
end Noaaport
