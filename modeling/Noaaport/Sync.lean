import Mathlib.Data.List.TakeWhile
import Noaaport.Assembly

/-! Resynchronisation: whatever comes before it, the loop stops at the first
valid SBN header of the stream. -/
namespace Noaaport
open Lib

/-- Reads of at most `max` bytes succeed while that many are there. -/
def Program.Serves (p : Program) (max : Nat) : Prop :=
  ∀ (want : Int) (rest : List UInt8), 0 ≤ want → want ≤ max → want.toNat ≤ rest.length →
    rest ≠ [] → p.reader.read want rest = .ok

theorem pmStart_serves {size max : Nat} (closed : Bool) (h : max ≤ size) :
    (pmStart size closed).Serves max := by
  intro want rest h0 hmax hle hne
  simp only [pmStart, fifoReader]
  rw [if_neg (by omega), if_neg (by simp [hne]), if_pos hle]

theorem readnoaaport_serves (max : Nat) : readnoaaport.Serves max := by
  intro want rest h0 _ hle _
  simp only [readnoaaport, shmBufread]
  rw [if_neg (by omega), if_pos hle]

section Read
variable {p : Program} {max off : Nat} {want : Int} {onFail : Exit} {i : Input}

/-- What a read can do. -/
theorem Input.read_ends (p : Program) (off : Nat) (want : Int) (onFail : Exit) (i : Input) :
    (i.read p off want onFail).Ends
      (fun j => j = i.take off want.toNat ∧ 0 ≤ want ∧ want.toNat ≤ i.rest.length)
      (fun e j => j = i ∧ (e = onFail ∨ e = .blocked)) := by
  unfold Input.read
  split
  · next h => exact ⟨rfl, p.reader.ok_le _ _ h⟩
  · exact ⟨rfl, .inl rfl⟩
  · exact ⟨rfl, .inr rfl⟩

theorem Input.read_go (hp : p.Serves max) {n : Nat} (hmax : n ≤ max) (hle : n ≤ i.rest.length)
    (hne : i.rest ≠ []) : i.read p off n onFail = .go (i.take off n) := by
  simp only [Input.read, hp n i.rest (by omega) (by omega) (by simpa using hle) hne,
    Int.toNat_natCast]

end Read

section Header
variable {s : List UInt8} {k q : Nat} {buf : Buffer} {sbn : Sbn}

def byteAt (s : List UInt8) (k : Nat) : Nat := (s.getD k 0).toNat

/-- Sixteen bytes at `q` that `readsbn` accepts: 255 first, the sum of the first
fourteen in the last two, and a known command. -/
def HeaderAt (s : List UInt8) (q : Nat) : Prop :=
  q + 16 ≤ s.length ∧ s.getD q 0 = 255 ∧
    (((s.drop q).take 14).map UInt8.toNat).sum = byteAt s (q + 14) * 256 + byteAt s (q + 15) ∧
    (byteAt s (q + 4) = 3 ∨ byteAt s (q + 4) = 5 ∨ byteAt s (q + 4) = 10)

instance (s : List UInt8) (q : Nat) : Decidable (HeaderAt s q) :=
  inferInstanceAs (Decidable (_ ∧ _ ∧ _ ∧ _))

/-- The first sixteen bytes of the buffer are those of the stream at `k`. -/
structure Window (s : List UInt8) (k : Nat) (i : Input) : Prop where
  inside : k + 16 ≤ s.length
  bytes : load i.buf 0 16 = (s.drop k).take 16
  rest : i.rest = s.drop (k + 16)

theorem Window.cell {i : Input} (h : Window s k i) {j : Nat} (hj : j < 16) :
    i.buf j = s.getD (k + j) 0 := by
  have hin := h.inside
  have hl := congrArg (·.getD j 0) h.bytes
  simp only [List.getD_eq_getElem?_getD, List.getElem?_take, List.getElem?_drop] at hl
  rw [List.getElem?_eq_getElem (by simpa using hj), getElem_load, Nat.zero_add] at hl
  simpa [hj, List.getD_eq_getElem?_getD] using hl

/-- `readsbn` is the test of `HeaderAt`. -/
theorem Window.readsbn_iff {i : Input} (h : Window s k i) (sbn : Sbn) :
    (readsbn i.buf sbn).1 = true ↔ HeaderAt s k := by
  have h0 : i.buf 0 = s.getD k 0 := h.cell (by decide)
  have h4 : (i.buf 4).toNat = byteAt s (k + 4) := congrArg UInt8.toNat (h.cell (by decide))
  have h14 : be16 i.buf 14 = byteAt s (k + 14) * 256 + byteAt s (k + 15) := by
    rw [be16, h.cell (by decide), h.cell (by decide)]
    rfl
  have hsum : csum i.buf = (((s.drop k).take 14).map UInt8.toNat).sum := by
    rw [csum, ← load_take i.buf 0 16 14 (by decide), h.bytes, List.take_take]
    rfl
  have hin := h.inside
  simp only [readsbn, HeaderAt, hsum, h14, h0, h4]
  split_ifs with h1 h2 h3
  · exact ⟨fun hf => absurd hf (by decide), fun h => absurd h.2.2.1 h1⟩
  · exact ⟨fun hf => absurd hf (by decide), fun h => absurd h.2.1 h2⟩
  · exact ⟨fun hf => absurd hf (by decide), fun h => by omega⟩
  · exact ⟨fun _ => ⟨hin, not_not.1 h2, not_not.1 h1, by omega⟩, fun _ => rfl⟩

end Header

theorem scan_le (buf : Buffer) : 1 ≤ scan buf 1 ∧ scan buf 1 ≤ 16 := by
  have h := (List.takeWhile_prefix (· ≠ (255 : UInt8)) (l := load buf 1 15)).length_le
  rw [length_load] at h
  change 1 ≤ 1 + ((load buf 1 15).takeWhile _).length ∧ 1 + ((load buf 1 15).takeWhile _).length ≤ 16
  omega

theorem scan_skips (buf : Buffer) {j : Nat} (h1 : 1 ≤ j) (hj : j < scan buf 1) : buf j ≠ 255 := by
  change j < 1 + ((load buf 1 15).takeWhile _).length at hj
  have hlt : j - 1 < ((load buf 1 15).takeWhile (· ≠ 255)).length := by omega
  have hmem := List.mem_takeWhile_imp (List.getElem_mem hlt)
  have hpre := List.takeWhile_prefix (· ≠ (255 : UInt8)) (l := load buf 1 15)
  rw [hpre.getElem, getElem_load] at hmem
  have he : 1 + (j - 1) = j := by omega
  simpa [he] using hmem

section Loop
variable {p : Program} {s : List UInt8}

/-- A shift and a refill move the window. -/
theorem Window.shift {k n : Nat} {i : Input} (h : Window s k i) (hn : n ≤ 16)
    (hin : k + n + 16 ≤ s.length) :
    Window s (k + n) ((i.setSbn.shift n).take (16 - n) n) where
  inside := hin
  bytes := by
    have hr : (i.rest.take n).length = n := by
      rw [h.rest, List.length_take, List.length_drop]
      omega
    have hs := load_store i.buf 0 (load i.buf n (16 - n))
    rw [length_load] at hs
    have happ := load_store_append (store i.buf 0 (load i.buf n (16 - n))) 0 (16 - n) (i.rest.take n)
    rw [hr, Nat.sub_add_cancel hn, Nat.zero_add, hs] at happ
    have hold : load i.buf n (16 - n) = ((s.drop k).take 16).drop n := by
      have hd := load_drop i.buf 0 (16 - n) n
      rw [Nat.add_sub_cancel' hn, Nat.zero_add, h.bytes] at hd
      exact hd.symm
    have hnew : s.drop (k + 16) = (s.drop (k + n)).drop (16 - n) := by
      rw [List.drop_drop]
      congr 1
      omega
    simp only [Input.take_buf, Input.shift_buf, Input.shift_rest, Input.setSbn_buf, Input.setSbn_rest]
    rw [happ, hold, h.rest, hnew, List.drop_take, List.drop_drop, ← List.take_add,
      Nat.sub_add_cancel hn]
  rest := by
    simp only [Input.take_rest, Input.shift_rest, Input.setSbn_rest, h.rest, List.drop_drop]
    congr 1
    omega

/-- A refill takes a byte at least, so the loop ends within its fuel. -/
theorem syncLoop_ne_hang (p : Program) (fuel : Nat) (i : Input) (h : i.rest.length < fuel) :
    (syncLoop p fuel i).Ends (fun _ => True) (fun e _ => e ≠ .hang) := by
  induction fuel generalizing i with
  | zero => omega
  | succ fuel ih =>
    have hscan := scan_le i.buf
    rw [syncLoop]
    refine Flow.ends_ite (fun _ => trivial) fun _ => ?_
    refine Flow.ends_ite (fun _ => nofun) fun _ => ?_
    refine Flow.Ends.bind (P := fun j => j.rest.length < fuel)
      ((Input.read_ends ..).mono ?_ ?_) (fun j hj => ih j hj)
    · rintro j ⟨rfl, -, hj⟩
      simp only [Input.take_rest, Input.shift_rest, Input.setSbn_rest, Int.toNat_natCast,
        List.length_drop] at hj ⊢
      omega
    · rintro e j ⟨-, rfl | rfl⟩ <;> nofun

theorem sync_ne_hang (p : Program) (i : Input) :
    (sync p i).Ends (fun _ => True) (fun e _ => e ≠ .hang) := by
  refine Flow.Ends.bind (P := fun _ => True) ((Input.read_ends ..).mono (fun _ _ => trivial) ?_) ?_
  · rintro e j ⟨-, rfl | rfl⟩ <;> nofun
  · rintro j -
    refine Flow.ends_ite (fun _ => nofun) fun _ => ?_
    refine Flow.Ends.bind (P := fun _ => True)
      ((Input.read_ends ..).mono (fun _ _ => trivial) ?_) ?_
    · rintro e j ⟨-, rfl | rfl⟩ <;> nofun
    · exact fun j _ => syncLoop_ne_hang p _ j (Nat.lt_succ_self _)

/-- Where the search is after an attempt that did not get to `q`. -/
structure Short (s : List UInt8) (k q : Nat) (e : Exit) (i : Input) : Prop where
  exit : e = .again .notSync ∨ e = .again .badSbn
  moved : ∃ k', k < k' ∧ k' ≤ q ∧ i.rest = s.drop k'

/-- The inner loop: windows move over bytes that start no header only. -/
theorem syncLoop_ends {q : Nat} (hp : p.Serves 16) (hq : HeaderAt s q) (fuel k : Nat) (i : Input)
    (hk : k ≤ q) (hmin : ∀ j, k ≤ j → j < q → ¬ HeaderAt s j) (hw : Window s k i)
    (hf : i.rest.length < fuel) :
    (syncLoop p fuel i).Ends (Window s q) (Short s k q) := by
  induction fuel generalizing k i with
  | zero => omega
  | succ fuel ih =>
    have hscan := scan_le i.buf
    have hin := hq.1
    rw [syncLoop]
    refine Flow.ends_ite (fun hr => ?_) fun hr => ?_
    · have hkq : k = q := by
        by_contra hne
        exact hmin k (Nat.le_refl k) (by omega) ((hw.readsbn_iff _).1 hr)
      subst hkq
      exact ⟨hw.inside, hw.bytes, hw.rest⟩
    · have hne : k ≠ q := by
        rintro rfl
        exact hr ((hw.readsbn_iff _).2 hq)
      -- the bytes in front of the next candidate are not 255
      have hskip : k + scan i.buf 1 ≤ q := by
        by_contra hlt
        refine scan_skips i.buf (j := q - k) (by omega) (by omega) ?_
        rw [hw.cell (by omega), Nat.add_sub_cancel' hk]
        exact hq.2.1
      refine Flow.ends_ite (fun hlast => ?_) fun hnext => ?_
      · exact ⟨.inr rfl, k + 16, by omega, by omega, hw.rest⟩
      · have hlen : scan i.buf 1 ≤ i.rest.length := by
          rw [hw.rest, List.length_drop]
          omega
        have hne' : i.rest ≠ [] := List.ne_nil_of_length_pos (Nat.lt_of_lt_of_le hscan.1 hlen)
        rw [Input.read_go (i := i.setSbn.shift (scan i.buf 1)) hp hscan.2 hlen hne']
        refine (ih (k + scan i.buf 1) _ hskip (fun j h1 h2 => hmin j (by omega) h2)
          (hw.shift hscan.2 (by omega)) ?_).mono (fun _ h => h) ?_
        · simp only [Input.take_rest, Input.shift_rest, Input.setSbn_rest, List.length_drop]
          omega
        · rintro e j ⟨he, k', h1, h2, h3⟩
          exact ⟨he, k', by omega, h2, h3⟩

/-- One attempt, from anywhere before the header. -/
theorem sync_ends {q k : Nat} (hp : p.Serves 16) (hq : HeaderAt s q) (i : Input) (hk : k ≤ q)
    (hmin : ∀ j, k ≤ j → j < q → ¬ HeaderAt s j) (hi : i.rest = s.drop k) :
    (sync p i).Ends (Window s q) (Short s k q) := by
  have hin := hq.1
  have hlen : i.rest.length = s.length - k := by rw [hi, List.length_drop]
  have hne : i.rest ≠ [] := List.ne_nil_of_length_pos (by omega)
  have hbyte : (i.take 0 1).buf 0 = s.getD k 0 := by
    have ht : i.rest.take 1 = [s.getD k 0] := by
      rw [hi, List.drop_eq_getElem_cons (by omega), List.take_succ_cons, List.take_zero]
      simp [List.getD_eq_getElem?_getD, List.getElem?_eq_getElem (show k < s.length by omega)]
    have hs := store_inside i.buf 0 (i.rest.take 1) 0 (by rw [ht]; exact Nat.one_pos)
    simpa [ht] using hs
  unfold sync
  rw [show (1 : Int) = (1 : Nat) from rfl, Input.read_go hp (by decide) (by omega) hne]
  refine Flow.ends_ite (fun hb => ?_) fun hb => ?_
  · refine ⟨.inl rfl, k + 1, by omega, ?_, ?_⟩
    · by_contra hlt
      have hkq : k = q := by omega
      subst hkq
      exact hb (by rw [hbyte]; exact hq.2.1)
    · rw [Input.take_rest, hi, List.drop_drop]
  · have hrest : (i.take 0 1).rest = s.drop (k + 1) := by
      rw [Input.take_rest, hi, List.drop_drop]
    have hlen' : (i.take 0 1).rest.length = s.length - (k + 1) := by
      rw [hrest, List.length_drop]
    rw [show (15 : Int) = (15 : Nat) from rfl,
      Input.read_go hp (by decide) (by omega) (List.ne_nil_of_length_pos (by omega))]
    refine syncLoop_ends hp hq _ k _ hk hmin ⟨by omega, ?_, ?_⟩ (Nat.lt_succ_self _)
    · have hl1 : (i.rest.take 1).length = 1 := by rw [List.length_take]; omega
      have hl : ((i.take 0 1).rest.take 15).length = 15 := by rw [List.length_take]; omega
      have h1 := load_store i.buf 0 (i.rest.take 1)
      have h2 := load_store_append (i.take 0 1).buf 0 1 ((i.take 0 1).rest.take 15)
      rw [hl1] at h1
      rw [hl, Input.take_buf, h1] at h2
      rw [Input.take_buf, Input.take_buf]
      rw [Nat.zero_add] at h2
      rw [h2, hi, hrest, show s.drop (k + 1) = (s.drop k).drop 1 by rw [List.drop_drop],
        ← List.take_add]
    · rw [Input.take_rest, hrest, List.drop_drop]

end Loop

/-- The attempts of successive iterations up to the one that accepts. -/
inductive Resync (p : Program) : Input → Input → Prop where
  | here {i j : Input} : sync p i = .go j → Resync p i j
  | again {i i' j : Input} {r : Reason} :
      sync p i = .exit (.again r) i' → Resync p i' j → Resync p i j

theorem Resync.unique {p : Program} {i j k : Input} (h : Resync p i j) (h' : Resync p i k) :
    j = k := by
  induction h with
  | here hs =>
    cases h' with
    | here hs' => exact Flow.go.inj (hs.symm.trans hs')
    | again hs' _ => exact nomatch hs.symm.trans hs'
  | again hs _ ih =>
    cases h' with
    | here hs' => exact nomatch hs.symm.trans hs'
    | again hs' h' =>
      obtain ⟨-, rfl⟩ := Flow.exit.inj (hs.symm.trans hs')
      exact ih h'

/-- These attempts are iterations of the loop. -/
theorem Resync.trace {p : Program} {lib : Library} {i j : Input} (h : Resync p i j) (s : State)
    (hs : s.inp = i) :
    ∃ es t, Trace (Step p lib) s es t ∧ (∀ e ∈ es, ∃ r, e = .skipped r) ∧ t.asm = s.asm ∧
      sync p t.inp = .go j := by
  induction h generalizing s with
  | here hj => exact ⟨[], s, .nil s, by simp, rfl, by rw [hs, hj]⟩
  | @again i i' j r hr _ ih =>
    have hit : iteration p lib s = .exit (.again r) (s.setInp i') := by
      simp only [iteration, front, hs, hr, Flow.within_exit, Flow.bind_exit]
    obtain ⟨es, t, ht, he, ha, hj⟩ := ih (s.setInp i') rfl
    exact ⟨_, t, .cons ⟨_, .inr ⟨r, hit, rfl⟩, rfl, fun _ => rfl⟩ ht,
      by simpa using he, ha, hj⟩

/-- The loop accepts the first valid header at or after `k` and nothing before
it, with the stream just behind it; and no attempt runs for ever. -/
theorem resync_finds_first {p : Program} (lib : Library) (hp : p.Serves 16) (s : List UInt8)
    (k q : Nat) (hk : k ≤ q) (hq : HeaderAt s q) (hmin : ∀ j, k ≤ j → j < q → ¬ HeaderAt s j)
    (st : State) (hst : st.inp.rest = s.drop k) :
    (∃ j, Resync p st.inp j ∧ load j.buf 0 16 = (s.drop q).take 16 ∧ j.rest = s.drop (q + 16) ∧
      (∀ j', Resync p st.inp j' → j' = j) ∧
      ∃ es t, Trace (Step p lib) st es t ∧ (∀ e ∈ es, ∃ r, e = .skipped r) ∧ t.asm = st.asm ∧
        sync p t.inp = .go j) ∧
    ∀ i, (sync p i).Ends (fun _ => True) (fun e _ => e ≠ .hang) := by
  refine ⟨?_, sync_ne_hang p⟩
  have key : ∀ n i k, q - k ≤ n → k ≤ q → (∀ j, k ≤ j → j < q → ¬ HeaderAt s j) →
      i.rest = s.drop k → ∃ j, Resync p i j ∧ Window s q j := by
    intro n
    induction n with
    | zero =>
      intro i k hn hk hmin hi
      have hends := sync_ends hp hq i hk hmin hi
      cases hs : sync p i with
      | go j => exact ⟨j, .here hs, hends.go hs⟩
      | exit e j =>
        obtain ⟨-, k', h1, h2, -⟩ := hends.exit hs
        omega
    | succ n ih =>
      intro i k hn hk hmin hi
      have hends := sync_ends hp hq i hk hmin hi
      cases hs : sync p i with
      | go j => exact ⟨j, .here hs, hends.go hs⟩
      | exit e j =>
        obtain ⟨he, k', h1, h2, h3⟩ := hends.exit hs
        obtain ⟨j', hj, hw⟩ := ih j k' (by omega) h2 (fun m hm => hmin m (by omega)) h3
        rcases he with rfl | rfl
        · exact ⟨j', .again hs hj, hw⟩
        · exact ⟨j', .again hs hj, hw⟩
  obtain ⟨j, hj, hw⟩ := key (q - k) st.inp k (Nat.le_refl _) hk hmin hst
  exact ⟨j, hj, hw.bytes, hw.rest, fun j' hj' => hj'.unique hj, hj.trace st rfl⟩

/-- One stray 255 before the header. -/
def strayByte : List UInt8 := [255, 255, 0, 20, 0, 3, 5, 0, 0, 0, 0, 0, 1, 0, 1, 1, 29]

theorem resync_finds_first_run :
    (∃ j, Resync readnoaaport (State.fresh strayByte .blank).inp j ∧ j.rest = []) ∧
      ∃ j, Resync (pmStart 65536 true) (State.fresh strayByte .blank).inp j ∧ j.rest = [] := by
  have hheader : HeaderAt strayByte 1 ∧ ¬ HeaderAt strayByte 0 := by decide +kernel
  have hfinds (p : Program) (hp : p.Serves 16) :
      ∃ j, Resync p (State.fresh strayByte .blank).inp j ∧ j.rest = [] := by
    have hmin (j : Nat) (_ : 0 ≤ j) (hj : j < 1) : ¬ HeaderAt strayByte j := by
      obtain rfl : j = 0 := by omega
      exact hheader.2
    obtain ⟨j, hj, -, hrest, -⟩ := (resync_finds_first .plain hp strayByte 0 1 (by decide) hheader.1 hmin
      (State.fresh strayByte .blank) rfl).1
    exact ⟨j, hj, hrest⟩
  exact ⟨hfinds _ (readnoaaport_serves 16), hfinds _ (pmStart_serves true (by decide))⟩

end Noaaport
