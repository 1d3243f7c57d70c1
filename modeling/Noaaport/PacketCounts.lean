import Noaaport.HeaderCodec
import Noaaport.Statistics

/-! What the counters of packets add up to over a run, and which packets are
taken for what they are. -/
namespace Noaaport
open Lib

section Sums
variable {size : Nat} {closed : Bool} {lib : Library} {s t : State} {ws : List Work}

theorem nsmul_product (n : Nat) : n • Counters.product = ⟨0, 0, UInt64.ofNat n⟩ := by
  induction n with
  | zero => rfl
  | succ n ih =>
    rw [succ_nsmul, ih, UInt64.ofNat_add]
    rfl

/-- The sections for packets that are accepted one after the other. -/
def sectionsOf (st : Stats) : List Sbn → List Counters
  | [] => []
  | k :: ks => (classify st k).sections ++ sectionsOf (pmAccount st k) ks

theorem sectionsOf_concat (st : Stats) (ks : List Sbn) (k : Sbn) :
    sectionsOf st (ks ++ [k]) = sectionsOf st ks ++ (classify (ks.foldl pmAccount st) k).sections := by
  induction ks generalizing st with
  | nil => simp [sectionsOf]
  | cons k' ks ih => simp [sectionsOf, ih]

def packets (ws : List Work) : List Input := ws.filterMap Work.packet
def sections (ws : List Work) : List Counters := ws.flatMap Work.sections

theorem calls_le {e : Event} {p : Program} (h : Step p lib s e t) :
    s.asm.calls.length ≤ t.asm.calls.length := by
  cases step_handover h with
  | none h => exact Nat.le_of_eq (congrArg List.length h.calls).symm
  | one c _ hc _ => exact (congrArg List.length hc).symm ▸ (List.length_append ▸ Nat.le_add_right _ _)

/-- What a run adds to the counters: for its packets, one after the other, and one
for each call of `process_prod`. -/
theorem trace_sections (h : Trace (Works (pmStart size closed) lib) s ws t) :
    t.inp.stats = ((packets ws).map Input.sbn).foldl pmAccount s.inp.stats ∧
      s.asm.calls.length ≤ t.asm.calls.length ∧
      (sections ws).sum = (sectionsOf s.inp.stats ((packets ws).map Input.sbn)).sum +
        (t.asm.calls.length - s.asm.calls.length) • Counters.product := by
  induction h with
  | nil s => simp [packets, sections, sectionsOf]
  | @cons s u t w ws hw _ ih =>
    obtain ⟨⟨e, hstep⟩, rfl⟩ := hw
    obtain ⟨hstats, hlen, hsum⟩ := ih
    have hle := calls_le hstep
    have hu : u.inp.stats = accountedStats (pmStart size closed) s := by
      cases step_handover hstep with
      | none h => exact h.stats
      | one _ h _ _ => exact h
    have hcalls : t.asm.calls.length - s.asm.calls.length =
        (u.asm.calls.length - s.asm.calls.length) + (t.asm.calls.length - u.asm.calls.length) := by
      omega
    have hcons : sections (work (pmStart size closed) s u :: ws) =
        (work (pmStart size closed) s u).sections ++ sections ws := rfl
    rw [hcons, hcalls, List.sum_append, hsum, hstats, hu, add_nsmul]
    unfold accountedStats work packetSections packets
    cases ha : accepted (pmStart size closed) s with
    | none =>
      refine ⟨by simp, by omega, ?_⟩
      simp only [List.filterMap_cons, List.nil_append, List.sum_replicate]
      rw [add_left_comm]
    | some i =>
      refine ⟨by simp [pmStart], by omega, ?_⟩
      simp only [List.filterMap_cons, List.map_cons, sectionsOf, List.sum_append, List.sum_replicate]
      ac_rfl

/-- Behind an accepted packet its numbers are the ones to compare with. -/
theorem trace_last (h : Trace (Works (pmStart size closed) lib) s ws t) {i : Input}
    (hi : (packets ws).getLast? = some i) :
    t.inp.stats.lastSeqno = i.sbn.seqno ∧ t.inp.stats.lastRunno = UInt64.ofNat i.sbn.runno := by
  obtain ⟨is, his⟩ := List.getLast?_eq_some_iff.1 hi
  have hstats := (trace_sections h).1
  rw [his, List.map_append, List.foldl_append] at hstats
  rw [hstats]
  simp only [List.map_cons, List.map_nil, List.foldl_cons, List.foldl_nil, pmAccount_eq, and_self]

end Sums
section Numbers
variable {i j : Input} {st : Stats} {sbn : Sbn}

/-- A 32-bit number as it comes out of the decoder. -/
def extended (n : Nat) : Nat := if n < 2 ^ 31 then n else n + (2 ^ 64 - 2 ^ 32)

theorem wireSeqno_lt (buf : Buffer) : wireSeqno buf < 2 ^ 32 := by
  have h8 := be16_lt buf 8
  have h10 := be16_lt buf 10
  unfold wireSeqno
  omega

theorem Decoded.toNat_seqno (h : Decoded i) : i.sbn.seqno.toNat = extended (wireSeqno i.buf) := by
  have hlt := wireSeqno_lt i.buf
  have hint : be32 i.buf 8 =
      if wireSeqno i.buf < 2 ^ 31 then (wireSeqno i.buf : Int) else wireSeqno i.buf - 2 ^ 32 := rfl
  rw [h.seqno, UInt64.ofInt, UInt64.toNat_ofNat', hint]
  unfold extended
  split_ifs <;> omega

/-- The classification in terms of the difference. -/
theorem classify_eq {D : Nat} (hrun : st.lastRunno = UInt64.ofNat sbn.runno)
    (hD : (sbn.seqno - st.lastSeqno).toNat = D) :
    classify st sbn =
      if D = 0 ∨ 2 ^ 31 - 1 < D then .retrograde else .forward (UInt64.ofNat (D - 1)) := by
  have hdelta : sbn.seqno - st.lastSeqno = UInt64.ofNat D := by rw [← hD, UInt64.ofNat_toNat]
  have hlt : D < 2 ^ 64 := hD ▸ UInt64.toNat_lt _
  have hzero : UInt64.ofNat D = 0 ↔ D = 0 := by
    rw [← UInt64.toNat_inj, UInt64.toNat_ofNat', Nat.mod_eq_of_lt hlt]
    rfl
  have hbig : 0x7FFFFFFF < UInt64.ofNat D ↔ 2 ^ 31 - 1 < D := by
    rw [UInt64.lt_iff_toNat_lt, UInt64.toNat_ofNat', Nat.mod_eq_of_lt hlt]
    rfl
  unfold classify
  rw [if_neg (not_not.2 hrun)]
  simp only [hdelta, hzero, hbig]
  refine ite_congr rfl (fun _ => rfl) fun hpos => ?_
  have hone : 1 ≤ D := by omega
  rw [UInt64.ofNat_sub hone]
  rfl

/-- What a packet `d` behind its predecessor, modulo `2 ^ 32`, should be taken for. -/
def expected (d : Nat) : Sequence :=
  if 1 ≤ d ∧ d ≤ 2 ^ 31 - 1 then .forward (UInt64.ofNat (d - 1)) else .retrograde

structure CountedRight (st : Stats) (sbn : Sbn) (d : Nat) : Prop where
  verdict : classify st sbn = expected d
  npackets : (pmAccount st sbn).npackets = st.npackets + if 1 ≤ d ∧ d ≤ 2 ^ 31 - 1 then 1 else 0
  nmissed : (pmAccount st sbn).nmissed =
    st.nmissed + if 1 ≤ d ∧ d ≤ 2 ^ 31 - 1 then UInt64.ofNat (d - 1) else 0

theorem countedRight_iff {d : Nat} : CountedRight st sbn d ↔ classify st sbn = expected d := by
  refine ⟨fun h => h.verdict, fun h => ⟨h, ?_, ?_⟩⟩
  all_goals
    rw [pmAccount_eq, h]
    unfold expected
    split_ifs
  · simp only [sum_sections_forward]
  · simp [Sequence.sections]
  · simp only [sum_sections_forward]
  · simp [Sequence.sections]

/-- From the lower half of the numbers to the upper half, less than half the way on. -/
def CrossesSign (a b : Nat) : Prop := a < 2 ^ 31 ∧ 2 ^ 31 ≤ b ∧ b - a < 2 ^ 31

instance (a b : Nat) : Decidable (CrossesSign a b) := inferInstanceAs (Decidable (_ ∧ _ ∧ _))

/-- The difference as the code takes it, and modulo `2 ^ 32`. -/
def delta64 (a b : Nat) : Nat := (2 ^ 64 - extended a + extended b) % 2 ^ 64
def delta32 (a b : Nat) : Nat := (b + 2 ^ 32 - a) % 2 ^ 32

theorem crossing {a b : Nat} (h : CrossesSign a b) :
    2 ^ 31 - 1 < delta64 a b ∧ 1 ≤ delta32 a b ∧ delta32 a b ≤ 2 ^ 31 - 1 := by
  obtain ⟨ha, hb, hd⟩ := h
  unfold delta64 delta32 extended
  rw [if_pos ha, if_neg (by omega)]
  omega

theorem not_crossing {a b : Nat} (ha : a < 2 ^ 32) (hb : b < 2 ^ 32) (h : ¬ CrossesSign a b) :
    (delta64 a b = 0 ∨ 2 ^ 31 - 1 < delta64 a b ↔ ¬ (1 ≤ delta32 a b ∧ delta32 a b ≤ 2 ^ 31 - 1)) ∧
      (1 ≤ delta32 a b ∧ delta32 a b ≤ 2 ^ 31 - 1 → delta64 a b = delta32 a b) := by
  unfold CrossesSign at h
  unfold delta64 delta32 extended
  split_ifs <;> omega

theorem classify_iff {a b : Nat} (ha : a < 2 ^ 32) (hb : b < 2 ^ 32)
    (hrun : st.lastRunno = UInt64.ofNat sbn.runno) (hlast : st.lastSeqno.toNat = extended a)
    (hseqno : sbn.seqno.toNat = extended b) :
    classify st sbn = expected (delta32 a b) ↔ ¬ CrossesSign a b := by
  have hdelta : (sbn.seqno - st.lastSeqno).toNat = delta64 a b := by
    rw [UInt64.toNat_sub, hlast, hseqno, delta64]
  rw [classify_eq hrun hdelta]
  unfold expected
  by_cases hc : CrossesSign a b
  · obtain ⟨hbig, hlow⟩ := crossing hc
    rw [if_pos (.inr hbig), if_pos hlow]
    exact ⟨nofun, fun h => absurd hc h⟩
  · obtain ⟨hiff, heq⟩ := not_crossing ha hb hc
    refine ⟨fun _ => hc, fun _ => ?_⟩
    by_cases hlow : 1 ≤ delta32 a b ∧ delta32 a b ≤ 2 ^ 31 - 1
    · rw [if_neg (mt hiff.1 (not_not.2 hlow)), if_pos hlow, heq hlow]
    · rw [if_pos (hiff.2 hlow), if_neg hlow]

end Numbers
section Instances

/-- The packets of a test: an SBN header that nothing but the accounting looks at, and
room for a PDH. -/
def testSbn (seqno : UInt32) : SbnWire :=
  { lateSbn with command := 10, isCommand := .inr (.inr rfl), seqno }

def testPacket (seqno : UInt32) : List UInt8 := (testSbn seqno).bytes ++ List.replicate 16 0

/-- Up to `n` iterations, with what they do to the counters. -/
def iterateWorks (p : Program) (lib : Library) : Nat → State → List Work × State
  | 0, s => ([], s)
  | n + 1, s =>
    match iteration p lib s with
    | .go t => (work p s t :: (iterateWorks p lib n t).1, (iterateWorks p lib n t).2)
    | .exit (.again _) t => (work p s t :: (iterateWorks p lib n t).1, (iterateWorks p lib n t).2)
    | .exit _ _ => ([], s)

theorem iterateWorks_trace (p : Program) (lib : Library) (n : Nat) (s : State) :
    Trace (Works p lib) s (iterateWorks p lib n s).1 (iterateWorks p lib n s).2 := by
  induction n generalizing s with
  | zero => exact .nil s
  | succ n ih =>
    rw [iterateWorks]
    split
    · next t ht => exact .cons ⟨⟨_, t, .inl ⟨ht, rfl⟩, rfl, fun _ => rfl⟩, rfl⟩ (ih t)
    · next r t ht => exact .cons ⟨⟨_, t, .inr ⟨r, ht, rfl⟩, rfl, fun _ => rfl⟩, rfl⟩ (ih t)
    · exact .nil s

/-- Two packets one after the other. -/
def twoPackets (a b : UInt32) : State := State.fresh (testPacket a ++ testPacket b) .blank

def counted (n : Nat) (s : State) : List Work × State := iterateWorks (pmStart 10000 false) .plain n s

end Instances

section Gaps
variable {size : Nat} {closed : Bool} {lib : Library} {s t : State} {ws : List Work} {i j : Input}

theorem trace_decoded {p : Program} (h : Trace (Works p lib) s ws t) :
    ∀ i ∈ packets ws, Decoded i := by
  induction h with
  | nil => exact nofun
  | @cons s u t w ws hw _ ih =>
    intro i hi
    obtain ⟨-, rfl⟩ := hw
    obtain ⟨v, hv, hpacket⟩ := List.mem_filterMap.1 hi
    obtain rfl | hmem := List.mem_cons.1 hv
    · exact accepted_decoded hpacket
    · exact ih i (List.mem_filterMap.2 ⟨v, hmem, hpacket⟩)

/-- A packet is taken for what it is, and counted for it, unless its number is in the
upper half and the one before it was in the lower half, less than half the way back. -/
theorem gap_classified_iff (h : Trace (Works (pmStart size closed) lib) s ws t)
    (hi : (packets ws).getLast? = some i) (hj : accepted (pmStart size closed) t = some j)
    (hrun : wireRunno i.buf = wireRunno j.buf) :
    CountedRight t.inp.stats j.sbn (delta32 (wireSeqno i.buf) (wireSeqno j.buf)) ↔
      ¬ CrossesSign (wireSeqno i.buf) (wireSeqno j.buf) := by
  have hdi := trace_decoded h i (List.mem_of_getLast? hi)
  have hdj := accepted_decoded hj
  obtain ⟨hseqno, hrunno⟩ := trace_last h hi
  rw [countedRight_iff]
  refine classify_iff (wireSeqno_lt _) (wireSeqno_lt _) ?_ ?_ hdj.toNat_seqno
  · rw [hrunno, hdi.runno, hdj.runno, hrun]
  · rw [hseqno, hdi.toNat_seqno]

theorem gap_classified_iff_run :
    ∃ (t : State) (j : Input), accepted (pmStart 10000 false) t = some j ∧
      wireSeqno j.buf = 8 ∧ CountedRight t.inp.stats j.sbn 3 := by
  have hlast : (packets (counted 1 (twoPackets 5 8)).1).getLast?.map (fun i => (wireSeqno i.buf, wireRunno i.buf)) =
      some (5, 1) := by
    decide +kernel
  have hnext : (accepted (pmStart 10000 false) (counted 1 (twoPackets 5 8)).2).map
      (fun j => (wireSeqno j.buf, wireRunno j.buf)) = some (8, 1) := by
    decide +kernel
  obtain ⟨i, hi, hieq⟩ := Option.map_eq_some_iff.1 hlast
  obtain ⟨j, hj, hjeq⟩ := Option.map_eq_some_iff.1 hnext
  obtain ⟨hi1, hi2⟩ := Prod.mk.inj hieq
  obtain ⟨hj1, hj2⟩ := Prod.mk.inj hjeq
  have hright := (gap_classified_iff (iterateWorks_trace _ _ 1 (twoPackets 5 8)) hi hj
    (hi2.trans hj2.symm)).2 (by rw [hi1, hj1]; decide)
  rw [hi1, hj1] at hright
  exact ⟨_, j, hj, hj1, hright⟩

/-- The number after `0x7FFFFFFF` is taken for a retrograde one. -/
theorem sign_crossing_retrograde :
    ∃ (ws : List Work) (t : State) (i j : Input),
      Trace (Works (pmStart 10000 false) .plain) (twoPackets 0x7FFFFFFF 0x80000000) ws t ∧
      (packets ws).getLast? = some i ∧ accepted (pmStart 10000 false) t = some j ∧
      wireRunno i.buf = wireRunno j.buf ∧ delta32 (wireSeqno i.buf) (wireSeqno j.buf) = 1 ∧
      classify t.inp.stats j.sbn = .retrograde ∧ ¬ CountedRight t.inp.stats j.sbn 1 := by
  have hlast : (packets (counted 1 (twoPackets 0x7FFFFFFF 0x80000000)).1).getLast?.map
      (fun i => (wireSeqno i.buf, wireRunno i.buf)) = some (0x7FFFFFFF, 1) := by
    decide +kernel
  have hnext : (accepted (pmStart 10000 false) (counted 1 (twoPackets 0x7FFFFFFF 0x80000000)).2).map
      (fun j => ((wireSeqno j.buf, wireRunno j.buf),
        classify (counted 1 (twoPackets 0x7FFFFFFF 0x80000000)).2.inp.stats j.sbn)) =
      some ((0x80000000, 1), .retrograde) := by
    decide +kernel
  obtain ⟨i, hi, hieq⟩ := Option.map_eq_some_iff.1 hlast
  obtain ⟨j, hj, hjeq⟩ := Option.map_eq_some_iff.1 hnext
  obtain ⟨hi1, hi2⟩ := Prod.mk.inj hieq
  obtain ⟨hjeq, hretro⟩ := Prod.mk.inj hjeq
  obtain ⟨hj1, hj2⟩ := Prod.mk.inj hjeq
  refine ⟨_, _, i, j, iterateWorks_trace _ _ 1 _, hi, hj, hi2.trans hj2.symm, ?_, hretro, ?_⟩
  · rw [hi1, hj1]
    decide
  · intro hright
    exact absurd (hretro.symm.trans hright.verdict) (by decide)

end Gaps

section Conservation
variable {size : Nat} {closed : Bool} {lib : Library} {s t : State} {ws : List Work}
  {es : List (Locked Counters)} {m r : Nat} {ns : List Nat}

/-- A run, and what the iteration under way has accounted. -/
inductive Running (p : Program) (lib : Library) (s : State) : List Work → Prop where
  | ended {ws : List Work} {t : State} (h : Trace (Works p lib) s ws t) : Running p lib s ws
  | underWay {ws : List Work} {t : State} (h : Trace (Works p lib) s ws t) :
      Running p lib s (ws ++ [{ packet := accepted p t, sections := packetSections p t }])

/-- All values reported of one counter and its current one, from zero on. -/
def tally (f : Counters → UInt64) (es : List (Locked Counters)) : UInt64 :=
  ((Locked.run 0 es).1.map f).sum + f (Locked.run 0 es).2

def npacketsHom : Counters →+ UInt64 := ⟨⟨Counters.npackets, rfl⟩, fun _ _ => rfl⟩
def nmissedHom : Counters →+ UInt64 := ⟨⟨Counters.nmissed, rfl⟩, fun _ _ => rfl⟩
def nprodsHom : Counters →+ UInt64 := ⟨⟨Counters.nprods, rfl⟩, fun _ _ => rfl⟩

/-- However the reports fall, the sum is what has been added. -/
theorem tally_eq (f : Counters →+ UInt64) (hes : Locked.added es = sections ws) :
    tally f es = f (sections ws).sum := by
  rw [tally, Locked.total_map f 0 es, map_zero, zero_add, hes, map_list_sum]

theorem Running.sums (h : Running (pmStart size closed) lib s ws) :
    (∀ i ∈ packets ws, Decoded i) ∧ ∃ n : Nat,
      (sections ws).sum =
        (sectionsOf s.inp.stats ((packets ws).map Input.sbn)).sum + n • Counters.product := by
  cases h with
  | ended h => exact ⟨trace_decoded h, _, (trace_sections h).2.2⟩
  | @underWay ws t h =>
    obtain ⟨hstats, -, hsum⟩ := trace_sections h
    have hsections : ∀ w, sections (ws ++ [w]) = sections ws ++ w.sections := by
      intro w
      simp [sections]
    cases ha : accepted (pmStart size closed) t with
    | none =>
      have hp : packets (ws ++ [⟨none, packetSections (pmStart size closed) t⟩]) = packets ws := by
        simp [packets]
      rw [hp, hsections]
      refine ⟨trace_decoded h, t.asm.calls.length - s.asm.calls.length, ?_⟩
      simp only [packetSections, ha, List.append_nil]
      exact hsum
    | some i =>
      have hp : packets (ws ++ [⟨some i, packetSections (pmStart size closed) t⟩]) = packets ws ++ [i] := by
        simp [packets]
      rw [hp, hsections]
      constructor
      · intro k hk
        obtain hk | hk := List.mem_append.1 hk
        · exact trace_decoded h k hk
        · rw [List.mem_singleton.1 hk]
          exact accepted_decoded ha
      · refine ⟨t.asm.calls.length - s.asm.calls.length, ?_⟩
        simp only [packetSections, ha]
        rw [List.map_append, List.map_cons, List.map_nil, sectionsOf_concat, List.sum_append, List.sum_append,
          hsum, hstats]
        ac_rfl

/-- Every number from the first to the last is counted once, and every packet as
received. -/
structure Conserved (m : Nat) (ns : List Nat) (es : List (Locked Counters)) : Prop where
  span : tally Counters.npackets es + tally Counters.nmissed es =
    UInt64.ofNat (ns.getLastD m - m + 1)
  received : tally Counters.npackets es = UInt64.ofNat (ns.length + 1)

theorem Decoded.seqno_of_lt {i : Input} (h : Decoded i) (hlt : wireSeqno i.buf < 2 ^ 31) :
    i.sbn.seqno.toNat = wireSeqno i.buf := by
  rw [h.toNat_seqno, extended, if_pos hlt]

/-- Numbers that grow from one known before: each packet counts, and so do the
numbers left out. -/
theorem sectionsOf_increasing (is : List Input) (st : Stats) (m : Nat) (hd : ∀ i ∈ is, Decoded i)
    (hrun : ∀ i ∈ is, wireRunno i.buf = r) (hst : st.lastRunno = UInt64.ofNat r)
    (hm : st.lastSeqno.toNat = m) (hinc : (m :: is.map fun i => wireSeqno i.buf).Pairwise (· < ·))
    (hlt : ∀ i ∈ is, wireSeqno i.buf < 2 ^ 31) :
    (sectionsOf st (is.map Input.sbn)).sum.npackets = UInt64.ofNat is.length ∧
      (sectionsOf st (is.map Input.sbn)).sum.npackets + (sectionsOf st (is.map Input.sbn)).sum.nmissed =
        UInt64.ofNat ((is.map fun i => wireSeqno i.buf).getLastD m - m) := by
  induction is generalizing st m with
  | nil => simp [sectionsOf]
  | cons i is ih =>
    obtain ⟨hfirst, hrest⟩ := List.pairwise_cons.1 hinc
    have hi := hd i (List.mem_cons_self ..)
    have hseqno := hi.seqno_of_lt (hlt i (List.mem_cons_self ..))
    have hmi : m < wireSeqno i.buf := hfirst _ (List.mem_cons_self ..)
    have hi31 := hlt i (List.mem_cons_self ..)
    have hrunno : UInt64.ofNat i.sbn.runno = UInt64.ofNat r := by
      rw [hi.runno, hrun i (List.mem_cons_self ..)]
    have hdelta : (i.sbn.seqno - st.lastSeqno).toNat = wireSeqno i.buf - m := by
      rw [UInt64.toNat_sub, hseqno, hm]
      omega
    have hclass : classify st i.sbn = .forward (UInt64.ofNat (wireSeqno i.buf - m - 1)) := by
      rw [classify_eq (hst.trans hrunno.symm) hdelta, if_neg (by omega)]
    obtain ⟨hcount, hspan⟩ := ih (pmAccount st i.sbn) (wireSeqno i.buf)
      (fun k hk => hd k (List.mem_cons_of_mem _ hk)) (fun k hk => hrun k (List.mem_cons_of_mem _ hk))
      (by rw [pmAccount_eq]; exact hrunno) (by rw [pmAccount_eq]; exact hseqno) hrest
      (fun k hk => hlt k (List.mem_cons_of_mem _ hk))
    rw [List.map_cons, List.map_cons, sectionsOf, List.sum_append, hclass, sum_sections_forward]
    have hlast : wireSeqno i.buf ≤ (is.map fun i => wireSeqno i.buf).getLastD (wireSeqno i.buf) := by
      obtain heq | hmem := List.mem_cons.1 (List.getLastD_mem_cons
        (l := is.map fun i => wireSeqno i.buf) (a := wireSeqno i.buf))
      · exact Nat.le_of_eq heq.symm
      · exact Nat.le_of_lt ((List.pairwise_cons.1 hrest).1 _ hmem)
    constructor
    · rw [Counters.npackets_add, hcount, List.length_cons, UInt64.ofNat_add, add_comm]
      rfl
    · rw [Counters.npackets_add, Counters.nmissed_add, add_add_add_comm, hspan, List.getLastD_cons]
      have hone : (1 : UInt64) + UInt64.ofNat (wireSeqno i.buf - m - 1) =
          UInt64.ofNat (wireSeqno i.buf - m) := by
        rw [← UInt64.ofNat_one, ← UInt64.ofNat_add]
        congr 1
        omega
      rw [hone, ← UInt64.ofNat_add]
      congr 1
      omega

/-- With `m` the first number of the run and `ns` the numbers after it: the first packet is
not counted, so both sums stay one behind. -/
theorem packets_never_conserved (h : Running (pmStart size closed) lib s ws)
    (h0 : s.inp.stats.lastRunno = UInt64.ofInt (-1))
    (hseq : (packets ws).map (fun i => wireSeqno i.buf) = m :: ns)
    (hrun : ∀ i ∈ packets ws, wireRunno i.buf = r) (hinc : (m :: ns).Pairwise (· < ·))
    (hlt : ∀ n ∈ m :: ns, n < 2 ^ 31) (hes : Locked.added es = sections ws) :
    tally Counters.npackets es + tally Counters.nmissed es = UInt64.ofNat (ns.getLastD m - m) ∧
      tally Counters.npackets es = UInt64.ofNat ns.length ∧ ¬ Conserved m ns es := by
  obtain ⟨hd, n, hsum⟩ := h.sums
  obtain ⟨i, is, hp, him, hisns⟩ := List.map_eq_cons_iff.1 hseq
  rw [hp] at hd hrun hsum
  have hdi := hd i (List.mem_cons_self ..)
  have hnew : classify s.inp.stats i.sbn = .newRun := by
    have hr := be16_lt i.buf 12
    have hne : s.inp.stats.lastRunno ≠ UInt64.ofNat i.sbn.runno := by
      rw [h0, hdi.runno]
      intro heq
      have hval := congrArg UInt64.toNat heq
      rw [UInt64.ofInt, UInt64.toNat_ofNat', UInt64.toNat_ofNat'] at hval
      unfold wireRunno at hval
      omega
    rw [classify, if_pos hne]
  have hlt' : ∀ k ∈ i :: is, wireSeqno k.buf < 2 ^ 31 := by
    intro k hk
    refine hlt _ ?_
    rw [← him, ← hisns]
    exact List.mem_map_of_mem (f := fun i : Input => wireSeqno i.buf) hk
  have hrunno : UInt64.ofNat i.sbn.runno = UInt64.ofNat r := by
    rw [hdi.runno, hrun i (List.mem_cons_self ..)]
  obtain ⟨hcount, hspan⟩ := sectionsOf_increasing is (pmAccount s.inp.stats i.sbn) m
    (fun k hk => hd k (List.mem_cons_of_mem _ hk)) (fun k hk => hrun k (List.mem_cons_of_mem _ hk))
    (by rw [pmAccount_eq]; exact hrunno)
    (by rw [pmAccount_eq]; exact (hdi.seqno_of_lt (hlt' i (List.mem_cons_self ..))).trans him)
    (by rw [hisns]; exact hinc) (fun k hk => hlt' k (List.mem_cons_of_mem _ hk))
  rw [List.map_cons, sectionsOf, hnew, Sequence.sections, List.nil_append, nsmul_product] at hsum
  rw [hisns] at hspan
  have hlen : is.length = ns.length := by rw [← hisns, List.length_map]
  have hpackets : tally Counters.npackets es = UInt64.ofNat ns.length := by
    have heq := tally_eq npacketsHom hes
    rw [hsum] at heq
    refine heq.trans ?_
    rw [← hlen, ← hcount]
    exact add_zero _
  have hmissed : tally Counters.nmissed es =
      (sectionsOf (pmAccount s.inp.stats i.sbn) (is.map Input.sbn)).sum.nmissed := by
    have heq := tally_eq nmissedHom hes
    rw [hsum] at heq
    exact heq.trans (add_zero _)
  refine ⟨?_, hpackets, fun hcons => ?_⟩
  · rw [hpackets, hmissed, ← hlen, ← hcount]
    exact hspan
  · have hone : (0 : UInt64) = 1 := by
      refine add_left_cancel (a := UInt64.ofNat ns.length) ?_
      have hrec := hcons.received
      rw [hpackets, UInt64.ofNat_add] at hrec
      rw [add_zero]
      exact hrec
    exact absurd hone (by decide)

theorem packets_never_conserved_run :
    ¬ Conserved 5 [8] ((sections (counted 2 (twoPackets 5 8)).1).map .add) :=
  (packets_never_conserved (r := 1) (.ended (iterateWorks_trace _ _ 2 (twoPackets 5 8))) rfl
    (by decide +kernel) (by decide +kernel) (by decide) (by decide) (Locked.added_map_add _)).2.2

/-- Packets 5 and 8, with a report between the two sections of the second one: 4 numbers,
of which 3 are counted, and 2 packets, of which 1 is. -/
theorem first_packet_not_counted :
    Trace (Works (pmStart 10000 false) .plain) (twoPackets 5 8) (counted 2 (twoPackets 5 8)).1
        (counted 2 (twoPackets 5 8)).2 ∧
      (packets (counted 2 (twoPackets 5 8)).1).map (fun i => wireSeqno i.buf) = [5, 8] ∧
      sections (counted 2 (twoPackets 5 8)).1 = [.missed 2, .packet] ∧
      ¬ Conserved 5 [8] [.add (.missed 2), .report, .add .packet] := by
  refine ⟨iterateWorks_trace _ _ 2 _, by decide +kernel, by decide +kernel, ?_⟩
  intro hcons
  exact absurd hcons.received (by decide)

end Conservation
end Noaaport
