import Mathlib.Data.UInt
import Noaaport.Lib.Tally
import Noaaport.Arrival

/-! The counters of a product-maker: `pmStart` adds to them, `pmGetStatistics`
reads them and sets them back to zero. -/
namespace Noaaport
open Lib

@[ext] structure Counters where
  npackets : UInt64
  nmissed : UInt64
  nprods : UInt64
  deriving DecidableEq

namespace Counters

instance : Zero Counters := ⟨0, 0, 0⟩
instance : Add Counters :=
  ⟨fun c d => ⟨c.npackets + d.npackets, c.nmissed + d.nmissed, c.nprods + d.nprods⟩⟩

@[simp] theorem npackets_add (c d : Counters) : (c + d).npackets = c.npackets + d.npackets := rfl
@[simp] theorem nmissed_add (c d : Counters) : (c + d).nmissed = c.nmissed + d.nmissed := rfl
@[simp] theorem nprods_add (c d : Counters) : (c + d).nprods = c.nprods + d.nprods := rfl
@[simp] theorem npackets_zero : (0 : Counters).npackets = 0 := rfl
@[simp] theorem nmissed_zero : (0 : Counters).nmissed = 0 := rfl
@[simp] theorem nprods_zero : (0 : Counters).nprods = 0 := rfl

instance : AddCommMonoid Counters where
  add_assoc c d e := by ext <;> simp [add_assoc]
  zero_add c := by ext <;> simp
  add_zero c := by ext <;> simp
  add_comm c d := by ext <;> simp [add_comm]
  nsmul := nsmulRec

def packet : Counters := ⟨1, 0, 0⟩
def missed (gap : UInt64) : Counters := ⟨0, gap, 0⟩
def product : Counters := ⟨0, 0, 1⟩

end Counters

/-- What `pmStart` takes a sequence number for. -/
inductive Sequence where
  | newRun
  | retrograde
  | forward (gap : UInt64)
  deriving DecidableEq

def classify (st : Stats) (sbn : Sbn) : Sequence :=
  if st.lastRunno ≠ UInt64.ofNat sbn.runno then .newRun
  else
    let delta := sbn.seqno - st.lastSeqno
    if delta = 0 ∨ 0x7FFFFFFF < delta then .retrograde
    else .forward (delta - 1)

/-- The sections in which the mutex is held, in their order. -/
def Sequence.sections : Sequence → List Counters
  | .newRun => []
  | .retrograde => []
  | .forward gap => (if gap = 0 then [] else [Counters.missed gap]) ++ [Counters.packet]

theorem sum_sections_forward (gap : UInt64) :
    (Sequence.forward gap).sections.sum = ⟨1, gap, 0⟩ := by
  by_cases h : gap = 0
  · subst h
    rfl
  · ext <;> simp [Sequence.sections, h, Counters.missed, Counters.packet]

/-- The sections put together are what the packet does to the two counters. -/
theorem pmAccount_eq (st : Stats) (sbn : Sbn) :
    pmAccount st sbn =
      { lastSeqno := sbn.seqno
        lastRunno := UInt64.ofNat sbn.runno
        npackets := st.npackets + (classify st sbn).sections.sum.npackets
        nmissed := st.nmissed + (classify st sbn).sections.sum.nmissed } := by
  by_cases h1 : st.lastRunno = UInt64.ofNat sbn.runno
  · by_cases h2 : sbn.seqno - st.lastSeqno = 0 ∨ 0x7FFFFFFF < sbn.seqno - st.lastSeqno
    · simp [pmAccount, classify, h1, h2, Sequence.sections]
    · simp [pmAccount, classify, h1, h2, sum_sections_forward]
  · simp [pmAccount, classify, h1, Sequence.sections]

section Works
variable (p : Program)

/-- The packet of an iteration, when its SBN header and its PDH have been read. -/
def accepted (s : State) : Option Input :=
  match (sync p s.inp).bind fun i => i.read p 16 16 (.again .pdhRead) with
  | .go i => some i
  | .exit _ _ => none

def accountedStats (s : State) : Stats :=
  match accepted p s with
  | none => s.inp.stats
  | some i => p.account s.inp.stats i.sbn

def packetSections (s : State) : List Counters :=
  match accepted p s with
  | none => []
  | some i => (classify s.inp.stats i.sbn).sections

/-- What an iteration does to the counters. `nprods` is counted up behind each call
of `process_prod`. -/
structure Work where
  packet : Option Input
  sections : List Counters

def work (s t : State) : Work where
  packet := accepted p s
  sections := packetSections p s ++
    List.replicate (t.asm.calls.length - s.asm.calls.length) Counters.product

def Works (lib : Library) (s : State) (w : Work) (t : State) : Prop :=
  (∃ e, Step p lib s e t) ∧ w = work p s t

end Works

section Accepting
variable {p : Program} {lib : Library} {s t : State} {i j : Input}

/-- The 32-bit number in bytes 8 to 11 of a packet, and the run number behind it. -/
def wireSeqno (buf : Buffer) : Nat := be16 buf 8 * 65536 + be16 buf 10
def wireRunno (buf : Buffer) : Nat := be16 buf 12

/-- The header struct is what `readsbn` makes of the buffer. -/
structure Decoded (i : Input) : Prop where
  seqno : i.sbn.seqno = UInt64.ofInt (be32 i.buf 8)
  runno : i.sbn.runno = wireRunno i.buf

theorem Input.read_stats {off : Nat} {want : Int} {onFail : Exit} :
    (i.read p off want onFail).Ends (fun j => j.stats = i.stats) (fun _ j => j.stats = i.stats) := by
  refine (Input.read_ends ..).mono ?_ ?_
  · rintro j ⟨rfl, -⟩
    rfl
  · rintro e j ⟨rfl, -⟩
    rfl

theorem setSbn_decoded (h : (readsbn i.buf i.sbn).1 = true) : Decoded i.setSbn := by
  have hs : i.setSbn.sbn = (readsbn i.buf i.sbn).2 := rfl
  constructor <;> rw [hs, Input.setSbn_buf] <;> unfold readsbn at h ⊢ <;> dsimp only at h ⊢ <;>
    split_ifs at h ⊢ <;> rfl

theorem syncLoop_decoded (fuel : Nat) (i : Input) :
    (syncLoop p fuel i).Ends (fun j => j.stats = i.stats ∧ Decoded j)
      (fun _ j => j.stats = i.stats) := by
  induction fuel generalizing i with
  | zero => exact rfl
  | succ fuel ih =>
    rw [syncLoop]
    refine Flow.ends_ite (fun h => ⟨rfl, setSbn_decoded h⟩) fun _ => ?_
    refine Flow.ends_ite (fun _ => rfl) fun _ => ?_
    refine Flow.Ends.bind Input.read_stats fun j hj => ?_
    have hi : j.stats = i.stats := hj
    rw [← hi]
    exact ih j

theorem sync_decoded (i : Input) :
    (sync p i).Ends (fun j => j.stats = i.stats ∧ Decoded j) (fun _ j => j.stats = i.stats) := by
  refine Flow.Ends.bind Input.read_stats fun j hj => ?_
  refine Flow.ends_ite (fun _ => hj) fun _ => ?_
  rw [← hj]
  refine Flow.Ends.bind Input.read_stats fun k hk => ?_
  rw [← hk]
  exact syncLoop_decoded _ k

/-- The read of the PDH leaves the bytes of the SBN header where they are. -/
theorem accepted_decoded (h : accepted p s = some i) : Decoded i := by
  unfold accepted at h
  have hs := sync_decoded (p := p) s.inp
  cases hsync : sync p s.inp with
  | exit e j =>
    rw [hsync] at h
    cases h
  | go j =>
    have hd := (hs.go hsync).2
    have hr := Input.read_ends p 16 16 (.again .pdhRead) j
    rw [hsync, Flow.bind_go] at h
    cases hread : j.read p 16 16 (.again .pdhRead) with
    | exit e k =>
      rw [hread] at h
      cases h
    | go k =>
      rw [hread] at h
      cases h
      obtain ⟨rfl, -⟩ := hr.go hread
      have hcell : ∀ m, m < 16 →
          j.buf m = store j.buf 16 (j.rest.take (16 : Int).toNat) m := by
        intro m hm
        exact (store_before _ _ _ _ hm).symm
      constructor
      · exact hd.seqno.trans (congrArg UInt64.ofInt (be32_congr fun m hm => hcell (8 + m) (by omega)))
      · exact hd.runno.trans (be16_congr fun m hm => hcell (12 + m) (by omega))

/-- The state with the packet accounted. -/
def State.accounted (p : Program) (s : State) : State :=
  s.setInp { s.inp with stats := accountedStats p s }

def State.accountedBy (p : Program) (s : State) (sbn : Sbn) : State :=
  s.setInp { s.inp with stats := p.account s.inp.stats sbn }

theorem definition_quiet (hi : s.inp.read p 16 16 (.again .pdhRead) = .go i) :
    (definition p s).Ends (Quiet (s.accountedBy p i.sbn)) (fun _ => Quiet (s.accountedBy p i.sbn)) := by
  have hst : p.account i.stats i.sbn = p.account s.inp.stats i.sbn :=
    congrArg (p.account · i.sbn) (Input.read_stats.go hi)
  unfold definition State.read
  rw [hi, Flow.within_go, Flow.bind_go]
  refine Flow.ends_ite (fun _ => ⟨hst, rfl, rfl⟩) fun _ => ?_
  refine Flow.ends_ite (fun _ => ⟨hst, rfl, rfl⟩) fun _ => ?_
  refine Flow.Ends.bind (P := Quiet (s.accountedBy p i.sbn)) (readExtra_quiet.mono ?_ ?_) fun t ht => ?_
  · exact fun t h => ⟨h.stats.trans hst, h.calls, h.inserts⟩
  · exact fun e t h => ⟨h.stats.trans hst, h.calls, h.inserts⟩
  refine Flow.ends_ite (fun _ => ht) fun _ => ?_
  exact Flow.ends_ite (fun _ => ht.trans ⟨rfl, rfl, rfl⟩) fun _ => ht.trans ⟨rfl, rfl, rfl⟩

/-- Up to the PSH a packet is accounted once it has been accepted, and only then. -/
theorem front_accounted :
    (front p lib s).Ends (Quiet (s.accounted p)) (fun _ => Quiet (s.accounted p)) := by
  have hdef : (((sync p s.inp).within s.setInp).bind (definition p)).Ends
      (Quiet (s.accounted p)) (fun _ => Quiet (s.accounted p)) := by
    have hs := sync_decoded (p := p) s.inp
    cases hsync : sync p s.inp with
    | exit e j =>
      have hnone : s.accounted p = s := by simp [State.accounted, accountedStats, accepted, hsync, State.setInp]
      rw [hnone]
      exact ⟨hs.exit hsync, rfl, rfl⟩
    | go j =>
      have hj := (hs.go hsync).1
      rw [Flow.within_go, Flow.bind_go]
      cases hread : j.read p 16 16 (.again .pdhRead) with
      | exit e k =>
        have hnone : s.accounted p = s := by
          simp [State.accounted, accountedStats, accepted, hsync, hread, State.setInp]
        obtain ⟨rfl, -⟩ := (Input.read_ends ..).exit hread
        rw [hnone]
        simp only [definition, State.read, State.setInp_inp, hread, Flow.within_exit, Flow.bind_exit]
        exact ⟨hj, rfl, rfl⟩
      | go k =>
        have hsome : s.accounted p = s.accountedBy p k.sbn := by
          simp [State.accounted, State.accountedBy, accountedStats, accepted, hsync, hread]
        rw [hsome]
        have hq : Quiet (s.accountedBy p k.sbn) ((s.setInp j).accountedBy p k.sbn) :=
          ⟨congrArg (p.account · k.sbn) hj, rfl, rfl⟩
        exact (definition_quiet (s := s.setInp j) hread).mono (fun _ h => hq.trans h)
          fun _ _ h => hq.trans h
  refine Flow.Ends.bind hdef fun u hu => ?_
  refine Flow.ends_ite (fun _ => ?_) fun _ => ?_
  · exact headerRecord_quiet.mono (fun _ h => hu.trans h) fun _ _ h => hu.trans h
  · exact continuationRecord_quiet.mono (fun _ h => hu.trans h) fun _ _ h => hu.trans h

end Accepting

section Handing
variable {p : Program} {lib : Library} {s t : State} {pfrag : Datastore}

/-- At most one call of `process_prod`, and an insertion where there is anything to
insert. -/
inductive Handover (s t : State) : Prop where
  | none (h : Quiet s t)
  | one (c : Call) (stats : t.inp.stats = s.inp.stats) (calls : t.asm.calls = s.asm.calls ++ [c])
      (inserts : ∃ q : Option Product, t.asm.inserts = s.asm.inserts ++ q.toList ∧
        (q.isSome = true ↔ c.heap ≠ []))

theorem goesData_quiet : (goesData lib pfrag s).Ends (Quiet s) (fun _ => Quiet s) := by
  unfold goesData
  refine Flow.Ends.bind (P := Quiet s) ?_ fun t ht => ht.trans ⟨rfl, rfl, rfl⟩
  refine Flow.ends_ite (fun _ => ?_) fun _ => ?_
  · split
    · exact .refl s
    refine Flow.ends_ite (fun _ => .refl s) fun _ => ?_
    refine Flow.ends_ite (fun _ => ⟨rfl, rfl, rfl⟩) fun _ => ?_
    refine Flow.ends_ite (fun _ => .refl s) fun _ => ?_
    refine Flow.ends_ite (fun _ => ⟨rfl, rfl, rfl⟩) fun _ => ?_
    refine Flow.ends_ite (fun _ => .refl s) fun _ => ?_
    split
    · exact .refl s
    · exact ⟨rfl, rfl, rfl⟩
  · refine Flow.ends_ite (fun _ => ⟨rfl, rfl, rfl⟩) fun _ => ?_
    split
    · exact .refl s
    · exact ⟨rfl, rfl, rfl⟩

theorem nwstgData_quiet : (nwstgData pfrag s).Ends (Quiet s) (fun _ => Quiet s) := by
  have hcopy : (nwstgCopy pfrag s).Ends (Quiet s) (fun _ => Quiet s) :=
    Flow.ends_ite (fun _ => ⟨rfl, rfl, rfl⟩) fun _ => ⟨rfl, rfl, rfl⟩
  unfold nwstgData
  split
  · exact hcopy
  refine Flow.ends_ite (fun _ => hcopy) fun _ => ?_
  refine Flow.ends_ite (fun _ => .refl s) fun _ => ?_
  exact Flow.ends_ite (fun _ => ⟨rfl, rfl, rfl⟩) fun _ => hcopy

theorem link_quiet : (link pfrag s).Ends (Quiet s) (fun _ => Quiet s) := by
  unfold link
  split
  · exact ⟨rfl, rfl, rfl⟩
  · exact Flow.ends_ite (fun _ => ⟨rfl, rfl, rfl⟩) fun _ => .refl s

theorem process_handover (lib : Library) (s : State) : Handover s (s.process lib) := by
  refine .one s.call rfl rfl ⟨_, rfl, ?_⟩
  by_cases h : s.v.heapcount = 0
  · simp [processProd, State.call, h]
  · simp [processProd, State.call, h, ← List.length_eq_zero_iff]

theorem Handover.after {u : State} (hq : Quiet s t) (h : Handover t u) : Handover s u := by
  cases h with
  | none h => exact .none (hq.trans h)
  | one c hst hc hi =>
    obtain ⟨q, hq', hsome⟩ := hi
    exact .one c (hst.trans hq.stats) (by rw [hc, hq.calls]) ⟨q, by rw [hq', hq.inserts], hsome⟩

theorem finish_handover : (finish lib pfrag s).Ends (Handover s) (fun _ => Quiet s) := by
  refine Flow.ends_ite (fun _ => ?_) fun _ => .none (.refl s)
  refine Flow.Ends.bind (P := Quiet s) (Flow.ends_ite (fun _ => ?_) fun _ => .refl s) fun t ht => ?_
  · refine Flow.ends_ite (fun _ => ?_) fun _ => .refl s
    split
    · exact .refl s
    · exact ⟨rfl, rfl, rfl⟩
  · refine Handover.after (ht.trans ?_) (process_handover lib _)
    split_ifs
    · unfold nwstgEnd
      split_ifs <;> exact ⟨rfl, rfl, rfl⟩
    · exact .refl t

/-- A whole iteration. -/
theorem iteration_handover (p : Program) (lib : Library) (s : State) :
    (iteration p lib s).Ends (Handover (s.accounted p)) (fun _ => Quiet (s.accounted p)) := by
  refine Flow.Ends.bind front_accounted fun u hu => ?_
  have hget : Quiet (s.accounted p) (u.getData lib) := hu.trans ⟨rfl, rfl, rfl⟩
  refine Flow.Ends.bind (P := Quiet (s.accounted p)) ?_ fun m hm => ?_
  · refine Flow.ends_ite (fun _ => ?_) fun _ => ?_
    · exact goesData_quiet.mono (fun _ h => hget.trans h) fun _ _ h => hget.trans h
    · exact nwstgData_quiet.mono (fun _ h => hget.trans h) fun _ _ h => hget.trans h
  · refine Flow.Ends.bind (link_quiet.mono (fun _ h => hm.trans h) fun _ _ h => hm.trans h)
      fun l hl => ?_
    exact finish_handover.mono (fun _ h => h.after hl) fun _ _ h => hl.trans h

theorem step_handover {e : Event} (h : Step p lib s e t) : Handover (s.accounted p) t := by
  obtain ⟨t', hor, ht, -⟩ := h
  have hit := iteration_handover p lib s
  have ht' : Handover (s.accounted p) t' := by
    obtain ⟨hgo, -⟩ | ⟨r, hexit, -⟩ := hor
    · exact hit.go hgo
    · exact .none (hit.exit hexit)
  cases ht' with
  | none hq => exact .none ⟨by rw [ht]; exact hq.stats, by rw [ht]; exact hq.calls, by rw [ht]; exact hq.inserts⟩
  | one c hst hc hi => exact .one c (by rw [ht]; exact hst) (by rw [ht]; exact hc) (by rw [ht]; exact hi)

end Handing
end Noaaport
