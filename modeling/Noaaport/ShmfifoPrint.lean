import Noaaport.ShmfifoSanity

/-! The walk of `shmfifo_print` over the records: a pointer that never wraps. -/
namespace Noaaport.Shmfifo
open Lib

/-- How the walk ends: at the write position, at a header that is not in the segment, or not
within its fuel. -/
inductive WalkEnd where
  | atWrite
  | outside
  | running
  deriving DecidableEq

/-- `h->sz`, of which the walk reads no more than these four bytes. -/
def headerSz (mem : Mem UInt8) (ptr : Int) : Int := (Shmbh.ofBytes (load mem ptr.toNat 4)).sz

/-- The loop of `shmfifo_print` from `ptr` on, with the offsets of the headers it reads. -/
def printWalk (shm : Shmhandle) (s : Segment) : Nat → Int → List Int × WalkEnd
  | fuel, ptr =>
    if ptr = s.p.write then ([], .atWrite)
    else
      match fuel with
      | 0 => ([], .running)
      | fuel + 1 =>
        if ptr < shm.low ∨ shm.sz < ptr + 4 then ([], .outside)
        else
          let r := printWalk shm s fuel (ptr + headerSz s.mem ptr + sizeofShmbh)
          (ptr :: r.1, r.2)

/-- Where the records of a queue start, the first of them `pos` behind the least offset. -/
def recordStarts (shm : Shmhandle) : Int → List (List UInt8) → List Int
  | _, [] => []
  | pos, d :: q =>
    (shm.low + pos % shm.capacity) :: recordStarts shm (pos + (sizeofShmbh + d.length)) q

/-- The walk goes from record to record of the queue and ends at the write position. -/
def PrintsQueue (shm : Shmhandle) (s : Segment) (q : List (List UInt8)) : Prop :=
  ∃ fuel, printWalk shm s fuel s.p.read = (recordStarts shm (s.p.read - shm.low) q, .atWrite)

section Walk
variable {shm : Shmhandle} {l c r u k n fuel : Nat} {s : Segment} {q : List (List UInt8)}
  {d rest : List UInt8} {ptr : Int}

theorem printWalk_atWrite (h : ptr = s.p.write) (fuel : Nat) :
    printWalk shm s fuel ptr = ([], .atWrite) := by
  unfold printWalk
  exact if_pos h

theorem printWalk_zero (h : ptr ≠ s.p.write) : printWalk shm s 0 ptr = ([], .running) := by
  unfold printWalk
  exact if_neg h

theorem printWalk_succ (h : ptr ≠ s.p.write) (fuel : Nat) : printWalk shm s (fuel + 1) ptr =
    if ptr < shm.low ∨ shm.sz < ptr + 4 then ([], .outside)
    else
      (ptr :: (printWalk shm s fuel (ptr + headerSz s.mem ptr + sizeofShmbh)).1,
        (printWalk shm s fuel (ptr + headerSz s.mem ptr + sizeofShmbh)).2) := by
  rw [printWalk, if_neg h]

/-- A cyclic block that does not wrap. -/
theorem ringLoad_eq_load (m : Mem UInt8) (h : k + n ≤ c) : ringLoad m l c k n = load m (l + k) n := by
  refine List.map_congr_left fun i hi => ?_
  have := List.mem_range.1 hi
  rw [Nat.mod_eq_of_lt (by omega), Nat.add_assoc]

/-- The size in a header whose first four bytes do not wrap. -/
theorem headerSz_eq (h : ringLoad s.mem l c k (8 + d.length + n) = record d ++ rest)
    (h4 : k + 4 ≤ c) (hd : d.length < 2 ^ 31) : headerSz s.mem ((l + k : Nat) : Int) = d.length := by
  have hbytes : load s.mem (l + k) 4 = (Shmbh.bytes d.length).take 4 := by
    rw [← ringLoad_eq_load s.mem h4, ← ringLoad_take s.mem l c k (8 + d.length + n) 4 (by omega), h,
      record, List.append_assoc]
    rfl
  have hsz : (Shmbh.ofBytes ((Shmbh.bytes d.length).take 4)).sz =
      (Shmbh.ofBytes (Shmbh.bytes d.length)).sz := rfl
  rw [headerSz, Int.toNat_natCast, hbytes, hsz, Shmbh.ofBytes_bytes hd]

/-- The block behind a record. -/
theorem ringLoad_behind (h : ringLoad s.mem l c k (8 + d.length + n) = record d ++ rest) :
    ringLoad s.mem l c (k + (8 + d.length)) n = rest := by
  have hdrop := congrArg (List.drop (8 + d.length)) h
  rwa [ringLoad_drop _ _ _ _ _ _ (Nat.le_add_right ..), Nat.add_sub_cancel_left, ringLoad_mod,
    List.drop_left' (length_record d)] at hdrop

/-- At a record of the queue: one round reads its header and comes to the next. -/
theorem At.printWalk_record (h : At shm l c r u s)
    (hm : ringLoad s.mem l c k (8 + d.length + n) = record d ++ rest) (h4 : k + 4 ≤ c)
    (hd : d.length < 2 ^ 31) (hw : ((l + k : Nat) : Int) ≠ s.p.write) (fuel : Nat) :
    printWalk shm s (fuel + 1) ((l + k : Nat) : Int) =
      (((l + k : Nat) : Int) :: (printWalk shm s fuel ((l + (k + (8 + d.length)) : Nat) : Int)).1,
        (printWalk shm s fuel ((l + (k + (8 + d.length)) : Nat) : Int)).2) := by
  have hlow := h.low
  have hsz := h.sz
  have hnext : ((l + k : Nat) : Int) + headerSz s.mem ((l + k : Nat) : Int) + sizeofShmbh =
      ((l + (k + (8 + d.length)) : Nat) : Int) := by
    rw [headerSz_eq hm h4 hd, sizeofShmbh]
    omega
  rw [printWalk_succ hw, if_neg (by omega), hnext]

/-- Records that end before the segment does. -/
theorem At.printWalk_straight (h : At shm l c r u s) (hsz : shm.sz < 2 ^ 31)
    (hm : ringLoad s.mem l c k (q.flatMap record).length = q.flatMap record)
    (hfit : k + (q.flatMap record).length < c)
    (hw : s.p.write = ((l + (k + (q.flatMap record).length) : Nat) : Int)) :
    printWalk shm s q.length ((l + k : Nat) : Int) = (recordStarts shm k q, .atWrite) := by
  induction q generalizing k with
  | nil => exact printWalk_atWrite hw.symm 0
  | cons d q ih =>
    have hlow := h.low
    have hc := h.sz
    rw [List.flatMap_cons, List.length_append, length_record] at hm hfit hw
    have hrec := h.printWalk_record hm (by omega) (by omega) (by omega) q.length
    have hstart : shm.low + (k : Int) % shm.capacity = ((l + k : Nat) : Int) := by
      rw [Shmhandle.capacity, hlow, hc, Int.emod_eq_of_lt (by omega) (by omega)]
      omega
    have hnext : (k : Int) + (sizeofShmbh + d.length) = ((k + (8 + d.length) : Nat) : Int) := by
      rw [sizeofShmbh]
      omega
    rw [List.length_cons, hrec, ih (ringLoad_behind hm) (by omega) (by omega), recordStarts, hstart,
      hnext]

/-- Above the write position the walk does not come back to it: it goes on over records up to
the end of the segment. -/
theorem At.printWalk_above (h : At shm l c r u s) (hsz : shm.sz < 2 ^ 31)
    (hw : s.p.write < ((l + k : Nat) : Int))
    (hm : k ≤ c → ringLoad s.mem l c k (q.flatMap record).length = q.flatMap record ∧
      c ≤ k + (q.flatMap record).length ∧ (q.flatMap record).length < c) (fuel : Nat) :
    (printWalk shm s fuel ((l + k : Nat) : Int)).2 ≠ .atWrite := by
  have hlow := h.low
  have hc := h.sz
  induction fuel generalizing k q with
  | zero =>
    rw [printWalk_zero (by omega)]
    exact nofun
  | succ fuel ih =>
    by_cases h4 : k + 4 ≤ c
    · obtain ⟨hq, hend, hlen⟩ := hm (by omega)
      cases q with
      | nil =>
        rw [List.flatMap_nil, List.length_nil] at hend
        omega
      | cons d q =>
        rw [List.flatMap_cons, List.length_append, length_record] at hq hend hlen
        rw [h.printWalk_record hq h4 (by omega) (by omega)]
        exact ih (q := q) (by omega) fun hk => ⟨ringLoad_behind hq, by omega, by omega⟩
    · rw [printWalk_succ (by omega), if_pos (by omega)]
      exact nofun

theorem Held.prints_iff (h : Held shm l c s q) (hsz : shm.sz < 2 ^ 31) :
    PrintsQueue shm s q ↔ s.p.read ≤ s.p.write := by
  obtain ⟨r, u, ha, hm⟩ := h
  have hlen := congrArg List.length hm
  rw [length_ringLoad] at hlen
  subst hlen
  have hr := ha.r_lt
  have hu := ha.u_lt
  have hread : s.p.read = ((l + r : Nat) : Int) := ha.read
  have hwrite := ha.write
  have hpos : s.p.read - shm.low = (r : Int) := by
    rw [ha.low, hread]
    omega
  by_cases hwrap : r + (q.flatMap record).length < c
  · rw [if_pos hwrap] at hwrite
    refine iff_of_true ⟨q.length, ?_⟩ (by omega)
    rw [hpos, hread]
    exact ha.printWalk_straight hsz hm hwrap hwrite
  · rw [if_neg hwrap] at hwrite
    refine iff_of_false ?_ (by omega)
    rintro ⟨fuel, hwalk⟩
    rw [hread] at hwalk
    exact ha.printWalk_above hsz (by omega) (fun _ => ⟨hm, by omega, hu⟩) fuel
      (congrArg Prod.snd hwalk)

theorem Cellless.prints_iff (h : Cellless shm s) :
    PrintsQueue shm s [] ↔ s.p.read ≤ s.p.write := by
  have hused := h.used
  have hfree := h.free
  have heq : s.p.read = s.p.write := by
    unfold shmfifoLlMemused at hused
    unfold shmfifoLlMemfree at hfree
    split_ifs at hused hfree <;> omega
  exact iff_of_true ⟨0, printWalk_atWrite heq 0⟩ (Int.le_of_eq heq)

end Walk

section Runs
variable {shm : Shmhandle} {mem : Mem UInt8} {counter : Int} {h h' : Log} {acts : List Act}

/-- One locked section after the other. -/
def LogStep (shm : Shmhandle) (h : Log) (a : Act) (h' : Log) : Prop := logged shm a h = some h'

theorem Logged.reached (ht : Trace (LogStep shm) h acts h') (hsz : shm.sz < 2 ^ 31)
    (hl : ∃ q, Logged shm h q) : ∃ q, Logged shm h' q :=
  ht.invariant (P := fun h => ∃ q, Logged shm h q) (fun _ _ _ ⟨_, hl⟩ hs => hl.next hsz hs) hl

theorem Logged.prints_iff {q : List (List UInt8)} (hl : Logged shm h q) (hsz : shm.sz < 2 ^ 31) :
    PrintsQueue shm h.sys.seg (h.appended.drop h.removed.length) ↔
      h.sys.seg.p.read ≤ h.sys.seg.p.write := by
  rw [hl.balance, List.drop_left]
  rcases hl.seg with ⟨l, c, hh⟩ | ⟨hcell, rfl⟩
  · exact hh.prints_iff hsz
  · exact hcell.prints_iff

/-- In every state of every run the walk prints the queue exactly where the records do not go
around the end of the segment. -/
theorem print_walk_iff (mem : Mem UInt8) (counter : Int) (hpriv : 0 ≤ shm.privsz)
    (hcap : 0 ≤ shm.capacity) (hsz : shm.sz < 2 ^ 31)
    (ht : Trace (LogStep shm) (.start shm mem counter) acts h) :
    PrintsQueue shm h.sys.seg (h.appended.drop h.removed.length) ↔
      h.sys.seg.p.read ≤ h.sys.seg.p.write := by
  obtain ⟨q, hl⟩ := Logged.reached ht hsz ⟨[], Logged.start shm mem counter hpriv hcap⟩
  exact hl.prints_iff hsz

theorem print_walk_iff_run : ∃ h,
    Trace (LogStep ⟨0, 36⟩) (.start ⟨0, 36⟩ (fun _ => 0) 0) [.put [1, 2]] h ∧
      h.appended.drop h.removed.length = [[1, 2]] ∧ PrintsQueue ⟨0, 36⟩ h.sys.seg [[1, 2]] := by
  have ht : Trace (LogStep ⟨0, 36⟩) (.start ⟨0, 36⟩ (fun _ => 0) 0) [.put [1, 2]] _ :=
    .cons rfl (.nil _)
  exact ⟨_, ht, rfl, (print_walk_iff (fun _ => 0) 0 (by decide) (by decide) (by decide) ht).2
    (by decide)⟩

/-- The second record goes around the end, and the walk past it. -/
theorem print_walk_leaves : ¬ ∀ acts h,
    Trace (LogStep ⟨0, 36⟩) (.start ⟨0, 36⟩ (fun _ => 0) 0) acts h →
      PrintsQueue ⟨0, 36⟩ h.sys.seg (h.appended.drop h.removed.length) := by
  intro hall
  have ht : Trace (LogStep ⟨0, 36⟩) (.start ⟨0, 36⟩ (fun _ => 0) 0)
      [.get 8, .put [1, 2], .getRetry, .put [3, 4]] _ :=
    .cons rfl (.cons rfl (.cons rfl (.cons rfl (.nil _))))
  obtain ⟨q, hl⟩ := Logged.reached ht (by decide)
    ⟨[], Logged.start _ _ _ (by decide) (by decide)⟩
  exact absurd ((hl.prints_iff (by decide)).1 (hall _ _ ht)) (by decide)

end Runs
end Noaaport.Shmfifo
