import Noaaport.ShmfifoRefinement

/-! What `shmfifo.c` refuses: records that are too big for the segment, and buffers that are
too small for the record. -/
namespace Noaaport.Shmfifo
open Lib

variable {shm : Shmhandle} {l c : Nat} {s s' : Segment} {q : List (List UInt8)} {d : List UInt8}
  {sys sys' : Sys} {es : List Event}

section Small

/-- Calls of `shmfifo_get` with buffers of these sizes, all of which give `EINVAL`. -/
def einvalGets (shm : Shmhandle) : Segment → List Int → Option Segment
  | s, [] => some s
  | s, sz :: szs =>
    if sz ≤ 0 then einvalGets shm s szs
    else
      match shmfifoGet shm s sz with
      | .ret status none s' => if status = EINVAL then einvalGets shm s' szs else none
      | _ => none

theorem Queued.einvalGets (h : Queued shm l c s (d :: q)) (hsz : shm.sz < 2 ^ 31) {szs : List Int}
    (hbuf : ∀ sz ∈ szs, sz < d.length) :
    ∃ s', einvalGets shm s szs = some s' ∧ Unmoved s s' ∧ Queued shm l c s' (d :: q) := by
  induction szs generalizing s with
  | nil => exact ⟨s, rfl, .refl s, h⟩
  | cons sz szs ih =>
    have hrest : ∀ sz ∈ szs, sz < d.length := fun sz hsz => hbuf sz (List.mem_cons_of_mem _ hsz)
    rw [Shmfifo.einvalGets]
    by_cases h0 : sz ≤ 0
    · rw [if_pos h0]
      exact ih h hrest
    · obtain ⟨s₁, hget, hun, hq⟩ := get_unmoved h hsz (hbuf sz List.mem_cons_self)
      obtain ⟨s', hgets, hun', hq'⟩ := ih hq hrest
      rw [if_neg h0, hget]
      exact ⟨s', hgets, hun.trans hun', hq'⟩

/-- A buffer that is too small does not consume the record: any number of such calls leaves
the positions and all bytes as they were, and as long as nothing else takes the record, the
first buffer that is large enough gets it. -/
theorem small_buffer_keeps (mem : Mem UInt8) (counter : Int) (hpriv : 0 ≤ shm.privsz)
    (hcap : 8 < shm.capacity) (hsz : shm.sz < 2 ^ 31)
    (h : Trace (Step shm) (Sys.init shm mem counter) es sys)
    (hold : es.flatMap Event.added = es.flatMap Event.removed ++ d :: q) :
    (∃ s₁, shmfifoLlGet shm sys.seg sizeofShmbh = .ret 8 (Shmbh.bytes d.length) s₁ ∧
      Unmoved sys.seg (shmfifoLlHrewind shm s₁)) ∧
    (∀ szs : List Int, (∀ sz ∈ szs, sz < d.length) →
      ∃ s', einvalGets shm sys.seg szs = some s' ∧ Unmoved sys.seg s' ∧
        ∀ sz : Int, d.length ≤ sz → ∃ s'', shmfifoGet shm s' sz = .ret 0 (some d) s'') ∧
    ∀ fs sys', Trace (Step shm) sys fs sys' → fs.flatMap Event.removed = [] →
      ∀ sz : Int, d.length ≤ sz → ∃ s'', shmfifoGet shm sys'.seg sz = .ret 0 (some d) s'' := by
  obtain ⟨l, c, q₀, -, -, -, hq, hi⟩ := trace_inv hpriv (by omega) hsz h
  have hbal := hq.balance id (fun _ _ _ hs => hs.balanced)
  rw [hold] at hbal
  obtain rfl : d :: q = q₀ := List.append_cancel_left hbal
  obtain ⟨s₁, hg, hun, -⟩ := rewind_unmoved hi.queued hsz
  refine ⟨⟨s₁, hg, hun⟩, fun szs hbuf => ?_, fun fs sys' hfs hnone sz hb => ?_⟩
  · obtain ⟨s', hgets, hun', hq'⟩ := hi.queued.einvalGets hsz hbuf
    refine ⟨s', hgets, hun', fun sz hb => ?_⟩
    obtain ⟨s'', hget, -⟩ := get_head hq' hsz hb
    exact ⟨s'', hget⟩
  · obtain ⟨q', hq', hi'⟩ := hfs.simulate RecordQueue.Step (Inv shm l c _)
      (fun s e s' q hr hs => step_refines hr hsz hs) hi
    have hbal' := hq'.balance id (fun _ _ _ hs => hs.balanced)
    rw [hnone] at hbal'
    obtain rfl : d :: (q ++ fs.flatMap Event.added) = q' := hbal'
    obtain ⟨s'', hget, -⟩ := get_head hi'.queued hsz hb
    exact ⟨s'', hget⟩

/-- Ten record bytes in sixteen: the second header wraps around the end. -/
theorem small_buffer_keeps_run :
    ∃ (es : List Event) (sys : Sys),
      Trace (Step ⟨0, 36⟩) (Sys.init ⟨0, 36⟩ (fun _ => 0) 0) es sys ∧ sys.seg.p.read = 30 ∧
      es.flatMap Event.added = es.flatMap Event.removed ++ [[3, 4]] ∧
      ∃ s', einvalGets ⟨0, 36⟩ sys.seg [1, 0, 1] = some s' ∧ Unmoved sys.seg s' ∧
        ∀ sz : Int, 2 ≤ sz → ∃ s'', shmfifoGet ⟨0, 36⟩ s' sz = .ret 0 (some [3, 4]) s'' := by
  have h : Trace (Step ⟨0, 36⟩) (Sys.init ⟨0, 36⟩ (fun _ => 0) 0) _ _ :=
    .cons ⟨.put [1, 2], rfl⟩ <| .cons ⟨.get 8, rfl⟩ <| .cons ⟨.put [3, 4], rfl⟩ <| .nil _
  exact ⟨_, _, h, rfl, rfl, (small_buffer_keeps (fun _ => 0) 0 (by decide) (by decide) (by decide)
    h rfl).2.1 [1, 0, 1] (by decide)⟩

end Small

section Admission

/-- What the writer and the reader can make of a created segment. -/
def Reachable (shm : Shmhandle) (s : Segment) : Prop :=
  ∃ mem counter es sys, Trace (Step shm) (Sys.init shm mem counter) es sys ∧ sys.seg = s

/-- The oldest records removed, as long as there are any. -/
def removals (shm : Shmhandle) : Nat → Segment → Segment
  | 0, s => s
  | n + 1, s =>
    match shmfifoGet shm s shm.capacity with
    | .ret _ (some _) s' => removals shm n s'
    | _ => s

theorem Queued.removals (h : Queued shm l c s q) (hc : shm.capacity = c) (hsz : shm.sz < 2 ^ 31)
    (n : Nat) : Queued shm l c (removals shm n s) (q.drop n) := by
  induction n generalizing s q with
  | zero => exact h
  | succ n ih =>
    rw [Shmfifo.removals]
    cases q with
    | nil =>
      rw [get_empty h]
      exact h
    | cons d q =>
      obtain ⟨r, u, s₁, ha, hu, -⟩ := get_header h hsz
      have hlt := ha.u_lt
      have hbuf : (d.length : Int) ≤ shm.capacity := by omega
      obtain ⟨s', hget, hq, -⟩ := get_head h hsz hbuf
      rw [hget]
      exact ih hq

/-- A created segment is empty, -/
theorem created_free (shm : Shmhandle) (mem : Mem UInt8) (counter : Int) :
    shmfifoLlMemused shm (Sys.init shm mem counter).seg = 0 ∧
      shmfifoLlMemfree shm (Sys.init shm mem counter).seg = shm.capacity := by
  simp only [Sys.init, shmfifoCreate, shmfifoLlMemused, shmfifoLlMemfree, Shmhandle.capacity,
    Shmhandle.low]
  constructor <;> split_ifs <;> omega

theorem created_reachable (shm : Shmhandle) (mem : Mem UInt8) (counter : Int) :
    Reachable shm (Sys.init shm mem counter).seg :=
  ⟨mem, counter, [], _, .nil _, rfl⟩

theorem get_waits (h : shmfifoLlMemused shm s = 0) (sz : Int) : shmfifoGet shm s sz = .wait :=
  if_pos h

/-- and stays so if there is not a single cell for records. -/
theorem trace_still {mem : Mem UInt8} {counter : Int} (hcap : shm.capacity = 0)
    (h : Trace (Step shm) (Sys.init shm mem counter) es sys) :
    sys.seg = (Sys.init shm mem counter).seg ∧ sys.putting = none := by
  obtain ⟨hused, hfree⟩ := created_free shm mem counter
  refine h.invariant (P := fun s => s.seg = (Sys.init shm mem counter).seg ∧ s.putting = none)
    (fun s e s' hs hstep => ?_) ⟨rfl, rfl⟩
  obtain ⟨hseg, hput⟩ := hs
  have hwait : ∀ sz, shmfifoGet shm s.seg sz = .wait := get_waits (by rw [hseg, hused])
  obtain ⟨a, ha⟩ := hstep
  cases a with
  | put data =>
    have hbig : shmfifoPut shm s.seg data = .ret E2BIG s.seg := by
      rw [shmfifoPut, hseg, hused, hfree]
      exact if_pos (by rw [sizeofShmbh]; omega)
    rw [step, hbig] at ha
    split_ifs at ha
    cases ha
    exact ⟨hseg, rfl⟩
  | putRetry =>
    rw [step, hput] at ha
    cases ha
  | get sz =>
    rw [step, hwait] at ha
    split_ifs at ha
    · cases ha
      exact ⟨hseg, hput⟩
    · cases ha
      exact ⟨hseg, hput⟩
  | getRetry =>
    rw [step] at ha
    split at ha
    · rw [hwait] at ha
      cases ha
      exact ⟨hseg, hput⟩
    · cases ha

/-- Removals empty a reachable segment, and then all of it is free. -/
theorem reachable_drains (hpriv : 0 ≤ shm.privsz) (hcap : 0 ≤ shm.capacity) (hsz : shm.sz < 2 ^ 31)
    (h : Reachable shm s) :
    0 ≤ shmfifoLlMemused shm s ∧
      shmfifoLlMemused shm s + shmfifoLlMemfree shm s = shm.capacity ∧
      ∃ n, shmfifoLlMemused shm (removals shm n s) = 0 ∧
        shmfifoLlMemfree shm (removals shm n s) = shm.capacity := by
  obtain ⟨mem, counter, es, sys, htrace, rfl⟩ := h
  obtain hpos | hzero := Int.lt_or_eq_of_le hcap
  · obtain ⟨l, c, q, -, hc, -, -, hi⟩ := trace_inv hpriv hpos hsz htrace
    have hused := hi.queued.used
    have hfree := hi.queued.free
    have hempty := hi.queued.removals hc hsz q.length
    rw [List.drop_length] at hempty
    have hused' := hempty.used
    have hfree' := hempty.free
    rw [List.flatMap_nil, List.length_nil] at hused'
    exact ⟨by omega, by omega, q.length, hused', by omega⟩
  · obtain ⟨hseg, -⟩ := trace_still hzero.symm htrace
    obtain ⟨hused, hfree⟩ := created_free shm mem counter
    rw [hseg]
    exact ⟨by omega, by omega, 0, hused, hfree⟩

/-- The too-big test looks at the capacity alone. -/
theorem put_tooBig (hfree : shmfifoLlMemused shm s + shmfifoLlMemfree shm s = shm.capacity) :
    shmfifoPut shm s d = .ret E2BIG s ↔ shm.capacity < d.length + sizeofShmbh := by
  rw [shmfifoPut, hfree]
  split_ifs with h
  · exact ⟨fun _ => h, fun _ => rfl⟩
  · refine ⟨fun hput => ?_, fun hlt => absurd hlt h⟩
    unfold putRetry at hput
    split_ifs at hput
    cases hput

theorem putRetry_waits : putRetry shm s d = .wait ↔ shmfifoLlMemfree shm s ≤ d.length + sizeofShmbh := by
  unfold putRetry
  split_ifs with h
  · exact ⟨fun _ => h, fun _ => rfl⟩
  · exact ⟨nofun, fun hle => absurd hle h⟩

/-- An accepted record gets its turn after some removals, -/
def Completes (shm : Shmhandle) (d : List UInt8) : Prop :=
  ∀ s, Reachable shm s → shmfifoPut shm s d = .ret E2BIG s ∨
    ∃ n, putRetry shm (removals shm n s) d ≠ .wait

/-- on an empty segment the writer and the reader do not both wait, -/
def NeverBothWait (shm : Shmhandle) (d : List UInt8) : Prop :=
  ∀ s, Reachable shm s → shmfifoLlMemused shm s = 0 →
    ¬ (shmfifoPut shm s d = .wait ∧ ∀ sz, shmfifoGet shm s sz = .wait)

/-- and the too-big test refuses what never has room. -/
def RefusesExactly (shm : Shmhandle) (d : List UInt8) : Prop :=
  ∀ s, Reachable shm s → (shmfifoPut shm s d = .ret E2BIG s ↔
    ∀ s', Reachable shm s' → putRetry shm s' d = .wait)

theorem completes_iff (hpriv : 0 ≤ shm.privsz) (hcap : 0 ≤ shm.capacity) (hsz : shm.sz < 2 ^ 31) :
    Completes shm d ↔ d.length + sizeofShmbh ≠ shm.capacity := by
  constructor
  · intro h heq
    obtain ⟨hused, hfree⟩ := created_free shm (fun _ => 0) 0
    have hstill : ∀ n, removals shm n (Sys.init shm (fun _ => 0) 0).seg =
        (Sys.init shm (fun _ => 0) 0).seg := by
      intro n
      cases n with
      | zero => rfl
      | succ n => rw [removals, get_waits hused]
    obtain hbig | ⟨n, hroom⟩ := h _ (created_reachable shm (fun _ => 0) 0)
    · have hlt := (put_tooBig (by omega)).1 hbig
      omega
    · rw [hstill, Ne, putRetry_waits, hfree] at hroom
      omega
  · intro hne s hs
    obtain ⟨-, hsum, n, hused, hfree⟩ := reachable_drains hpriv hcap hsz hs
    by_cases hlt : shm.capacity < d.length + sizeofShmbh
    · exact .inl ((put_tooBig hsum).2 hlt)
    · refine .inr ⟨n, fun hwait => ?_⟩
      rw [putRetry_waits, hfree] at hwait
      omega

theorem neverBothWait_iff (hpriv : 0 ≤ shm.privsz) (hcap : 0 ≤ shm.capacity)
    (hsz : shm.sz < 2 ^ 31) :
    NeverBothWait shm d ↔ d.length + sizeofShmbh ≠ shm.capacity := by
  constructor
  · intro h heq
    obtain ⟨hused, hfree⟩ := created_free shm (fun _ => 0) 0
    refine h _ (created_reachable shm (fun _ => 0) 0) hused ⟨?_, get_waits hused⟩
    rw [shmfifoPut, if_neg (by omega), putRetry_waits]
    omega
  · rintro hne s hs hused ⟨hput, -⟩
    obtain ⟨-, hsum, -⟩ := reachable_drains hpriv hcap hsz hs
    unfold shmfifoPut at hput
    split_ifs at hput
    rw [putRetry_waits] at hput
    omega

theorem refusesExactly_iff (hpriv : 0 ≤ shm.privsz) (hcap : 0 ≤ shm.capacity)
    (hsz : shm.sz < 2 ^ 31) :
    RefusesExactly shm d ↔ d.length + sizeofShmbh ≠ shm.capacity := by
  obtain ⟨hused, hfree⟩ := created_free shm (fun _ => 0) 0
  have hcreated := created_reachable shm (fun _ => 0) 0
  have hnever : (∀ s', Reachable shm s' → putRetry shm s' d = .wait) ↔
      shm.capacity ≤ d.length + sizeofShmbh := by
    constructor
    · intro h
      have hwait := putRetry_waits.1 (h _ hcreated)
      omega
    · intro hle s' hs'
      obtain ⟨hused', hsum, -⟩ := reachable_drains hpriv hcap hsz hs'
      rw [putRetry_waits]
      omega
  constructor
  · intro h heq
    have hbig := (h _ hcreated).2 (hnever.2 (by omega))
    have hlt := (put_tooBig (by omega)).1 hbig
    omega
  · intro hne s hs
    obtain ⟨-, hsum, -⟩ := reachable_drains hpriv hcap hsz hs
    rw [put_tooBig hsum, hnever]
    omega

/-- The room test wants one byte more than the too-big test allows for: exactly the records that
would fill the segment are accepted and wait for ever. -/
theorem admission_iff (hpriv : 0 ≤ shm.privsz) (hcap : 0 ≤ shm.capacity) (hsz : shm.sz < 2 ^ 31)
    (d : List UInt8) :
    (Completes shm d ↔ d.length + sizeofShmbh ≠ shm.capacity) ∧
      (NeverBothWait shm d ↔ d.length + sizeofShmbh ≠ shm.capacity) ∧
      (RefusesExactly shm d ↔ d.length + sizeofShmbh ≠ shm.capacity) :=
  ⟨completes_iff hpriv hcap hsz, neverBothWait_iff hpriv hcap hsz, refusesExactly_iff hpriv hcap hsz⟩

theorem admission_iff_run :
    (Completes ⟨0, 36⟩ [1, 2] ↔ (2 : Int) + 8 ≠ 16) ∧
      (NeverBothWait ⟨0, 36⟩ [1, 2] ↔ (2 : Int) + 8 ≠ 16) ∧
      (RefusesExactly ⟨0, 36⟩ [1, 2] ↔ (2 : Int) + 8 ≠ 16) :=
  admission_iff (show 0 ≤ Shmhandle.privsz ⟨0, 36⟩ by decide) (by decide) (by decide) [1, 2]

/-- A record of 8 bytes for a segment with 16: the writer waits and the reader waits. -/
theorem filling_record_waits : ¬ Completes ⟨0, 36⟩ [1, 2, 3, 4, 5, 6, 7, 8] ∧
    shmfifoPut ⟨0, 36⟩ (Sys.init ⟨0, 36⟩ (fun _ => 0) 0).seg [1, 2, 3, 4, 5, 6, 7, 8] = .wait ∧
    shmfifoGet ⟨0, 36⟩ (Sys.init ⟨0, 36⟩ (fun _ => 0) 0).seg 8 = .wait := by
  refine ⟨fun h => ?_, rfl, rfl⟩
  have hne := (completes_iff (show 0 ≤ Shmhandle.privsz ⟨0, 36⟩ by decide) (by decide) (by decide)).1 h
  exact absurd hne (by decide)

end Admission
end Noaaport.Shmfifo
