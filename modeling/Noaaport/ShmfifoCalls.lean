import Noaaport.ShmfifoRefinement

/-! `shmfifo_get` and `shmfifo_put` to their `return`: the locked sections of
`Shmfifo` with what the semaphore functions answer, and the status the caller sees. -/
namespace Noaaport.Shmfifo
open Lib

/-- The answers within one call; a wait ends with the segment as it is then. -/
structure Semaphores where
  lock : Int
  waits : List (Int × Segment)
  notify : Int
  unlock : Int

/-- `section_` is `status` when the lock is given up; `nbytes` is what has been
stored through the pointer. -/
structure Got where
  status : Int
  section_ : Option Int
  data : Option (List UInt8)
  nbytes : Option Nat
  seg : Segment

inductive GetCall where
  | blocked
  | aborted
  | ret (r : Got)

structure Put where
  status : Int
  section_ : Option Int
  seg : Segment

inductive PutCall where
  | blocked
  | ret (r : Put)

section Calls
variable (shm : Shmhandle) (sem : Semaphores)

/-- The section's own status is overwritten by that of `shmfifo_unlock`. -/
def finishGet : GetPass → GetCall
  | .wait => .blocked
  | .abort => .aborted
  | .ret status none s => .ret ⟨sem.unlock, some status, none, none, s⟩
  | .ret _ (some data) s =>
    .ret ⟨sem.unlock, some sem.notify, some data,
      if sem.notify = 0 then some data.length else none, s⟩

/-- The loop over `shmfifo_wait_reader`. -/
def getLocked (sz : Int) : List (Int × Segment) → Segment → GetCall
  | [], s => finishGet sem (shmfifoGet shm s sz)
  | (status, s') :: waits, s =>
    if shmfifoLlMemused shm s = 0 then
      if status = 0 then getLocked sz waits s' else .ret ⟨sem.unlock, some status, none, none, s'⟩
    else finishGet sem (shmfifoGet shm s sz)

def shmfifoGetCall (s : Segment) (sz : Int) : GetCall :=
  if sz ≤ 0 then .ret ⟨EINVAL, none, none, none, s⟩
  else if sem.lock ≠ 0 then .ret ⟨sem.lock, none, none, none, s⟩
  else getLocked shm sem sz sem.waits s

def finishPut : PutPass → PutCall
  | .wait => .blocked
  | .ret status s => .ret ⟨sem.unlock, some (if status = 0 then sem.notify else status), s⟩

/-- The loop over `shmfifo_wait_writer`. -/
def putLocked (data : List UInt8) : List (Int × Segment) → Segment → PutCall
  | [], s => finishPut sem (putRetry shm s data)
  | (status, s') :: waits, s =>
    if shmfifoLlMemfree shm s ≤ data.length + sizeofShmbh then
      if status = 0 then putLocked data waits s' else .ret ⟨sem.unlock, some status, s'⟩
    else finishPut sem (putRetry shm s data)

/-- `data` is a pointer; only its first `sz` bytes are looked at. -/
def shmfifoPutCall (s : Segment) (data : Mem UInt8) (sz : Int) : PutCall :=
  if 0 > sz then .ret ⟨EINVAL, none, s⟩
  else if sem.lock ≠ 0 then .ret ⟨sem.lock, none, s⟩
  else if shmfifoLlMemused shm s + shmfifoLlMemfree shm s < sz + sizeofShmbh then
    .ret ⟨sem.unlock, some E2BIG, s⟩
  else putLocked shm sem (load data 0 sz.toNat) sem.waits s

end Calls

/-- How a loop over `shmfifo_wait` ends: still asleep, with the status of a wait
that failed, or ready to go on. -/
inductive Woken where
  | asleep
  | failed (status : Int) (s : Segment)
  | ready (s : Segment)

section Loop

def awake (ready : Segment → Prop) [DecidablePred ready] :
    List (Int × Segment) → Segment → Woken
  | [], s => if ready s then .ready s else .asleep
  | (status, s') :: waits, s =>
    if ready s then .ready s
    else if status = 0 then awake ready waits s' else .failed status s'

theorem awake_ready {P ready : Segment → Prop} [DecidablePred ready]
    {waits : List (Int × Segment)} {s s₁ : Segment} (h : awake ready waits s = .ready s₁)
    (hs : P s) (hw : ∀ x ∈ waits, P x.2) : P s₁ ∧ ready s₁ := by
  fun_induction awake ready waits s with
  | case1 s hr =>
    cases h
    exact ⟨hs, hr⟩
  | case2 => cases h
  | case3 _ _ _ s hr =>
    cases h
    exact ⟨hs, hr⟩
  | case4 s' waits s hr ih =>
    exact ih h (hw _ (List.mem_cons_self ..)) fun x hx => hw x (List.mem_cons_of_mem _ hx)
  | case5 => cases h

/-- `shmfifo_get` goes on with data in the FIFO, -/
abbrev HasData (shm : Shmhandle) (s : Segment) : Prop := shmfifoLlMemused shm s ≠ 0

/-- and `shmfifo_put` with room for `n` bytes and a header. -/
abbrev HasRoom (shm : Shmhandle) (n : Nat) (s : Segment) : Prop :=
  n + sizeofShmbh < shmfifoLlMemfree shm s

variable (shm : Shmhandle) (sem : Semaphores)

theorem getLocked_eq (sz : Int) (waits : List (Int × Segment)) (s : Segment) :
    getLocked shm sem sz waits s =
      match awake (HasData shm) waits s with
      | .asleep => .blocked
      | .failed status s₁ => .ret ⟨sem.unlock, some status, none, none, s₁⟩
      | .ready s₁ => finishGet sem (shmfifoGet shm s₁ sz) := by
  fun_induction getLocked shm sem sz waits s with
  | case1 s =>
    by_cases h : shmfifoLlMemused shm s = 0
    · simp [awake, h, shmfifoGet, finishGet]
    · simp [awake, h]
  | case2 s' waits s h ih => simp [awake, h, ih]
  | case3 status s' waits s h hst => simp [awake, h, hst]
  | case4 status s' waits s h => simp [awake, h]

theorem putLocked_eq (data : List UInt8) (waits : List (Int × Segment)) (s : Segment) :
    putLocked shm sem data waits s =
      match awake (HasRoom shm data.length) waits s with
      | .asleep => .blocked
      | .failed status s₁ => .ret ⟨sem.unlock, some status, s₁⟩
      | .ready s₁ => finishPut sem (putRetry shm s₁ data) := by
  fun_induction putLocked shm sem data waits s with
  | case1 s =>
    by_cases h : shmfifoLlMemfree shm s ≤ data.length + sizeofShmbh
    · simp [awake, h, not_lt.2 h, putRetry, finishPut]
    · simp [awake, not_le.1 h]
  | case2 s' waits s h ih => simp [awake, not_lt.2 h, ih]
  | case3 status s' waits s h hst => simp [awake, not_lt.2 h, hst]
  | case4 status s' waits s h => simp [awake, not_le.1 h]

end Loop

/-- Positions in range: what every operation keeps. -/
def Sound (shm : Shmhandle) (s : Segment) : Prop := ∃ l c r u, At shm l c r u s

/-- The bytes held, oldest first, -/
def contents (shm : Shmhandle) (s : Segment) : List UInt8 :=
  ringLoad s.mem shm.low.toNat shm.capacity.toNat (s.p.read - shm.low).toNat
    (shmfifoLlMemused shm s).toNat

/-- and the header they begin with, whatever it says. -/
def head (shm : Shmhandle) (s : Segment) : Shmbh := Shmbh.ofBytes ((contents shm s).take 8)

/-- What `shmfifo_get` looks for: sentinel or length do not fit the contents. -/
def Corrupt (shm : Shmhandle) (s : Segment) : Prop :=
  (head shm s).canary ≠ deadbeef ∨ shmfifoLlMemused shm s - 8 < (head shm s).sz

instance (shm : Shmhandle) (s : Segment) : Decidable (Corrupt shm s) :=
  inferInstanceAs (Decidable (_ ∨ _))

section Passes
variable {shm : Shmhandle} {l c r u : Nat} {s : Segment} {sz : Int}

theorem At.capacity (h : At shm l c r u s) : shm.capacity = c := by
  rw [Shmhandle.capacity, h.low, h.sz]
  omega

theorem At.contents (h : At shm l c r u s) : contents shm s = ringLoad s.mem l c r u := by
  rw [Shmfifo.contents, h.low, h.capacity, h.read, h.memused, add_sub_cancel_left,
    Int.toNat_natCast, Int.toNat_natCast, Int.toNat_natCast, Int.toNat_natCast]

theorem get_short (h : At shm l c r u s) (h0 : 0 < u) (h8 : u < 8) :
    shmfifoGet shm s sz = .ret EINVAL none s := by
  have hused := h.memused
  unfold shmfifoGet
  rw [if_neg (by omega), if_pos (by rw [hused, sizeofShmbh]; omega)]

/-- The header is out of the FIFO when it is looked at. -/
theorem get_past_header (sz : Int) (h : At shm l c r u s) (h8 : 8 ≤ u) :
    ∃ s₁, At shm l c ((r + 8) % c) (u - 8) s₁ ∧ s₁.mem = s.mem ∧
      shmfifoGet shm s sz =
        if (head shm s).canary ≠ deadbeef then .ret EIO none s₁
        else if shmfifoLlMemused shm s₁ < (head shm s).sz then .ret EIO none s₁
        else if (head shm s).sz > sz then .ret EINVAL none (shmfifoLlHrewind shm s₁)
        else
          match shmfifoLlGet shm s₁ (head shm s).sz with
          | .abort => .abort
          | .ret _ data s => .ret 0 (some data) s := by
  have hused := h.memused
  obtain ⟨s₁, hg, ha, hmem, -, -⟩ := h.get (n := 8) (by decide) h8
  have hhead : head shm s = Shmbh.ofBytes (ringLoad s.mem l c r 8) := by
    rw [head, h.contents, ringLoad_take s.mem l c r u 8 h8]
  refine ⟨s₁, ha, hmem, ?_⟩
  have hg' : shmfifoLlGet shm s sizeofShmbh = .ret 8 (ringLoad s.mem l c r 8) s₁ := hg
  unfold shmfifoGet
  rewrite [if_neg (by omega), if_neg (by rw [hused, sizeofShmbh]; omega), hg', hhead]
  rfl

theorem get_corrupt (sz : Int) (h : At shm l c r u s) (h8 : 8 ≤ u) (hc : Corrupt shm s) :
    ∃ s', shmfifoGet shm s sz = .ret EIO none s' := by
  obtain ⟨s₁, ha, -, hget⟩ := get_past_header sz h h8
  refine ⟨s₁, ?_⟩
  rw [hget]
  rcases hc with hc | hc
  · rw [if_pos hc]
  · have hlt : shmfifoLlMemused shm s₁ < (head shm s).sz := by
      rw [h.memused] at hc
      rw [ha.memused]
      omega
    rw [if_pos hlt, ite_self]

theorem length_fits (h : At shm l c r u s) {s₁ : Segment} (h8 : 8 ≤ u)
    (ha : At shm l c ((r + 8) % c) (u - 8) s₁) (hc : ¬ Corrupt shm s) :
    (head shm s).canary = deadbeef ∧ (head shm s).sz ≤ (u - 8 : Nat) ∧
      ¬ shmfifoLlMemused shm s₁ < (head shm s).sz := by
  obtain ⟨hcan, hlen⟩ := not_or.1 hc
  rw [h.memused] at hlen
  refine ⟨not_not.1 hcan, by omega, ?_⟩
  rw [ha.memused]
  omega

theorem get_too_small (h : At shm l c r u s) (h8 : 8 ≤ u) (hc : ¬ Corrupt shm s)
    (hsz : sz < (head shm s).sz) : ∃ s', shmfifoGet shm s sz = .ret EINVAL none s' := by
  obtain ⟨s₁, ha, -, hget⟩ := get_past_header sz h h8
  obtain ⟨hcan, -, hlen⟩ := length_fits h h8 ha hc
  refine ⟨shmfifoLlHrewind shm s₁, ?_⟩
  rw [hget, if_neg (not_not.2 hcan), if_neg hlen, if_pos hsz]

/-- `shmfifo_ll_get` gives up on a length that is not positive. -/
theorem get_aborts (h : At shm l c r u s) (h8 : 8 ≤ u) (hc : ¬ Corrupt shm s)
    (hsz : (head shm s).sz ≤ sz) (h0 : (head shm s).sz ≤ 0) : shmfifoGet shm s sz = .abort := by
  obtain ⟨s₁, ha, -, hget⟩ := get_past_header sz h h8
  obtain ⟨hcan, -, hlen⟩ := length_fits h h8 ha hc
  have habort : shmfifoLlGet shm s₁ (head shm s).sz = .abort := if_pos h0
  rw [hget, if_neg (not_not.2 hcan), if_neg hlen, if_neg (not_lt.2 hsz), habort]

theorem get_record (h : At shm l c r u s) (h8 : 8 ≤ u) (hc : ¬ Corrupt shm s)
    (hsz : (head shm s).sz ≤ sz) (h0 : 0 < (head shm s).sz) :
    ∃ s', shmfifoGet shm s sz =
        .ret 0 (some (((contents shm s).drop 8).take (head shm s).sz.toNat)) s' ∧
      contents shm s' = (contents shm s).drop (8 + (head shm s).sz.toNat) := by
  obtain ⟨s₁, ha, hmem, hget⟩ := get_past_header sz h h8
  obtain ⟨hcan, hfit, hlen⟩ := length_fits h h8 ha hc
  obtain ⟨n, hn⟩ := Int.eq_ofNat_of_zero_le (Int.le_of_lt h0)
  rw [hn] at hfit h0
  obtain ⟨s₂, hg, ha₂, hmem₂, -⟩ := ha.get (n := n) (by omega) (by omega)
  refine ⟨s₂, ?_, ?_⟩
  · rw [hget, if_neg (not_not.2 hcan), if_neg hlen, if_neg (not_lt.2 hsz), hn, hg, hmem,
      Int.toNat_natCast, h.contents, ringLoad_drop s.mem l c r u 8 h8,
      ringLoad_take s.mem l c _ _ n (by omega)]
  · rw [ha₂.contents, hmem₂, hmem, hn, Int.toNat_natCast, ← List.drop_drop, h.contents,
      ringLoad_drop s.mem l c r u 8 h8, ringLoad_drop s.mem l c _ _ n (by omega)]

theorem put_record (h : At shm l c r u s) {d : List UInt8} (hroom : HasRoom shm d.length s) :
    ∃ s', putRetry shm s d = .ret 0 s' ∧ contents shm s' = contents shm s ++ record d := by
  rw [HasRoom, h.memfree, sizeofShmbh] at hroom
  have hl := Shmbh.length_bytes d.length
  have hr := h.r_lt
  obtain ⟨s₁, hp₁, ha₁, hmem₁, -⟩ := h.put (Shmbh.bytes d.length) (by omega)
  obtain ⟨s₂, hp₂, ha₂, hmem₂, -⟩ := ha₁.put d (by omega)
  refine ⟨s₂, ?_, ?_⟩
  · rw [putRetry, h.memfree, sizeofShmbh, if_neg (by omega)]
    simp only [hp₁, hp₂]
  · rw [ha₂.contents, h.contents, hmem₂, ringLoad_splitStore_append hr (by omega), hmem₁,
      ringLoad_splitStore_append hr (by omega), record, List.append_assoc]

end Passes

section Contract
variable (shm : Shmhandle) (sem : Semaphores) (s : Segment) (sz : Int)

/-- Where `shmfifo_get` looks at the oldest record, if it gets there. -/
def getFrom : Option Segment :=
  if 0 < sz ∧ sem.lock = 0 then
    match awake (HasData shm) sem.waits s with
    | .ready s₁ => some s₁
    | _ => none
  else none

/-- The documented return of `shmfifo_get`, for a call that looks at `src`. -/
structure GetContract (src : Option Segment) (call : GetCall) : Prop where
  success : ∀ g, call = .ret g → g.status = 0 → ∃ s₁, src = some s₁ ∧ ¬ Corrupt shm s₁ ∧
    g.data = some (((contents shm s₁).drop 8).take (head shm s₁).sz.toNat) ∧
    contents shm g.seg = (contents shm s₁).drop (8 + (head shm s₁).sz.toNat) ∧
    g.nbytes = some (head shm s₁).sz.toNat
  small : ∀ s₁, src = some s₁ → 8 ≤ (contents shm s₁).length → ¬ Corrupt shm s₁ →
    sz < (head shm s₁).sz → ∃ g, call = .ret g ∧ g.status = EINVAL
  invalid : ∀ s₁, src = some s₁ → 8 ≤ (contents shm s₁).length →
    (Corrupt shm s₁ ∨ (head shm s₁).sz < 0) → ∃ g, call = .ret g ∧ g.status = EIO
  unset : ∀ g, call = .ret g → g.status ≠ 0 → g.nbytes = none
  kept : ∀ g st, call = .ret g → g.section_ = some st → st ≠ 0 → g.status ≠ 0

/-- When the status of `shmfifo_unlock` happens to be the right one. -/
def GetReports : Prop :=
  0 < sz → sem.lock = 0 →
    match awake (HasData shm) sem.waits s with
    | .asleep => True
    | .failed _ _ => sem.unlock ≠ 0
    | .ready s₁ =>
      if shmfifoLlMemused shm s₁ < 8 then sem.unlock ≠ 0
      else if Corrupt shm s₁ then sem.unlock = EIO
      else if (head shm s₁).sz > sz then sem.unlock = EINVAL
      else if (head shm s₁).sz ≤ 0 then (head shm s₁).sz = 0
      else sem.unlock = 0 ↔ sem.notify = 0

/-- The same for `shmfifo_put`. -/
def putFrom : Option Segment :=
  if 0 ≤ sz ∧ sem.lock = 0 ∧ sz + sizeofShmbh ≤ shm.capacity then
    match awake (HasRoom shm sz.toNat) sem.waits s with
    | .ready s₁ => some s₁
    | _ => none
  else none

/-- The documented return of `shmfifo_put`; at most `capacity - 1` bytes are ever
held. -/
structure PutContract (data : List UInt8) (src : Option Segment) (call : PutCall) : Prop where
  success : ∀ p, call = .ret p → p.status = 0 → ∃ s₁, src = some s₁ ∧
    contents shm p.seg = contents shm s₁ ++ record data
  big : 0 ≤ sz → sem.lock = 0 → shm.capacity ≤ sz + sizeofShmbh →
    ∃ p, call = .ret p ∧ p.status = E2BIG
  kept : ∀ p st, call = .ret p → p.section_ = some st → st ≠ 0 → p.status ≠ 0

def PutReports : Prop :=
  0 ≤ sz → sem.lock = 0 →
    if shm.capacity < sz + sizeofShmbh then sem.unlock = E2BIG
    else
      match awake (HasRoom shm sz.toNat) sem.waits s with
      | .asleep => shm.capacity ≠ sz + sizeofShmbh
      | .failed _ _ =>
        if shm.capacity = sz + sizeofShmbh then sem.unlock = E2BIG else sem.unlock ≠ 0
      | .ready _ => sem.unlock = 0 → sem.notify = 0

end Contract

section Returns
variable {shm : Shmhandle} {sem : Semaphores} {s s₁ : Segment} {sz : Int}

theorem contract_nothing_seen {status : Int} {section_ : Option Int} {seg : Segment} :
    GetContract shm sz none (.ret ⟨status, section_, none, none, seg⟩) ↔ status ≠ 0 := by
  constructor
  · intro h h0
    obtain ⟨s₁, hs, -⟩ := h.success _ rfl h0
    cases hs
  · intro h0
    refine ⟨?_, nofun, nofun, fun g hg _ => by cases hg; rfl, fun g _ hg _ _ => by cases hg; exact h0⟩
    intro g hg hstat
    cases hg
    exact absurd hstat h0

/-- A section that failed has copied nothing; what is left is the status. -/
theorem contract_failed {status st : Int} {seg : Segment} (hst : st ≠ 0) :
    GetContract shm sz (some s₁) (.ret ⟨status, some st, none, none, seg⟩) ↔
      status ≠ 0 ∧
      (8 ≤ (contents shm s₁).length → ¬ Corrupt shm s₁ → sz < (head shm s₁).sz → status = EINVAL) ∧
      (8 ≤ (contents shm s₁).length → (Corrupt shm s₁ ∨ (head shm s₁).sz < 0) → status = EIO) := by
  constructor
  · intro h
    refine ⟨h.kept _ st rfl rfl hst, fun h8 hc hsz => ?_, fun h8 hc => ?_⟩
    · obtain ⟨g, hg, hstat⟩ := h.small s₁ rfl h8 hc hsz
      cases hg
      exact hstat
    · obtain ⟨g, hg, hstat⟩ := h.invalid s₁ rfl h8 hc
      cases hg
      exact hstat
  · rintro ⟨h0, hsmall, hinvalid⟩
    refine ⟨?_, ?_, ?_, fun g hg _ => by cases hg; rfl, fun g _ hg _ _ => by cases hg; exact h0⟩
    · intro g hg hstat
      cases hg
      exact absurd hstat h0
    · intro s₂ hs h8 hc hsz
      cases hs
      exact ⟨_, rfl, hsmall h8 hc hsz⟩
    · intro s₂ hs h8 hc
      cases hs
      exact ⟨_, rfl, hinvalid h8 hc⟩

theorem contract_blocked : GetContract shm sz none .blocked where
  success := fun g hg => by cases hg
  small := fun s₁ hs => by cases hs
  invalid := fun s₁ hs => by cases hs
  unset := fun g hg => by cases hg
  kept := fun g st hg => by cases hg

theorem contract_aborted (h8 : 8 ≤ (contents shm s₁).length) (hc : ¬ Corrupt shm s₁)
    (hsz : (head shm s₁).sz ≤ sz) (h0 : (head shm s₁).sz ≤ 0) :
    GetContract shm sz (some s₁) .aborted ↔ (head shm s₁).sz = 0 := by
  constructor
  · intro h
    by_contra hne
    obtain ⟨g, hg, -⟩ := h.invalid s₁ rfl h8 (.inr (by omega))
    cases hg
  · intro hz
    refine ⟨fun g hg => ?_, ?_, ?_, fun g hg => ?_, fun g st hg => ?_⟩
    · cases hg
    · intro s₂ hs _ _ hlt
      cases hs
      omega
    · intro s₂ hs _ hbad
      cases hs
      rcases hbad with hbad | hbad
      · exact absurd hbad hc
      · omega
    · cases hg
    · cases hg

theorem contract_record (hc : ¬ Corrupt shm s₁) (hsz : (head shm s₁).sz ≤ sz)
    (h0 : 0 < (head shm s₁).sz) {data : List UInt8} {seg : Segment}
    (hdata : data = ((contents shm s₁).drop 8).take (head shm s₁).sz.toNat)
    (hlen : data.length = (head shm s₁).sz.toNat)
    (hseg : contents shm seg = (contents shm s₁).drop (8 + (head shm s₁).sz.toNat)) :
    GetContract shm sz (some s₁) (finishGet sem (.ret 0 (some data) seg)) ↔
      (sem.unlock = 0 ↔ sem.notify = 0) := by
  constructor
  · intro h
    constructor
    · intro hu
      by_contra hn
      exact h.kept _ sem.notify rfl rfl hn hu
    · intro hn
      by_contra hu
      have hunset := h.unset _ rfl hu
      simp [hn] at hunset
  · intro hiff
    refine ⟨?_, ?_, ?_, ?_, ?_⟩
    · intro g hg hu
      cases hg
      exact ⟨s₁, rfl, hc, by rw [hdata], hseg, by simp only [if_pos (hiff.1 hu), hlen]⟩
    · intro s₂ hs _ _ hlt
      cases hs
      omega
    · intro s₂ hs _ hbad
      cases hs
      rcases hbad with hbad | hbad
      · exact absurd hbad hc
      · omega
    · intro g hg hu
      cases hg
      exact if_neg fun hn => hu (hiff.2 hn)
    · intro g st hg hst hne hu
      cases hg
      cases hst
      exact hne (hiff.1 hu)

/-- `shmfifo_get` keeps its contract exactly where `shmfifo_unlock` answers what
the section was to return. -/
theorem getContract_iff (hs : Sound shm s) (hw : ∀ x ∈ sem.waits, Sound shm x.2) :
    GetContract shm sz (getFrom shm sem s sz) (shmfifoGetCall shm sem s sz) ↔
      GetReports shm sem s sz := by
  unfold GetReports getFrom shmfifoGetCall
  by_cases hsz : sz ≤ 0
  · rw [if_neg (by omega), if_pos hsz, contract_nothing_seen]
    exact ⟨fun _ h => absurd h (not_lt.2 hsz), fun _ => by decide⟩
  by_cases hl : sem.lock = 0
  swap
  · rw [if_neg (fun h => hl h.2), if_neg hsz, if_pos hl, contract_nothing_seen]
    exact ⟨fun _ _ h => absurd h hl, fun _ => hl⟩
  rw [if_pos ⟨not_le.1 hsz, hl⟩, if_neg hsz, if_neg (not_not.2 hl), getLocked_eq]
  simp only [hl, not_le.1 hsz, forall_const]
  cases ha : awake (HasData shm) sem.waits s with
  | asleep => exact ⟨fun _ => trivial, fun _ => contract_blocked⟩
  | failed status seg => exact contract_nothing_seen
  | ready s₁ =>
    obtain ⟨⟨l, c, r, u, h⟩, hdata⟩ := awake_ready ha hs hw
    have hlen : (contents shm s₁).length = u := by rw [h.contents, length_ringLoad]
    have hused := h.memused
    simp only [HasData, hused] at hdata ⊢
    by_cases h8 : u < 8
    · rw [get_short h (by omega) h8, if_pos (by omega), finishGet, contract_failed (by decide), hlen]
      exact ⟨fun hcon => hcon.1, fun h0 => ⟨h0, by omega, by omega⟩⟩
    rw [if_neg (by omega)]
    by_cases hc : Corrupt shm s₁
    · obtain ⟨seg, hg⟩ := get_corrupt sz h (by omega) hc
      rw [hg, if_pos hc, finishGet, contract_failed (by decide), hlen]
      refine ⟨fun hcon => hcon.2.2 (by omega) (.inl hc), fun he => ⟨?_, fun _ hn => absurd hc hn, fun _ _ => he⟩⟩
      rw [he]
      decide
    rw [if_neg hc]
    by_cases hsmall : (head shm s₁).sz > sz
    · obtain ⟨seg, hg⟩ := get_too_small h (by omega) hc hsmall
      rw [hg, if_pos hsmall, finishGet, contract_failed (by decide), hlen]
      refine ⟨fun hcon => hcon.2.1 (by omega) hc hsmall, fun he => ⟨?_, fun _ _ _ => he, ?_⟩⟩
      · rw [he]
        decide
      · rintro - (hbad | hbad)
        · exact absurd hbad hc
        · omega
    rw [if_neg hsmall]
    by_cases h0 : (head shm s₁).sz ≤ 0
    · rw [get_aborts h (by omega) hc (by omega) h0, if_pos h0]
      exact contract_aborted (by omega) hc (by omega) h0
    · obtain ⟨seg, hg, hseg⟩ := get_record h (by omega) hc (not_lt.1 hsmall) (not_le.1 h0)
      rw [hg, if_neg h0]
      refine contract_record hc (not_lt.1 hsmall) (not_le.1 h0) rfl ?_ hseg
      have hfit := (not_or.1 hc).2
      rw [List.length_take, List.length_drop, hlen]
      omega

theorem putContract_nothing_done {data : List UInt8} {status : Int} {section_ : Option Int}
    {seg : Segment} :
    PutContract shm sem sz data none (.ret ⟨status, section_, seg⟩) ↔
      status ≠ 0 ∧ (0 ≤ sz → sem.lock = 0 → shm.capacity ≤ sz + sizeofShmbh → status = E2BIG) := by
  constructor
  · intro h
    refine ⟨?_, fun hsz hl hcap => ?_⟩
    · intro h0
      obtain ⟨s₁, hs, -⟩ := h.success _ rfl h0
      cases hs
    · obtain ⟨p, hp, hstat⟩ := h.big hsz hl hcap
      cases hp
      exact hstat
  · rintro ⟨h0, hbig⟩
    refine ⟨?_, fun hsz hl hcap => ⟨_, rfl, hbig hsz hl hcap⟩,
      fun p _ hp _ _ => by cases hp; exact h0⟩
    intro p hp hstat
    cases hp
    exact absurd hstat h0

theorem putContract_done {data : List UInt8} (hcap : sz + sizeofShmbh < shm.capacity)
    {seg : Segment} (hseg : contents shm seg = contents shm s₁ ++ record data) :
    PutContract shm sem sz data (some s₁) (finishPut sem (.ret 0 seg)) ↔
      (sem.unlock = 0 → sem.notify = 0) := by
  constructor
  · intro h hu
    by_contra hn
    exact h.kept _ sem.notify rfl rfl hn hu
  · intro himp
    refine ⟨?_, fun _ _ hbig => absurd hcap (not_lt.2 hbig), ?_⟩
    · intro p hp _
      cases hp
      exact ⟨s₁, rfl, hseg⟩
    · intro p st hp hst hne hu
      cases hp
      cases hst
      exact hne (himp hu)

/-- So does `shmfifo_put`; a record that fills the whole segment is waited for. -/
theorem putContract_iff (hs : Sound shm s) (hw : ∀ x ∈ sem.waits, Sound shm x.2)
    (data : Mem UInt8) :
    PutContract shm sem sz (load data 0 sz.toNat) (putFrom shm sem s sz)
        (shmfifoPutCall shm sem s data sz) ↔ PutReports shm sem s sz := by
  obtain ⟨l, c, r, u, h⟩ := hs
  have hcap := h.capacity
  have hwhole : shmfifoLlMemused shm s + shmfifoLlMemfree shm s = shm.capacity := by
    rw [h.memused, h.memfree, hcap]
    omega
  unfold PutReports putFrom shmfifoPutCall
  by_cases hsz : 0 > sz
  · rw [if_neg (by omega), if_pos hsz, putContract_nothing_done]
    exact ⟨fun _ h => absurd h (not_le.2 hsz), fun _ => ⟨by decide, by omega⟩⟩
  by_cases hl : sem.lock = 0
  swap
  · rw [if_neg (fun h => hl h.2.1), if_neg hsz, if_pos hl, putContract_nothing_done]
    exact ⟨fun _ _ h => absurd h hl, fun _ => ⟨hl, fun _ h => absurd h hl⟩⟩
  have hsz' := not_lt.1 hsz
  rw [if_neg hsz, if_neg (not_not.2 hl), hwhole]
  simp only [hl, hsz', forall_const, true_and]
  by_cases hbig : shm.capacity < sz + sizeofShmbh
  · rw [if_neg (not_le.2 hbig), if_pos hbig, if_pos hbig, putContract_nothing_done]
    refine ⟨fun hcon => hcon.2 hsz' hl (Int.le_of_lt hbig), fun he => ⟨?_, fun _ _ _ => he⟩⟩
    rw [he]
    decide
  have hroom : (load data 0 sz.toNat).length = sz.toNat := length_load ..
  rw [if_pos (not_lt.1 hbig), if_neg hbig, if_neg hbig, putLocked_eq, hroom]
  cases ha : awake (HasRoom shm sz.toNat) sem.waits s with
  | asleep =>
    constructor
    · intro hcon hfull
      obtain ⟨p, hp, -⟩ := hcon.big hsz' hl (Int.le_of_eq hfull)
      cases hp
    · intro hfull
      refine ⟨fun p hp => ?_, fun _ _ hcap => ?_, fun p st hp => ?_⟩
      · cases hp
      · exact absurd (le_antisymm hcap (not_lt.1 hbig)) hfull
      · cases hp
  | failed status seg =>
    simp only [putContract_nothing_done]
    split_ifs with hfull
    · refine ⟨fun hcon => hcon.2 hsz' hl (Int.le_of_eq hfull), fun he => ⟨?_, fun _ _ _ => he⟩⟩
      rw [he]
      decide
    · exact ⟨fun hcon => hcon.1,
        fun h0 => ⟨h0, fun _ _ hcap => absurd (le_antisymm hcap (not_lt.1 hbig)) hfull⟩⟩
  | ready s₁ =>
    obtain ⟨⟨l', c', r', u', h'⟩, hready⟩ := awake_ready ha ⟨l, c, r, u, h⟩ hw
    have hfits : sz + sizeofShmbh < shm.capacity := by
      rw [HasRoom, h'.memfree, ← h'.capacity, Int.toNat_of_nonneg hsz'] at hready
      omega
    rw [← hroom] at hready
    obtain ⟨seg, hp, hseg⟩ := put_record h' hready
    simp only [hp]
    exact putContract_done hfits hseg

/-- Both calls: the status of the locked section is lost, and the contract with
it, unless `shmfifo_unlock` returns that very status. -/
theorem contracts_iff (hs : Sound shm s) (hw : ∀ x ∈ sem.waits, Sound shm x.2) :
    (∀ sz, GetContract shm sz (getFrom shm sem s sz) (shmfifoGetCall shm sem s sz) ↔
      GetReports shm sem s sz) ∧
    ∀ (data : Mem UInt8) (sz : Int),
      PutContract shm sem sz (load data 0 sz.toNat) (putFrom shm sem s sz)
        (shmfifoPutCall shm sem s data sz) ↔ PutReports shm sem s sz :=
  ⟨fun _ => getContract_iff hs hw, fun data _ => putContract_iff hs hw data⟩

/-- Eight record bytes, no failing semaphore call. -/
def allWell : Semaphores := ⟨0, [], 0, 0⟩
def created : Segment := shmfifoCreate (fun _ => 0) 0 36 0

theorem sound_created : Sound ⟨0, 36⟩ created :=
  ⟨20, 16, 0, 0, by decide, by decide, by decide, by decide, by decide, by decide⟩

theorem allWell_waits : ∀ x ∈ allWell.waits, Sound ⟨0, 36⟩ x.2 := nofun

/-- A record of two bytes behind that. -/
def filled : Segment := (shmfifoLlPut ⟨0, 36⟩ (shmfifoLlPut ⟨0, 36⟩ created (Shmbh.bytes 2)).2 [7, 7]).2

theorem sound_filled : Sound ⟨0, 36⟩ filled :=
  ⟨20, 16, 0, 10, by decide, by decide, by decide, by decide, by decide, by decide⟩

/-- A record is put into the empty segment, and one is taken out. -/
theorem contracts_iff_run :
    PutContract ⟨0, 36⟩ allWell 2 (load (fun _ => 7) 0 (2 : Int).toNat)
        (putFrom ⟨0, 36⟩ allWell created 2)
        (shmfifoPutCall ⟨0, 36⟩ allWell created (fun _ => 7) 2) ∧
      getFrom ⟨0, 36⟩ allWell filled 8 = some filled ∧ (contents ⟨0, 36⟩ filled).drop 8 = [7, 7] ∧
      GetContract ⟨0, 36⟩ 8 (getFrom ⟨0, 36⟩ allWell filled 8) (shmfifoGetCall ⟨0, 36⟩ allWell filled 8) := by
  have hroom : awake (HasRoom ⟨0, 36⟩ 2) allWell.waits created = .ready created := if_pos (by decide)
  have hdata : awake (HasData ⟨0, 36⟩) allWell.waits filled = .ready filled := if_pos (by decide)
  have hwhole : ¬ shmfifoLlMemused ⟨0, 36⟩ filled < 8 ∧ ¬ Corrupt ⟨0, 36⟩ filled ∧
      (head ⟨0, 36⟩ filled).sz = 2 := by
    decide
  refine ⟨((contracts_iff sound_created allWell_waits).2 (fun _ => 7) 2).2 fun _ _ => ?_, ?_, by decide,
    ((contracts_iff sound_filled allWell_waits).1 8).2 fun _ _ => ?_⟩
  · rw [if_neg (by decide), show (2 : Int).toNat = 2 from rfl, hroom]
    exact fun _ => rfl
  · rw [getFrom, if_pos (by decide), hdata]
  · rw [hdata]
    simp only [hwhole]
    decide

/-- A record of nine bytes in a segment of sixteen: nothing is appended and the
status is not E2BIG. -/
theorem big_record_reported_written :
    ¬ PutContract ⟨0, 36⟩ allWell 9 (load (fun _ => 0) 0 (9 : Int).toNat)
        (putFrom ⟨0, 36⟩ allWell created 9)
        (shmfifoPutCall ⟨0, 36⟩ allWell created (fun _ => 0) 9) := by
  intro hcon
  have hreports := (putContract_iff sound_created allWell_waits _).1 hcon
  have hunlock := hreports (by decide) rfl
  rw [if_pos (by decide)] at hunlock
  exact absurd hunlock (by decide)

end Returns
end Noaaport.Shmfifo
