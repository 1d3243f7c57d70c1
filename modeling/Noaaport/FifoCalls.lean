import Noaaport.FifoRefinement

/-! The functions of `fifo.c` with every pthread call that can fail, called by any
thread at any time: what a call that does not return 0 leaves alone. -/
namespace Noaaport.FifoCalls
open Lib

/-- Which of the pthread functions return 0, in the section at hand. -/
structure Answers where
  lockWrite : Bool
  lockRead : Bool
  lock : Bool
  wait : Bool
  signalWrite : Bool
  signalRead : Bool

inductive Pass where
  | ret (status : Nat)
  | wait
  deriving DecidableEq

section Sections
variable (fifo : Fifo) (ans : Answers)

/-- From the lock of the FIFO, or a return from `pthread_cond_wait`, to the next wait or
the end. -/
def fifoWriteReserve (nbytes : Nat) (waited : Bool) : Pass × Fifo :=
  if (if waited then ans.wait else ans.lock) = false then (.ret 2, fifo)
  else
    match Fifo.fifoWriteReserve fifo nbytes with
    | .closed => (.ret 3, fifo)
    | .granted _ _ fifo => (.ret 0, fifo)
    | .wait => (.wait, fifo)

/-- The common end. No result: a remainder by zero. -/
def commit (nbytes : Nat) (owner : Bool) : Option (Nat × Fifo) :=
  if ans.signalRead = false then some (2, fifo)
  else if fifo.size = 0 then none
  else some (Fifo.commit fifo nbytes owner)

def fifoWriteUpdate (nbytes : Nat) (owner : Bool) : Option (Nat × Fifo) :=
  if ans.lock = false then some (2, fifo)
  else if nbytes > fifo.nreserved then some (1, fifo)
  else commit fifo ans nbytes owner

def fifoCopy (bs : List UInt8) (owner : Bool) : Option (Nat × Fifo) :=
  let nbytes := bs.length
  if ans.lock = false then some (2, fifo)
  else if nbytes > fifo.nreserved then some (1, fifo)
  else
    let avail := fifo.size - fifo.nextWrite
    let n := if avail < nbytes then avail else nbytes
    let buf := store fifo.buf fifo.nextWrite (bs.take n)
    let buf := if n < nbytes then store buf 0 (bs.drop n) else buf
    commit { fifo with buf } ans nbytes owner

def fifoRead (nbytes : Nat) (waited : Bool) : Pass × Fifo :=
  if (if waited then ans.wait else ans.lock) = false then (.ret 2, fifo)
  else
    match Fifo.fifoRead fifo nbytes with
    | .closed => (.ret 3, fifo)
    | .ok _ fifo' => if ans.signalWrite then (.ret 0, fifo') else (.ret 2, fifo)
    | .wait => (.wait, fifo)

/-- The status of the second signal replaces that of the first. -/
def fifoCloseWhenEmpty : Nat × Fifo :=
  if ans.lock = false then (2, fifo)
  else (if ans.signalRead then 0 else 2, { fifo with closeIfEmpty := true })

def healthy : Answers := ⟨true, true, true, true, true, true⟩

/-- Where no pthread call fails, these are the functions of `Fifo`. -/
theorem healthy_commits (hS : fifo.size ≠ 0) (nbytes : Nat) (bs : List UInt8) (owner : Bool) :
    fifoWriteUpdate fifo healthy nbytes owner = some (Fifo.fifoWriteUpdate fifo nbytes owner) ∧
      fifoCopy fifo healthy bs owner = some (Fifo.fifoCopy fifo bs owner) := by
  have hcommit : ∀ (f : Fifo) (n : Nat), f.size = fifo.size →
      commit f healthy n owner = some (Fifo.commit f n owner) := by
    intro f n hf
    rw [commit, if_neg (by decide), if_neg (hf ▸ hS)]
  constructor
  · rw [fifoWriteUpdate, if_neg (by decide), Fifo.fifoWriteUpdate, hcommit fifo nbytes rfl]
    split_ifs <;> rfl
  · rw [fifoCopy, if_neg (by decide), Fifo.fifoCopy]
    by_cases hn : bs.length > fifo.nreserved
    · rw [if_pos hn, if_pos hn]
    · rw [if_neg hn, if_neg hn]
      exact hcommit _ _ rfl

end Sections

/-- Where a thread is: in a call only while it may have to wait. -/
inductive Pc where
  | idle
  | reserving (n : Nat) (waited : Bool)
  | reading (n : Nat) (waited : Bool)
  deriving DecidableEq

structure Sys (Tid : Type*) where
  fifo : Fifo
  writeMutex : Option Tid
  readMutex : Option Tid
  pc : Tid → Pc

/-- What a thread does next. -/
inductive Act where
  | reserve (n : Nat)
  | update (n : Nat)
  | copy (bs : List UInt8)
  | read (n : Nat)
  | close
  | resume

inductive Outcome where
  | ret (status : Nat)
  | inside
  | stored
  deriving DecidableEq

section Step
variable {Tid : Type*} [DecidableEq Tid]

def Sys.goto (s : Sys Tid) (t : Tid) (c : Pc) : Sys Tid := { s with pc := Function.update s.pc t c }

/-- The end of `fifoWriteUpdate` and `fifoCopy`, with the write-mutex unlocked if it was
the caller's. -/
def Sys.ended (s : Sys Tid) (r : Nat × Fifo) : Outcome × Sys Tid :=
  (.ret r.1, { s with fifo := r.2, writeMutex := if r.1 = 0 then none else s.writeMutex })

/-- The error-checking mutexes refuse a thread that has them already; another one waits. -/
def step (s : Sys Tid) (t : Tid) (a : Act) (ans : Answers) : Option (Outcome × Sys Tid) :=
  match a, s.pc t with
  | .reserve n, .idle =>
    if n > s.fifo.size then some (.ret 1, s)
    else if s.writeMutex = some t ∨ ans.lockWrite = false then some (.ret 2, s)
    else if s.writeMutex = none then
      some (.inside, { s.goto t (.reserving n false) with writeMutex := some t })
    else none
  | .resume, .reserving n waited =>
    match fifoWriteReserve s.fifo ans n waited with
    | (.ret 0, fifo) => some (.ret 0, { s.goto t .idle with fifo })
    | (.ret status, fifo) => some (.ret status, { s.goto t .idle with fifo, writeMutex := none })
    | (.wait, fifo) => some (.inside, { s.goto t (.reserving n true) with fifo })
  | .update n, .idle =>
    (fifoWriteUpdate s.fifo ans n (s.writeMutex = some t)).map s.ended
  | .copy bs, .idle => (fifoCopy s.fifo ans bs (s.writeMutex = some t)).map s.ended
  | .read n, .idle =>
    if n > s.fifo.size then some (.ret 1, s)
    else if s.readMutex = some t ∨ ans.lockRead = false then some (.ret 2, s)
    else if s.readMutex = none then
      some (.inside, { s.goto t (.reading n false) with readMutex := some t })
    else none
  | .resume, .reading n waited =>
    match fifoRead s.fifo ans n waited with
    | (.ret status, fifo) => some (.ret status, { s.goto t .idle with fifo, readMutex := none })
    | (.wait, fifo) => some (.inside, { s.goto t (.reading n true) with fifo })
  | .close, .idle =>
    some (.ret (fifoCloseWhenEmpty s.fifo ans).1, { s with fifo := (fifoCloseWhenEmpty s.fifo ans).2 })
  | _, _ => none

def Sys.init (buf : Mem UInt8) (size : Nat) : Sys Tid :=
  { fifo := Fifo.initializeFifo buf size, writeMutex := none, readMutex := none, pc := fun _ => .idle }

def Sys.stored (s : Sys Tid) (addr : Nat) (b : UInt8) : Sys Tid :=
  { s with fifo := { s.fifo with buf := store s.fifo.buf addr [b] } }

/-- A section of a call, or a store through a pointer into the buffer: any thread, anywhere. -/
def Step (s : Sys Tid) (o : Outcome) (s' : Sys Tid) : Prop :=
  (∃ t a ans, step s t a ans = some (o, s')) ∨ o = .stored ∧ ∃ addr b, s' = s.stored addr b

end Step

section Invariant
variable {Tid : Type*} [DecidableEq Tid] {S : Nat} {f f' : Fifo} {s s' : Sys Tid} {t : Tid} {a : Act}
  {ans : Answers} {o : Outcome}

/-- What the indices always obey. -/
structure Inv (S : Nat) (f : Fifo) : Prop where
  size : f.size = S
  room : f.nbytes + f.nreserved ≤ S
  next : f.nextWrite < S ∨ S = 0

/-- What a failed call is to leave alone. -/
structure Unchanged (f f' : Fifo) : Prop where
  nextWrite : f'.nextWrite = f.nextWrite
  nbytes : f'.nbytes = f.nbytes
  nreserved : f'.nreserved = f.nreserved
  unread : f'.unread = f.unread

theorem Unchanged.refl (f : Fifo) : Unchanged f f := ⟨rfl, rfl, rfl, rfl⟩

theorem Inv.withBuf (h : Inv S f) (buf : Mem UInt8) : Inv S { f with buf } :=
  ⟨h.size, h.room, h.next⟩

theorem Inv.commit (h : Inv S f) (hS : S ≠ 0) {n : Nat} (hn : n ≤ f.nreserved) (owner : Bool) :
    Inv S (Fifo.commit f n owner).2 where
  size := h.size
  room := by
    have hroom := h.room
    change f.nbytes + n + 0 ≤ S
    omega
  next := by
    left
    change (f.nextWrite + n) % f.size < S
    rw [h.size]
    exact Nat.mod_lt _ (Nat.pos_of_ne_zero hS)

/-- What the end of `fifoWriteUpdate` and `fifoCopy` does to the indices. -/
theorem commit_cases {n : Nat} {owner : Bool} {r : Nat × Fifo}
    (h : commit f ans n owner = some r) :
    ans.signalRead = false ∧ r = (2, f) ∨
      ans.signalRead = true ∧ f.size ≠ 0 ∧ r = Fifo.commit f n owner := by
  unfold commit at h
  split_ifs at h with h1 h2
  · exact .inl ⟨h1, (Option.some.inj h).symm⟩
  · exact .inr ⟨by simpa using h1, h2, (Option.some.inj h).symm⟩

theorem commit_failed_iff {n : Nat} {owner : Bool} {r : Nat × Fifo} (hn : n ≤ f.nreserved)
    (hi : Inv S f) (h : commit f ans n owner = some r) (hfail : r.1 ≠ 0) :
    Unchanged f r.2 ↔ ¬ (0 < f.nreserved ∧ ans.signalRead = true ∧ owner = false) := by
  obtain ⟨hs, rfl⟩ | ⟨hs, hS, rfl⟩ := commit_cases h
  · refine ⟨fun _ hu => ?_, fun _ => .refl f⟩
    rw [hs] at hu
    exact absurd hu.2.1 (by decide)
  · have howner : owner = false := by
      cases owner with
      | false => rfl
      | true => exact absurd rfl hfail
    constructor
    · rintro hu ⟨hpos, -⟩
      have hres : 0 = f.nreserved := hu.nreserved
      omega
    · intro hnot
      have hres : f.nreserved = 0 := by
        by_contra hne
        exact hnot ⟨Nat.pos_of_ne_zero hne, hs, howner⟩
      have hn0 : n = 0 := by omega
      subst hn0
      have hlt : f.nextWrite < f.size := by
        have hsize := hi.size
        obtain hlt | h0 := hi.next <;> omega
      have hnext : (f.nextWrite + 0) % f.size = f.nextWrite := Nat.mod_eq_of_lt hlt
      refine ⟨hnext, rfl, hres.symm, ?_⟩
      simp only [Fifo.unread, Fifo.commit, Nat.add_zero, Nat.mod_eq_of_lt hlt]

/-- The bytes that are copied go where no unread byte is. -/
theorem unread_copied (hi : Inv S f) {bs : List UInt8} (hn : bs.length ≤ f.nreserved) :
    Unchanged f { f with buf := splitStore f.buf 0 f.size f.nextWrite bs } := by
  refine ⟨rfl, rfl, rfl, ?_⟩
  have hroom := hi.room
  have hsize := hi.size
  obtain hlt | h0 := hi.next
  · exact Fifo.unread_splitStore bs (by omega) (by omega)
  · have hzero : f.nbytes = 0 := by omega
    simp only [Fifo.unread, hzero, ringLoad_zero]

theorem Unchanged.trans {f'' : Fifo} (h : Unchanged f f') (h' : Unchanged f' f'') : Unchanged f f'' :=
  ⟨h'.nextWrite.trans h.nextWrite, h'.nbytes.trans h.nbytes, h'.nreserved.trans h.nreserved,
    h'.unread.trans h.unread⟩

theorem Unchanged.symm (h : Unchanged f f') : Unchanged f' f :=
  ⟨h.nextWrite.symm, h.nbytes.symm, h.nreserved.symm, h.unread.symm⟩

/-- Both functions that commit, up to the common end. -/
theorem update_cases {n : Nat} {owner : Bool} {r : Nat × Fifo}
    (h : fifoWriteUpdate f ans n owner = some r) :
    (ans.lock = false ∨ f.nreserved < n) ∧ r.1 ≠ 0 ∧ r.2 = f ∨
      ans.lock = true ∧ n ≤ f.nreserved ∧ commit f ans n owner = some r := by
  unfold fifoWriteUpdate at h
  split_ifs at h with h1 h2
  · cases h
    exact .inl ⟨.inl h1, Nat.succ_ne_zero 1, rfl⟩
  · cases h
    exact .inl ⟨.inr h2, Nat.succ_ne_zero 0, rfl⟩
  · exact .inr ⟨by simpa using h1, Nat.le_of_not_lt h2, h⟩

theorem fifoCopy_eq {bs : List UInt8} (owner : Bool) (hl : ans.lock = true)
    (hn : bs.length ≤ f.nreserved) :
    fifoCopy f ans bs owner =
      commit { f with buf := splitStore f.buf 0 f.size f.nextWrite bs } ans bs.length owner := by
  rw [fifoCopy, if_neg (by simp [hl]), if_neg (by omega), ← Fifo.copy_buf]

theorem copy_cases {bs : List UInt8} {owner : Bool} {r : Nat × Fifo}
    (h : fifoCopy f ans bs owner = some r) :
    (ans.lock = false ∨ f.nreserved < bs.length) ∧ r.1 ≠ 0 ∧ r.2 = f ∨
      ans.lock = true ∧ bs.length ≤ f.nreserved ∧
        commit { f with buf := splitStore f.buf 0 f.size f.nextWrite bs } ans bs.length owner = some r := by
  by_cases hl : ans.lock = true
  · by_cases hn : bs.length ≤ f.nreserved
    · exact .inr ⟨hl, hn, by rw [← fifoCopy_eq owner hl hn, h]⟩
    · rw [fifoCopy, if_neg (by simp [hl]), if_pos (by omega)] at h
      cases h
      exact .inl ⟨.inr (by omega), Nat.succ_ne_zero 0, rfl⟩
  · rw [fifoCopy, if_pos (by simpa using hl)] at h
    cases h
    exact .inl ⟨.inl (by simpa using hl), Nat.succ_ne_zero 1, rfl⟩

/-- A commit of a reservation that is not the caller's. -/
def Usurps (s : Sys Tid) (t : Tid) (ans : Answers) (n : Nat) : Prop :=
  ans.lock = true ∧ n ≤ s.fifo.nreserved ∧ 0 < s.fifo.nreserved ∧ ans.signalRead = true ∧
    s.writeMutex ≠ some t

def Act.usurps (s : Sys Tid) (t : Tid) (ans : Answers) : Act → Prop
  | .update n => Usurps s t ans n
  | .copy bs => Usurps s t ans bs.length
  | _ => False

omit [DecidableEq Tid] in
/-- Nothing is committed before the two checks. -/
theorem not_usurps {n : Nat} (h : ans.lock = false ∨ s.fifo.nreserved < n) : ¬ Usurps s t ans n := by
  intro hu
  obtain hlock | hlt := h
  · exact absurd (hlock.symm.trans hu.1) (by decide)
  · exact absurd hu.2.1 (Nat.not_le_of_lt hlt)

theorem update_failed_iff {n : Nat} {r : Nat × Fifo} (hi : Inv S s.fifo)
    (h : fifoWriteUpdate s.fifo ans n (s.writeMutex = some t) = some r) (hfail : r.1 ≠ 0) :
    Unchanged s.fifo r.2 ↔ ¬ Usurps s t ans n := by
  obtain ⟨hor, -, heq⟩ | ⟨hl, hn, hc⟩ := update_cases h
  · rw [heq]
    exact iff_of_true (.refl _) (not_usurps hor)
  · rw [commit_failed_iff hn hi hc hfail]
    simp [Usurps, hl, hn]

theorem copy_failed_iff {bs : List UInt8} {r : Nat × Fifo} (hi : Inv S s.fifo)
    (h : fifoCopy s.fifo ans bs (s.writeMutex = some t) = some r) (hfail : r.1 ≠ 0) :
    Unchanged s.fifo r.2 ↔ ¬ Usurps s t ans bs.length := by
  obtain ⟨hor, -, heq⟩ | ⟨hl, hn, hc⟩ := copy_cases h
  · rw [heq]
    exact iff_of_true (.refl _) (not_usurps hor)
  · have hu := unread_copied hi hn
    have hiff := commit_failed_iff (f := { s.fifo with
      buf := splitStore s.fifo.buf 0 s.fifo.size s.fifo.nextWrite bs }) hn (hi.withBuf _) hc hfail
    have hcond : (0 < s.fifo.nreserved ∧ ans.signalRead = true ∧
        decide (s.writeMutex = some t) = false) ↔ Usurps s t ans bs.length := by
      simp [Usurps, hl, hn]
    refine Iff.trans ⟨fun h => hu.symm.trans h, fun h => hu.trans h⟩ (hiff.trans (not_congr hcond))

theorem fifoWriteReserve_cases (f : Fifo) (ans : Answers) (n : Nat) (waited : Bool) :
    (fifoWriteReserve f ans n waited).1 ≠ .ret 0 ∧ (fifoWriteReserve f ans n waited).2 = f ∨
      (fifoWriteReserve f ans n waited).1 = .ret 0 ∧ n ≤ f.size - f.nbytes ∧
        (fifoWriteReserve f ans n waited).2 = { f with nreserved := n } := by
  unfold fifoWriteReserve Fifo.fifoWriteReserve
  by_cases hans : (if waited then ans.wait else ans.lock) = false
  · rw [if_pos hans]
    exact .inl ⟨nofun, rfl⟩
  rw [if_neg hans]
  by_cases hclosed : f.closeIfEmpty ∧ f.nbytes = 0
  · rw [if_pos hclosed]
    exact .inl ⟨nofun, rfl⟩
  rw [if_neg hclosed]
  by_cases hroom : n ≤ f.size - f.nbytes
  · rw [if_pos hroom]
    exact .inr ⟨rfl, hroom, rfl⟩
  · rw [if_neg hroom]
    exact .inl ⟨nofun, rfl⟩

theorem fifoRead_cases (f : Fifo) (ans : Answers) (n : Nat) (waited : Bool) :
    (fifoRead f ans n waited).1 ≠ .ret 0 ∧ (fifoRead f ans n waited).2 = f ∨
      (fifoRead f ans n waited).1 = .ret 0 ∧
        (fifoRead f ans n waited).2 = { f with nbytes := f.nbytes - n } := by
  unfold fifoRead Fifo.fifoRead
  by_cases hans : (if waited then ans.wait else ans.lock) = false
  · rw [if_pos hans]
    exact .inl ⟨nofun, rfl⟩
  rw [if_neg hans]
  by_cases hclosed : f.closeIfEmpty ∧ f.nbytes = 0
  · rw [if_pos hclosed]
    exact .inl ⟨nofun, rfl⟩
  rw [if_neg hclosed]
  by_cases hdata : n ≤ f.nbytes
  · rw [if_pos hdata]
    cases hs : ans.signalWrite with
    | true => exact .inr ⟨rfl, rfl⟩
    | false => exact .inl ⟨nofun, rfl⟩
  · rw [if_neg hdata]
    exact .inl ⟨nofun, rfl⟩

theorem fifoCloseWhenEmpty_cases (f : Fifo) (ans : Answers) :
    (fifoCloseWhenEmpty f ans).2 = f ∨
      (fifoCloseWhenEmpty f ans).2 = { f with closeIfEmpty := true } := by
  unfold fifoCloseWhenEmpty
  by_cases hl : ans.lock = false
  · rw [if_pos hl]
    exact .inl rfl
  · rw [if_neg hl]
    exact .inr rfl

/-- Everything a section of a call can do to the FIFO. -/
inductive Effect (s : Sys Tid) (t : Tid) (ans : Answers) : Act → Outcome → Fifo → Prop where
  | nothing {a : Act} {o : Outcome} {f : Fifo} (hf : Unchanged s.fifo f) (hb : f.size = s.fifo.size)
      (ha : ∀ n, a ≠ .update n) (hc : ∀ bs, a ≠ .copy bs) : Effect s t ans a o f
  | reserved (n : Nat) (hn : n ≤ s.fifo.size - s.fifo.nbytes) :
      Effect s t ans .resume (.ret 0) { s.fifo with nreserved := n }
  | read (n : Nat) : Effect s t ans .resume (.ret 0) { s.fifo with nbytes := s.fifo.nbytes - n }
  | updated (n : Nat) (r : Nat × Fifo)
      (h : fifoWriteUpdate s.fifo ans n (s.writeMutex = some t) = some r) :
      Effect s t ans (.update n) (.ret r.1) r.2
  | copied (bs : List UInt8) (r : Nat × Fifo)
      (h : fifoCopy s.fifo ans bs (s.writeMutex = some t) = some r) :
      Effect s t ans (.copy bs) (.ret r.1) r.2

theorem step_effect (h : step s t a ans = some (o, s')) : Effect s t ans a o s'.fifo := by
  have hsame : ∀ {a : Act} {o : Outcome}, (∀ n, a ≠ .update n) → (∀ bs, a ≠ .copy bs) →
      Effect s t ans a o s.fifo := fun ha hc => .nothing (.refl _) rfl ha hc
  unfold step at h
  split at h
  · next n hpc =>
    split_ifs at h
    · cases h
      exact hsame nofun nofun
    · cases h
      exact hsame nofun nofun
    · cases h
      exact hsame nofun nofun
  · next n waited hpc =>
    have hcases := fifoWriteReserve_cases s.fifo ans n waited
    split at h
    · next f heq =>
      cases h
      rw [heq] at hcases
      obtain ⟨hne, -⟩ | ⟨-, hn, rfl⟩ := hcases
      · exact absurd rfl hne
      · exact .reserved n hn
    · next status f hne heq =>
      cases h
      rw [heq] at hcases
      obtain ⟨-, rfl⟩ | ⟨hret, -⟩ := hcases
      · exact hsame nofun nofun
      · cases hret
        exact (hne rfl).elim
    · next f heq =>
      cases h
      rw [heq] at hcases
      obtain ⟨-, rfl⟩ | ⟨hret, -⟩ := hcases
      · exact hsame nofun nofun
      · cases hret
  · next n hpc =>
    obtain ⟨r, hr, heq⟩ := Option.map_eq_some_iff.1 h
    cases heq
    exact .updated n r hr
  · next bs hpc =>
    obtain ⟨r, hr, heq⟩ := Option.map_eq_some_iff.1 h
    cases heq
    exact .copied bs r hr
  · next n hpc =>
    split_ifs at h
    · cases h
      exact hsame nofun nofun
    · cases h
      exact hsame nofun nofun
    · cases h
      exact hsame nofun nofun
  · next n waited hpc =>
    have hcases := fifoRead_cases s.fifo ans n waited
    split at h
    · next status f heq =>
      cases h
      rw [heq] at hcases
      obtain ⟨-, rfl⟩ | ⟨hret, rfl⟩ := hcases
      · exact hsame nofun nofun
      · cases hret
        exact .read n
    · next f heq =>
      cases h
      rw [heq] at hcases
      obtain ⟨-, rfl⟩ | ⟨hret, -⟩ := hcases
      · exact hsame nofun nofun
      · cases hret
  · next hpc =>
    cases h
    obtain hc | hc := fifoCloseWhenEmpty_cases s.fifo ans
    · rw [hc]
      exact hsame nofun nofun
    · rw [hc]
      exact .nothing ⟨rfl, rfl, rfl, rfl⟩ rfl nofun nofun
  · cases h

theorem Inv.unchanged (hi : Inv S f) (hu : Unchanged f f') (hs : f'.size = f.size) : Inv S f' where
  size := hs.trans hi.size
  room := by
    rw [hu.nbytes, hu.nreserved]
    exact hi.room
  next := by
    rw [hu.nextWrite]
    exact hi.next

theorem Inv.ended (hi : Inv S f) {n : Nat} {owner : Bool} {r : Nat × Fifo} (hn : n ≤ f.nreserved)
    (h : FifoCalls.commit f ans n owner = some r) : Inv S r.2 := by
  obtain ⟨-, rfl⟩ | ⟨-, hS, rfl⟩ := commit_cases h
  · exact hi
  · exact hi.commit (hi.size ▸ hS) hn owner

theorem Inv.step (hi : Inv S s.fifo) (h : step s t a ans = some (o, s')) : Inv S s'.fifo := by
  have hroom := hi.room
  have hsize := hi.size
  have heffect := step_effect h
  generalize s'.fifo = f' at heffect ⊢
  cases heffect with
  | nothing hf hb => exact hi.unchanged hf hb
  | reserved n hn =>
    refine ⟨hi.size, ?_, hi.next⟩
    change s.fifo.nbytes + n ≤ S
    omega
  | read n =>
    refine ⟨hi.size, ?_, hi.next⟩
    change s.fifo.nbytes - n + s.fifo.nreserved ≤ S
    omega
  | updated n r hr =>
    obtain ⟨-, -, heq⟩ | ⟨-, hn, hc⟩ := update_cases hr
    · exact heq ▸ hi
    · exact hi.ended hn hc
  | copied bs r hr =>
    obtain ⟨-, -, heq⟩ | ⟨-, hn, hc⟩ := copy_cases hr
    · exact heq ▸ hi
    · exact (hi.withBuf (splitStore s.fifo.buf 0 s.fifo.size s.fifo.nextWrite bs)).ended hn hc

theorem Inv.run (buf : Mem UInt8) {os : List Outcome}
    (h : Trace Step (Sys.init buf S : Sys Tid) os s) : Inv S s.fifo := by
  refine h.invariant (P := fun s => Inv S s.fifo) ?_ ⟨rfl, Nat.zero_le _, (Nat.eq_zero_or_pos S).symm⟩
  rintro s o s' hi (⟨t, a, ans, hstep⟩ | ⟨-, addr, b, rfl⟩)
  · exact hi.step hstep
  · exact hi.withBuf _

/-- In every reachable state a call that does not return 0 leaves the FIFO as it was,
exactly if it does not commit what another thread has reserved. -/
theorem failed_calls_iff (buf : Mem UInt8) {os : List Outcome}
    (hrun : Trace Step (Sys.init buf S) os s) (h : step s t a ans = some (o, s'))
    (hfail : o ≠ .ret 0) : Unchanged s.fifo s'.fifo ↔ ¬ a.usurps s t ans := by
  have hi := Inv.run buf hrun
  have heffect := step_effect h
  generalize s'.fifo = f' at heffect ⊢
  cases heffect with
  | nothing hf hb ha hc =>
    refine ⟨fun _ hu => ?_, fun _ => hf⟩
    cases a with
    | update n => exact ha n rfl
    | copy bs => exact hc bs rfl
    | reserve n => exact hu
    | read n => exact hu
    | close => exact hu
    | resume => exact hu
  | reserved => exact absurd rfl hfail
  | read => exact absurd rfl hfail
  | updated n r hr => exact update_failed_iff hi hr fun h0 => hfail (congrArg Outcome.ret h0)
  | copied bs r hr => exact copy_failed_iff hi hr fun h0 => hfail (congrArg Outcome.ret h0)

end Invariant

/-- Thread 0 has 4 of 16 bytes reserved. -/
def reserved : Sys Nat :=
  { Sys.init (fun _ => 0) 16 with
    fifo := { Fifo.initializeFifo (fun _ => 0) 16 with nreserved := 4 }
    writeMutex := some 0
    pc := Function.update (Function.update (fun _ => .idle) 0 (.reserving 4 false)) 0 .idle }

theorem reserved_run : Trace Step (Sys.init (fun _ => 0) 16) [.inside, .ret 0] reserved :=
  .cons (.inl ⟨0, .reserve 4, healthy, rfl⟩) (.cons (.inl ⟨0, .resume, healthy, rfl⟩) (.nil _))

/-- Two bytes of thread 1 on their way, when the signal fails. -/
def halfCopied : Sys Nat :=
  { reserved with fifo := { reserved.fifo with buf := store reserved.fifo.buf 0 [1, 2] } }

theorem failed_calls_iff_run : Unchanged reserved.fifo halfCopied.fifo := by
  have hstep : step reserved 1 (.copy [1, 2]) { healthy with signalRead := false } =
      some (.ret 2, halfCopied) := rfl
  exact (failed_calls_iff _ reserved_run hstep nofun).2 fun hu => absurd hu.2.2.2.1 (by decide)

/-- Thread 1 commits the 4 bytes that thread 0 has reserved and is about to fill. -/
theorem foreign_commit : Trace Step (Sys.init (fun _ => 0) 16) [.inside, .ret 0] reserved ∧
    ∃ s', step reserved 1 (.update 4) healthy = some (.ret 1, s') ∧
      reserved.fifo.nbytes = 0 ∧ s'.fifo.nbytes = 4 ∧ reserved.fifo.nreserved = 4 ∧
      s'.fifo.nreserved = 0 ∧ ¬ Unchanged reserved.fifo s'.fifo :=
  ⟨reserved_run, _, rfl, rfl, rfl, rfl, rfl, fun hu => absurd hu.nbytes (by decide)⟩

end Noaaport.FifoCalls
