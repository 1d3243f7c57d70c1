import Noaaport.Fifo

/-! `fifo.c` refines a byte queue with one outstanding reservation, under every
interleaving of any number of writers and readers. -/
namespace Noaaport.Fifo
open Lib

section Ring
variable {f : Fifo} {r : Nat}

/-- The offset of the oldest byte, pinned down by where the data ends. -/
theorem exists_start (hw : f.nextWrite < f.size) (hn : f.nbytes ≤ f.size) :
    ∃ r, r < f.size ∧ (r + f.nbytes) % f.size = f.nextWrite := by
  by_cases h : f.nbytes ≤ f.nextWrite
  · refine ⟨f.nextWrite - f.nbytes, by omega, ?_⟩
    rw [Nat.sub_add_cancel h, Nat.mod_eq_of_lt hw]
  · refine ⟨f.nextWrite + f.size - f.nbytes, by omega, ?_⟩
    rw [Nat.sub_add_cancel (by omega), Nat.add_mod_right, Nat.mod_eq_of_lt hw]

theorem start_eq (hr : r < f.size) (hn : f.nbytes ≤ f.size)
    (h : (r + f.nbytes) % f.size = f.nextWrite) :
    (f.nextWrite + f.size - f.nbytes) % f.size = r := by
  have hm := Nat.mod_add_div (r + f.nbytes) f.size
  by_cases hc : r + f.nbytes < f.size
  · rw [Nat.mod_eq_of_lt hc] at h
    have he : f.nextWrite + f.size - f.nbytes = r + f.size := by omega
    rw [he, Nat.add_mod_right, Nat.mod_eq_of_lt hr]
  · rw [Nat.mod_eq_sub_mod (by omega), Nat.mod_eq_of_lt (by omega)] at h
    have he : f.nextWrite + f.size - f.nbytes = r := by omega
    rw [he, Nat.mod_eq_of_lt hr]

theorem unread_eq (hr : r < f.size) (hn : f.nbytes ≤ f.size)
    (h : (r + f.nbytes) % f.size = f.nextWrite) :
    f.unread = ringLoad f.buf 0 f.size r f.nbytes := by
  rw [unread, start_eq hr hn h]

/-- Committing `k` bytes appends what stands in the space behind the data. -/
theorem unread_commit (k : Nat) (owner : Bool) (hw : f.nextWrite < f.size)
    (hk : f.nbytes + k ≤ f.size) :
    (commit f k owner).2.unread = f.unread ++ f.space k := by
  obtain ⟨r, hr, hs⟩ := exists_start hw (by omega)
  have hs' : (r + (f.nbytes + k)) % f.size = (f.nextWrite + k) % f.size := by
    rw [← Nat.add_assoc, ← Nat.mod_add_mod, hs]
  rw [unread_eq (f := (commit f k owner).2) hr hk hs', unread_eq hr (by omega) hs]
  change ringLoad f.buf 0 f.size r (f.nbytes + k) = _
  rw [ringLoad_add, hs]
  rfl

/-- The two copies of `fifoCopy` are one cyclic store. -/
theorem copy_buf (bs : List UInt8) :
    (let n := if f.size - f.nextWrite < bs.length then f.size - f.nextWrite else bs.length
     let buf := store f.buf f.nextWrite (bs.take n)
     if n < bs.length then store buf 0 (bs.drop n) else buf) =
      splitStore f.buf 0 f.size f.nextWrite bs := by
  simp only [splitStore, Nat.zero_add]
  by_cases h : f.size - f.nextWrite < bs.length
  · rw [if_pos h, if_pos h, Nat.min_eq_left (by omega)]
  · rw [if_neg h, if_neg (by omega), Nat.min_eq_right (by omega), List.drop_length, store_nil]

theorem fifoCopy_eq (bs : List UInt8) (owner : Bool) (h : bs.length ≤ f.nreserved) :
    fifoCopy f bs owner =
      commit { f with buf := splitStore f.buf 0 f.size f.nextWrite bs } bs.length owner := by
  rw [fifoCopy, if_neg (by omega), ← copy_buf]

theorem unread_splitStore (bs : List UInt8) (hw : f.nextWrite < f.size)
    (hk : f.nbytes + bs.length ≤ f.size) :
    ({ f with buf := splitStore f.buf 0 f.size f.nextWrite bs } : Fifo).unread = f.unread := by
  have hn : f.nbytes ≤ f.size := by omega
  obtain ⟨r, hr, hs⟩ := exists_start hw hn
  rw [unread_eq hr hn hs,
    unread_eq (f := { f with buf := splitStore f.buf 0 f.size f.nextWrite bs }) hr hn hs]
  change ringLoad (splitStore f.buf 0 f.size f.nextWrite bs) 0 f.size r f.nbytes = _
  rw [← hs, ringLoad_splitStore_before hr hk]

theorem unread_copy (bs : List UInt8) (owner : Bool) (h : bs.length ≤ f.nreserved)
    (hw : f.nextWrite < f.size) (hk : f.nbytes + bs.length ≤ f.size) :
    (fifoCopy f bs owner).2.unread = f.unread ++ bs := by
  have hc := unread_commit (f := { f with buf := splitStore f.buf 0 f.size f.nextWrite bs })
    bs.length owner hw hk
  have hs : ringLoad (splitStore f.buf 0 f.size f.nextWrite bs) 0 f.size f.nextWrite bs.length =
      bs := ringLoad_splitStore hw (by omega)
  rw [fifoCopy_eq bs owner h, hc, unread_splitStore bs hw hk]
  exact congrArg (f.unread ++ ·) hs

/-- `fifoRead` delivers exactly the oldest bytes and keeps the others. -/
theorem fifoRead_ok {n : Nat} {data : List UInt8} {f' : Fifo} (hw : f.nextWrite < f.size)
    (hn : f.nbytes ≤ f.size) (h : fifoRead f n = .ok data f') :
    n ≤ f.nbytes ∧ data.length = n ∧ f' = { f with nbytes := f.nbytes - n } ∧
      f.unread = data ++ f'.unread := by
  obtain ⟨r, hr, hs⟩ := exists_start hw hn
  unfold fifoRead at h
  split at h
  · cases h
  split at h
  · next hle =>
    have hnext : (if (0 : Int) > (f.nextWrite : Int) - f.nbytes
        then (f.nextWrite : Int) - f.nbytes + f.size
        else (f.nextWrite : Int) - f.nbytes).toNat = r := by
      have he := start_eq hr hn hs
      by_cases hc : f.nbytes ≤ f.nextWrite
      · rw [Nat.add_comm, Nat.add_sub_assoc hc, Nat.add_mod_left,
          Nat.mod_eq_of_lt (by omega)] at he
        split_ifs <;> omega
      · rw [Nat.mod_eq_of_lt (by omega)] at he
        split_ifs <;> omega
    simp only [hnext, ReadPass.ok.injEq] at h
    obtain ⟨hd, rfl⟩ := h
    have hdata : data = ringLoad f.buf 0 f.size r n := by
      rw [← splitLoad_eq f.buf hr (by omega), ← hd, splitLoad]
      by_cases hc : f.size - r < n
      · rw [if_pos hc, if_pos hc, Nat.min_eq_left (by omega), Nat.zero_add]
      · rw [if_neg hc, if_neg (by omega), Nat.min_eq_right (by omega), Nat.sub_self, load_zero,
          List.append_nil, Nat.zero_add]
    have hrest : ((r + n) % f.size + (f.nbytes - n)) % f.size = f.nextWrite := by
      rw [Nat.mod_add_mod, Nat.add_assoc, Nat.add_sub_cancel' hle, hs]
    refine ⟨hle, by rw [hdata, length_ringLoad], rfl, ?_⟩
    rw [unread_eq hr hn hs, hdata,
      unread_eq (f := { f with nbytes := f.nbytes - n }) (Nat.mod_lt _ (Nat.zero_lt_of_lt hr))
        (Nat.le_trans (Nat.sub_le _ _) hn) hrest]
    change _ = _ ++ ringLoad f.buf 0 f.size ((r + n) % f.size) (f.nbytes - n)
    rw [← ringLoad_add, Nat.add_sub_cancel' hle]
  · cases h

/-- A store into the reserved space touches no unread byte. -/
theorem unread_fill (i : Nat) (b : UInt8) (hi : f.nextWrite + i < f.size)
    (hn : f.nbytes + i < f.size) :
    ({ f with buf := store f.buf (f.nextWrite + i) [b] } : Fifo).unread = f.unread := by
  have hn' : f.nbytes ≤ f.size := by omega
  obtain ⟨r, hr, hs⟩ := exists_start (f := f) (by omega) hn'
  have hcell : f.nextWrite + i = 0 + (r + (f.nbytes + i)) % f.size := by
    rw [← Nat.add_assoc, ← Nat.mod_add_mod, hs, Nat.mod_eq_of_lt hi, Nat.zero_add]
  rw [unread_eq hr hn' hs,
    unread_eq (f := { f with buf := store f.buf (f.nextWrite + i) [b] }) hr hn' hs]
  change ringLoad (store f.buf (f.nextWrite + i) [b]) 0 f.size r f.nbytes = _
  rw [hcell, ringLoad_store_cell _ _ _ hn (by omega), List.set_eq_of_length_le (by simp)]

theorem space_fill (n i : Nat) (b : UInt8) (hi : f.nextWrite + i < f.size) (hn : n ≤ f.size) :
    ({ f with buf := store f.buf (f.nextWrite + i) [b] } : Fifo).space n =
      (f.space n).set i b := by
  have hcell : f.nextWrite + i = 0 + (f.nextWrite + i) % f.size := by
    rw [Nat.mod_eq_of_lt hi, Nat.zero_add]
  change ringLoad (store f.buf (f.nextWrite + i) [b]) 0 f.size f.nextWrite n = _
  rw [hcell, ringLoad_store_cell _ _ _ (by omega) hn]
  rfl

end Ring

/-- The queue the FIFO stands for: the unread bytes and, while a thread holds a
reservation, that thread and what it has put into its space. -/
structure ByteQueue (Tid : Type*) where
  unread : List UInt8
  held : Option (Tid × List UInt8)

inductive ByteQueue.Step {Tid : Type*} (cap : Nat) :
    ByteQueue Tid → Event Tid → ByteQueue Tid → Prop where
  | quiet (q) : Step cap q .quiet q
  | grant (q t im) (hfree : q.held = none) (hroom : q.unread.length + im.length ≤ cap) :
      Step cap q (.grant t im.length) { q with held := some (t, im) }
  | fill (q t im i b) (hheld : q.held = some (t, im)) (hi : i < im.length) :
      Step cap q (.fill t i b) { q with held := some (t, im.set i b) }
  | update (q t im k) (hheld : q.held = some (t, im)) (hk : k ≤ im.length) :
      Step cap q (.update t (im.take k)) ⟨q.unread ++ im.take k, none⟩
  | copy (q t im bs) (hheld : q.held = some (t, im)) (hk : bs.length ≤ im.length) :
      Step cap q (.copy t bs) ⟨q.unread ++ bs, none⟩
  | deliver (q t bs rest) (hq : q.unread = bs ++ rest) :
      Step cap q (.deliver t bs.length bs) { q with unread := rest }

theorem ByteQueue.Step.balanced {Tid : Type*} {cap : Nat} {q q' : ByteQueue Tid} {e : Event Tid}
    (h : Step cap q e q') : q.unread ++ e.committed = e.delivered ++ q'.unread := by
  cases h with
  | deliver t bs rest hq => simp [Event.committed, Event.delivered, hq]
  | _ => simp [Event.committed, Event.delivered]

section Refinement
variable {Tid : Type*} {S : Nat} {s s' : Sys Tid} {t : Tid}

def Pc.image : Pc → Option (List UInt8)
  | .reserved _ _ _ image => some image
  | _ => none

def Pc.writes : Pc → Bool
  | .reserving _ | .reserveWait _ | .reserved _ _ _ _ => true
  | _ => false

def Pc.reads : Pc → Bool
  | .reading _ | .readWait _ => true
  | _ => false

@[simp] theorem Pc.wakeReader_writes (c : Pc) : c.wakeReader.writes = c.writes := by
  cases c <;> rfl
@[simp] theorem Pc.wakeReader_reads (c : Pc) : c.wakeReader.reads = c.reads := by
  cases c <;> rfl
@[simp] theorem Pc.wakeReader_image (c : Pc) : c.wakeReader.image = c.image := by
  cases c <;> rfl
@[simp] theorem Pc.wakeWriter_writes (c : Pc) : c.wakeWriter.writes = c.writes := by
  cases c <;> rfl
@[simp] theorem Pc.wakeWriter_reads (c : Pc) : c.wakeWriter.reads = c.reads := by
  cases c <;> rfl
@[simp] theorem Pc.wakeWriter_image (c : Pc) : c.wakeWriter.image = c.image := by
  cases c <;> rfl

def Sys.queue (s : Sys Tid) : ByteQueue Tid where
  unread := s.fifo.unread
  held := s.writeMutex.bind fun t => (s.pc t).image.map fun im => (t, im)

/-- What a thread that returned from `fifoWriteReserve` may rely on. -/
def Holds (fifo : Fifo) : Pc → Prop
  | .reserved n addr avail image =>
    fifo.nreserved = n ∧ addr = fifo.nextWrite ∧ avail = fifo.size - fifo.nextWrite ∧
      image = fifo.space n
  | _ => True

structure Inv (S : Nat) (s : Sys Tid) : Prop where
  size : s.fifo.size = S
  next : s.fifo.nextWrite < S
  room : s.fifo.nbytes + s.fifo.nreserved ≤ S
  writer : ∀ t, (s.pc t).writes = true ↔ s.writeMutex = some t
  reader : ∀ t, (s.pc t).reads = true ↔ s.readMutex = some t
  holds : ∀ t, Holds s.fifo (s.pc t)

theorem Inv.init (buf : Mem UInt8) (hS : 0 < S) : Inv S (Sys.init buf S : Sys Tid) where
  size := rfl
  next := hS
  room := Nat.zero_le _
  writer t := by simp [Sys.init, Pc.writes]
  reader t := by simp [Sys.init, Pc.reads]
  holds t := trivial

/-- Two threads never hold the write-mutex. -/
theorem Inv.writer_unique (h : Inv S s) {u : Tid} (ht : (s.pc t).writes = true)
    (hu : (s.pc u).writes = true) : u = t := by
  have h1 := (h.writer t).1 ht
  have h2 := (h.writer u).1 hu
  exact Option.some.inj (h2.symm.trans h1)

theorem Inv.held_of (h : Inv S s) {n addr avail : Nat} {im : List UInt8}
    (hpc : s.pc t = .reserved n addr avail im) : s.queue.held = some (t, im) := by
  have hw := (h.writer t).1 (by rw [hpc]; rfl)
  simp [Sys.queue, hw, hpc, Pc.image]

theorem Inv.not_reserved (h : Inv S s) (ht : (s.pc t).writes = true)
    (hi : (s.pc t).image = none) : s.queue.held = none := by
  have hw := (h.writer t).1 ht
  simp [Sys.queue, hw, hi]

/-- `Holds` looks at the space only. -/
theorem Holds.of_image_none {fifo : Fifo} {c : Pc} (h : c.image = none) : Holds fifo c := by
  cases c with
  | reserved => simp [Pc.image] at h
  | _ => trivial

theorem Holds.wake {fifo : Fifo} {c : Pc} (h : Holds fifo c) :
    Holds fifo c.wakeReader ∧ Holds fifo c.wakeWriter := by
  cases c <;> exact ⟨h, h⟩

/-- Only the owner of the write-mutex holds space. -/
theorem Inv.image_none (h : Inv S s) {u : Tid} (ht : (s.pc t).writes = true) (hu : u ≠ t) :
    (s.pc u).image = none := by
  cases hc : s.pc u with
  | reserved => exact absurd (h.writer_unique ht (by rw [hc]; rfl)) hu
  | _ => rfl

theorem ByteQueue.Step.quiet_of_eq {q q' : ByteQueue Tid} (h : q' = q) :
    ByteQueue.Step S q .quiet q' := by
  subst h
  exact .quiet _

variable [DecidableEq Tid]

@[simp] theorem goto_fifo (c : Pc) : (s.goto t c).fifo = s.fifo := rfl
@[simp] theorem goto_pc_self (c : Pc) : (s.goto t c).pc t = c := by simp [Sys.goto]
@[simp] theorem goto_pc_ne (c : Pc) {u : Tid} (h : u ≠ t) : (s.goto t c).pc u = s.pc u := by
  simp [Sys.goto, h]

/-- Moving one thread between positions with the same mutexes. -/
theorem Inv.writer_goto (h : Inv S s) {c : Pc} (hw : c.writes = (s.pc t).writes) (u : Tid) :
    ((s.goto t c).pc u).writes = true ↔ s.writeMutex = some u := by
  by_cases hu : u = t
  · subst u; simpa [hw] using h.writer t
  · simpa [hu] using h.writer u

theorem Inv.reader_goto (h : Inv S s) {c : Pc} (hr : c.reads = (s.pc t).reads) (u : Tid) :
    ((s.goto t c).pc u).reads = true ↔ s.readMutex = some u := by
  by_cases hu : u = t
  · subst u; simpa [hr] using h.reader t
  · simpa [hu] using h.reader u

theorem Inv.holds_goto (h : Inv S s) {c : Pc} (hc : Holds s.fifo c) (u : Tid) :
    Holds s.fifo ((s.goto t c).pc u) := by
  by_cases hu : u = t
  · subst u; simpa using hc
  · simpa [hu] using h.holds u

theorem Inv.goto (h : Inv S s) {c : Pc} (hw : c.writes = (s.pc t).writes)
    (hr : c.reads = (s.pc t).reads) (hi : c.image = none) : Inv S (s.goto t c) where
  size := h.size
  next := h.next
  room := h.room
  writer := h.writer_goto hw
  reader := h.reader_goto hr
  holds := h.holds_goto (Holds.of_image_none hi)

theorem queue_goto {c : Pc} (hi : (s.pc t).image = none) (hi' : c.image = none) :
    (s.goto t c).queue = s.queue := by
  unfold Sys.queue
  congr 1
  simp only [Sys.goto]
  cases s.writeMutex with
  | none => rfl
  | some u =>
    by_cases hu : u = t
    · subst u; simp [hi, hi']
    · simp [hu]

/-- Releasing the write-mutex: thread `t` goes back to `idle`. -/
theorem Inv.unlockWriter (h : Inv S s) (ht : (s.pc t).writes = true) {pc : Tid → Pc}
    {fifo : Fifo} (hpc : ∀ u, u ≠ t → (pc u).writes = (s.pc u).writes)
    (hr : ∀ u, (pc u).reads = (s.pc u).reads) (ht' : (pc t).writes = false)
    (hsize : fifo.size = S) (hnext : fifo.nextWrite < S)
    (hroom : fifo.nbytes + fifo.nreserved ≤ S) :
    Inv S { s with fifo, writeMutex := none, pc } where
  size := hsize
  next := hnext
  room := hroom
  writer u := by
    by_cases hu : u = t
    · subst u; simp [ht']
    · have : ¬ (s.pc u).writes = true := fun hc => hu (h.writer_unique ht hc)
      simpa [hpc u hu] using this
  reader u := by simpa [hr u] using h.reader u
  holds u := by
    apply Holds.of_image_none
    change (pc u).image = none
    have hw : (pc u).writes = false := by
      by_cases hu : u = t
      · subst u; exact ht'
      · rw [hpc u hu]
        simpa using fun hc => hu (h.writer_unique ht hc)
    cases hc : pc u with
    | reserved => rw [hc] at hw; simp [Pc.writes] at hw
    | _ => rfl

theorem reserve_refines (h : Inv S s) {n : Nat} {e : Event Tid}
    (hs : step s t (.reserve n) = some (e, s')) :
    Inv S s' ∧ ByteQueue.Step S s.queue e s'.queue := by
  cases hpc : s.pc t with
  | idle =>
    unfold step at hs
    simp only [hpc] at hs
    split_ifs at hs with hn hm
    · obtain ⟨rfl, rfl⟩ := by simpa using hs
      exact ⟨h, .quiet _⟩
    · obtain ⟨rfl, rfl⟩ := by simpa using hs
      refine ⟨⟨h.size, h.next, h.room, fun u => ?_, h.reader_goto (by rw [hpc]; rfl),
        h.holds_goto trivial⟩, ?_⟩
      · by_cases hu : u = t
        · subst u; simp [Pc.writes]
        · have : ¬ (s.pc u).writes = true := by rw [h.writer u, hm]; simp
          simpa [hu, Ne.symm hu] using this
      · apply ByteQueue.Step.quiet_of_eq
        simp [Sys.queue, Pc.image, hm]
  | _ =>
    unfold step at hs
    simp [hpc] at hs

theorem reservePass_refines (h : Inv S s) {e : Event Tid}
    (hs : step s t .reservePass = some (e, s')) :
    Inv S s' ∧ ByteQueue.Step S s.queue e s'.queue := by
  cases hpc : s.pc t with
  | reserving n =>
    have hw : (s.pc t).writes = true := by rw [hpc]; rfl
    have hfree : s.queue.held = none := h.not_reserved hw (by rw [hpc]; rfl)
    unfold step at hs
    simp only [hpc] at hs
    cases hp : fifoWriteReserve s.fifo n with
    | closed =>
      simp only [hp, Option.some.injEq, Prod.mk.injEq] at hs
      obtain ⟨rfl, rfl⟩ := hs
      refine ⟨h.unlockWriter (t := t) hw (fun u hu => by simp [hu]) (fun u => ?_)
        (by simp [Pc.writes]) h.size h.next h.room, ?_⟩
      · by_cases hu : u = t
        · subst u; simp [hpc, Pc.reads]
        · simp [hu]
      · apply ByteQueue.Step.quiet_of_eq
        exact congrArg (ByteQueue.mk _) hfree.symm
    | granted addr avail fifo =>
      simp only [hp, Option.some.injEq, Prod.mk.injEq] at hs
      obtain ⟨rfl, rfl⟩ := hs
      unfold fifoWriteReserve at hp
      split_ifs at hp with hc hroom
      obtain ⟨rfl, rfl, rfl⟩ := by simpa using hp
      have hS := h.size
      have hb := h.room
      refine ⟨⟨hS, h.next, ?_, h.writer_goto (by rw [hpc]; rfl), h.reader_goto (by rw [hpc]; rfl),
        fun u => ?_⟩, ?_⟩
      · change s.fifo.nbytes + n ≤ S
        omega
      · by_cases hu : u = t
        · subst u; simp [Holds, space]
        · simpa [hu] using Holds.of_image_none (h.image_none hw hu)
      · have hq : Sys.queue { s.goto t (.reserved n s.fifo.nextWrite
              (s.fifo.size - s.fifo.nextWrite) (s.fifo.space n)) with
              fifo := { s.fifo with nreserved := n } } =
            { s.queue with held := some (t, s.fifo.space n) } := by
          simp [Sys.queue, Sys.goto, (h.writer t).1 hw, Pc.image, unread]
        rw [hq]
        have hl : (s.fifo.space n).length = n := by simp [space]
        have hu : s.queue.unread.length = s.fifo.nbytes := by simp [Sys.queue, unread]
        have hg : ByteQueue.Step S s.queue (.grant t _) _ :=
          .grant s.queue t (s.fifo.space n) hfree (by omega)
        rwa [hl] at hg
    | wait =>
      simp only [hp, Option.some.injEq, Prod.mk.injEq] at hs
      obtain ⟨rfl, rfl⟩ := hs
      exact ⟨h.goto (by rw [hpc]; rfl) (by rw [hpc]; rfl) rfl,
        .quiet_of_eq (queue_goto (by rw [hpc]; rfl) rfl)⟩
  | _ =>
    unfold step at hs
    simp [hpc] at hs

theorem fill_refines (h : Inv S s) {i : Nat} {b : UInt8} {e : Event Tid}
    (hs : step s t (.fill i b) = some (e, s')) :
    Inv S s' ∧ ByteQueue.Step S s.queue e s'.queue := by
  cases hpc : s.pc t with
  | reserved n addr avail image =>
    unfold step at hs
    simp only [hpc] at hs
    split_ifs at hs with hi
    obtain ⟨rfl, rfl⟩ := by simpa using hs
    have hw : (s.pc t).writes = true := by rw [hpc]; rfl
    have hh := h.holds t
    rw [hpc] at hh
    obtain ⟨hn, rfl, rfl, rfl⟩ := hh
    have hS := h.size
    have hx := h.next
    have hb := h.room
    have hl : (s.fifo.space n).length = n := by simp [space]
    refine ⟨⟨hS, hx, hb, h.writer_goto (by rw [hpc]; rfl), h.reader_goto (by rw [hpc]; rfl),
      fun u => ?_⟩, ?_⟩
    · by_cases hu : u = t
      · subst u
        simpa [Holds, hn] using (space_fill (f := s.fifo) n i b (by omega) (by omega)).symm
      · simpa [hu] using Holds.of_image_none (h.image_none hw hu)
    · have hq : Sys.queue { s.goto t (.reserved n s.fifo.nextWrite
            (s.fifo.size - s.fifo.nextWrite) ((s.fifo.space n).set i b)) with
            fifo := { s.fifo with buf := store s.fifo.buf (s.fifo.nextWrite + i) [b] } } =
          { s.queue with held := some (t, (s.fifo.space n).set i b) } := by
        simp [Sys.queue, Sys.goto, (h.writer t).1 hw, Pc.image,
          unread_fill (f := s.fifo) i b (by omega) (by omega)]
      rw [hq]
      exact .fill _ t _ i b (h.held_of hpc) (by omega)
  | _ =>
    unfold step at hs
    simp [hpc] at hs

/-- What a commit by the reserving thread leaves behind. -/
theorem committed_refines (h : Inv S s) {n addr avail k : Nat} {im : List UInt8} (fifo : Fifo)
    (hpc : s.pc t = .reserved n addr avail im) (hk : k ≤ n)
    (hf : fifo.size = S ∧ fifo.nextWrite < S ∧ fifo.nbytes = s.fifo.nbytes + k ∧
      fifo.nreserved = 0) :
    Inv S (s.committed t fifo) ∧ (s.committed t fifo).queue = ⟨fifo.unread, none⟩ := by
  have hw : (s.pc t).writes = true := by rw [hpc]; rfl
  have hh := h.holds t
  rw [hpc] at hh
  have hb := h.room
  have hn := hh.1
  refine ⟨h.unlockWriter (t := t) hw (fun u hu => by simp [hu]) (fun u => ?_)
    (by simp [Pc.writes]) hf.1 hf.2.1 (by omega), rfl⟩
  by_cases hu : u = t
  · subst u; simp [hpc, Pc.reads]
  · simp [hu]

theorem update_refines (h : Inv S s) {k : Nat} {e : Event Tid}
    (hs : step s t (.update k) = some (e, s')) :
    Inv S s' ∧ ByteQueue.Step S s.queue e s'.queue := by
  cases hpc : s.pc t with
  | reserved n addr avail im =>
    have hw : (s.pc t).writes = true := by rw [hpc]; rfl
    have ho : decide (s.writeMutex = some t) = true := by simpa using (h.writer t).1 hw
    have hh := h.holds t
    rw [hpc] at hh
    obtain ⟨hn, rfl, rfl, rfl⟩ := hh
    have hS := h.size
    have hx := h.next
    have hb := h.room
    unfold step at hs
    simp only [hpc] at hs
    split_ifs at hs with hk
    rw [fifoWriteUpdate, if_neg (by omega), ho] at hs
    simp only [commit, if_true] at hs
    obtain ⟨rfl, rfl⟩ := by simpa using hs
    obtain ⟨hi, hq⟩ := committed_refines h (commit s.fifo k true).2 hpc hk
      ⟨hS, hS ▸ Nat.mod_lt _ (by omega), rfl, rfl⟩
    refine ⟨hi, ?_⟩
    rw [show ({ s.fifo with
        nextWrite := (s.fifo.nextWrite + k) % s.fifo.size
        nbytes := s.fifo.nbytes + k, nreserved := 0 } : Fifo) = (commit s.fifo k true).2 from rfl,
      hq, unread_commit k true (by omega) (by omega)]
    have htake : s.fifo.space k = (s.fifo.space n).take k :=
      (ringLoad_take _ _ _ _ _ _ hk).symm
    rw [htake]
    exact .update _ t _ k (h.held_of hpc) (by simpa [space] using hk)
  | _ =>
    unfold step at hs
    simp [hpc] at hs

theorem copy_refines (h : Inv S s) {bs : List UInt8} {e : Event Tid}
    (hs : step s t (.copy bs) = some (e, s')) :
    Inv S s' ∧ ByteQueue.Step S s.queue e s'.queue := by
  cases hpc : s.pc t with
  | reserved n addr avail im =>
    have hw : (s.pc t).writes = true := by rw [hpc]; rfl
    have ho : decide (s.writeMutex = some t) = true := by simpa using (h.writer t).1 hw
    have hh := h.holds t
    rw [hpc] at hh
    obtain ⟨hn, rfl, rfl, rfl⟩ := hh
    have hS := h.size
    have hx := h.next
    have hb := h.room
    unfold step at hs
    simp only [hpc] at hs
    split_ifs at hs with hk
    have hun := unread_copy (f := s.fifo) bs true (by omega) (by omega) (by omega)
    rw [fifoCopy_eq bs _ (by omega)] at hs hun
    rw [ho] at hs
    generalize hg : ({ s.fifo with
      buf := splitStore s.fifo.buf 0 s.fifo.size s.fifo.nextWrite bs } : Fifo) = g at hs hun
    have hgs : g.size = s.fifo.size ∧ g.nbytes = s.fifo.nbytes := by subst g; exact ⟨rfl, rfl⟩
    simp only [commit, if_true] at hs
    obtain ⟨rfl, rfl⟩ := by simpa using hs
    obtain ⟨hi, hq⟩ := committed_refines h (commit g bs.length true).2 hpc hk
      ⟨hgs.1.trans hS, hS ▸ hgs.1 ▸ Nat.mod_lt _ (by omega), by simp [commit, hgs.2], rfl⟩
    refine ⟨hi, ?_⟩
    rw [show ({ g with
        nextWrite := (g.nextWrite + bs.length) % g.size
        nbytes := g.nbytes + bs.length, nreserved := 0 } : Fifo) =
          (commit g bs.length true).2 from rfl, hq, hun]
    exact .copy _ t _ bs (h.held_of hpc) (by simpa [space] using hk)
  | _ =>
    unfold step at hs
    simp [hpc] at hs

theorem read_refines (h : Inv S s) {n : Nat} {e : Event Tid}
    (hs : step s t (.read n) = some (e, s')) :
    Inv S s' ∧ ByteQueue.Step S s.queue e s'.queue := by
  cases hpc : s.pc t with
  | idle =>
    unfold step at hs
    simp only [hpc] at hs
    split_ifs at hs with hn hm
    · obtain ⟨rfl, rfl⟩ := by simpa using hs
      exact ⟨h, .quiet _⟩
    · obtain ⟨rfl, rfl⟩ := by simpa using hs
      refine ⟨⟨h.size, h.next, h.room, h.writer_goto (by rw [hpc]; rfl), fun u => ?_,
        h.holds_goto trivial⟩, ?_⟩
      · by_cases hu : u = t
        · subst u; simp [Pc.reads]
        · have : ¬ (s.pc u).reads = true := by rw [h.reader u, hm]; simp
          simpa [hu, Ne.symm hu] using this
      · exact .quiet_of_eq (queue_goto (c := .reading n) (by rw [hpc]; rfl) rfl)
  | _ =>
    unfold step at hs
    simp [hpc] at hs

/-- Releasing the read-mutex with the FIFO's space untouched. -/
theorem Inv.unlockReader (h : Inv S s) (ht : (s.pc t).reads = true) {pc : Tid → Pc} {n : Nat}
    (hn : n ≤ s.fifo.nbytes) (hpc : ∀ u, u ≠ t → (pc u).reads = (s.pc u).reads)
    (hw : ∀ u, (pc u).writes = (s.pc u).writes) (ht' : (pc t).reads = false)
    (hh : ∀ u, Holds s.fifo (pc u)) :
    Inv S { s with fifo := { s.fifo with nbytes := n }, readMutex := none, pc } where
  size := h.size
  next := h.next
  room := Nat.le_trans (Nat.add_le_add_right hn _) h.room
  writer u := by simpa [hw u] using h.writer u
  reader u := by
    by_cases hu : u = t
    · subst u; simp [ht']
    · have : ¬ (s.pc u).reads = true := by
        intro hc
        have h1 := (h.reader u).1 hc
        have h2 := (h.reader t).1 ht
        exact hu (Option.some.inj (h1.symm.trans h2))
      simpa [hpc u hu] using this
  holds u := by
    have := hh u
    change Holds _ (pc u)
    cases hc : pc u with
    | reserved => rw [hc] at this; exact this
    | _ => trivial

theorem readPass_refines (h : Inv S s) {e : Event Tid}
    (hs : step s t .readPass = some (e, s')) :
    Inv S s' ∧ ByteQueue.Step S s.queue e s'.queue := by
  cases hpc : s.pc t with
  | reading n =>
    have hr : (s.pc t).reads = true := by rw [hpc]; rfl
    have hi : (s.pc t).image = none := by rw [hpc]; rfl
    have hS := h.size
    have hx := h.next
    have hb := h.room
    unfold step at hs
    simp only [hpc] at hs
    cases hp : fifoRead s.fifo n with
    | closed =>
      simp only [hp, Option.some.injEq, Prod.mk.injEq] at hs
      obtain ⟨rfl, rfl⟩ := hs
      refine ⟨h.unlockReader (t := t) hr (Nat.le_refl _) (fun u hu => by simp [hu])
        (fun u => ?_) (by simp [Pc.reads]) (fun u => ?_), ?_⟩
      · by_cases hu : u = t
        · subst u; simp [hpc, Pc.writes]
        · simp [hu]
      · exact h.holds_goto (c := .idle) trivial u
      · exact .quiet_of_eq (queue_goto (c := .idle) hi rfl)
    | ok data fifo =>
      simp only [hp, Option.some.injEq, Prod.mk.injEq] at hs
      obtain ⟨rfl, rfl⟩ := hs
      obtain ⟨hle, hlen, rfl, hun⟩ := fifoRead_ok (by omega) (by omega) hp
      refine ⟨h.unlockReader (t := t) hr (Nat.sub_le _ _) (fun u hu => by simp [hu])
        (fun u => ?_) (by simp [Pc.reads]) (fun u => ?_), ?_⟩
      · by_cases hu : u = t
        · subst u; simp [hpc, Pc.writes]
        · simp [hu]
      · by_cases hu : u = t
        · subst u; simp [Holds]
        · simpa [hu] using (h.holds u).wake.2
      · have hheld : (s.delivered t { s.fifo with nbytes := s.fifo.nbytes - n }).queue.held =
            s.queue.held := by
          simp only [Sys.queue, Sys.delivered]
          cases s.writeMutex with
          | none => rfl
          | some u =>
            by_cases hu : u = t
            · subst u; simp [hi, show Pc.idle.image = none from rfl]
            · simp [hu]
        have hd : ByteQueue.Step S s.queue (.deliver t _ _) _ := .deliver s.queue t data _ hun
        rw [hlen] at hd
        have hq : (s.delivered t { s.fifo with nbytes := s.fifo.nbytes - n }).queue =
            { s.queue with unread := ({ s.fifo with nbytes := s.fifo.nbytes - n } : Fifo).unread } := by
          exact congrArg (ByteQueue.mk _) hheld
        rwa [hq]
    | wait =>
      simp only [hp, Option.some.injEq, Prod.mk.injEq] at hs
      obtain ⟨rfl, rfl⟩ := hs
      exact ⟨h.goto (by rw [hpc]; rfl) (by rw [hpc]; rfl) rfl,
        .quiet_of_eq (queue_goto hi rfl)⟩
  | _ =>
    unfold step at hs
    simp [hpc] at hs

theorem close_refines (h : Inv S s) {e : Event Tid}
    (hs : step s t .closeWhenEmpty = some (e, s')) :
    Inv S s' ∧ ByteQueue.Step S s.queue e s'.queue := by
  cases hpc : s.pc t with
  | idle =>
    unfold step at hs
    simp only [hpc] at hs
    obtain ⟨rfl, rfl⟩ := by simpa using hs
    refine ⟨⟨h.size, h.next, h.room, fun u => by simpa using h.writer u,
      fun u => by simpa using h.reader u, fun u => ?_⟩, ?_⟩
    · have := (h.holds u).wake.2.wake.1
      change Holds _ (s.pc u).wakeWriter.wakeReader
      cases hc : (s.pc u).wakeWriter.wakeReader with
      | reserved => rw [hc] at this; exact this
      | _ => trivial
    · apply ByteQueue.Step.quiet_of_eq
      simp [Sys.queue, unread]
  | _ =>
    unfold step at hs
    simp [hpc] at hs

theorem wake_refines (h : Inv S s) {e : Event Tid}
    (hs : step s t .wake = some (e, s')) :
    Inv S s' ∧ ByteQueue.Step S s.queue e s'.queue := by
  cases hpc : s.pc t with
  | reserveWait n | readWait n =>
    unfold step at hs
    simp only [hpc] at hs
    obtain ⟨rfl, rfl⟩ := by simpa using hs
    exact ⟨h.goto (by rw [hpc]; rfl) (by rw [hpc]; rfl) rfl,
      .quiet_of_eq (queue_goto (by rw [hpc]; rfl) rfl)⟩
  | _ =>
    unfold step at hs
    simp [hpc] at hs

/-- Every step of every thread keeps the ring invariant and is a queue step. -/
theorem step_refines (e : Event Tid) (h : Inv S s) (hs : Step s e s') :
    Inv S s' ∧ ByteQueue.Step S s.queue e s'.queue := by
  obtain ⟨t, a, hs⟩ := hs
  cases a with
  | reserve n => exact reserve_refines h hs
  | reservePass => exact reservePass_refines h hs
  | fill i b => exact fill_refines h hs
  | update k => exact update_refines h hs
  | copy bs => exact copy_refines h hs
  | read n => exact read_refines h hs
  | readPass => exact readPass_refines h hs
  | closeWhenEmpty => exact close_refines h hs
  | wake => exact wake_refines h hs

/-- From a fresh FIFO on, any interleaving of any number of threads keeps the
indices in range, is a run of the byte queue with the same events, and delivers
a prefix of what has been committed. -/
theorem fifo_refines_queue (buf : Mem UInt8) (hS : 0 < S) {es : List (Event Tid)}
    (h : Trace Step (Sys.init buf S) es s) :
    s.fifo.nextWrite < S ∧ s.fifo.nbytes + s.fifo.nreserved ≤ S ∧
    (∀ e s', Step s e s' → ByteQueue.Step S s.queue e s'.queue) ∧
    Trace (ByteQueue.Step S) ⟨[], none⟩ es s.queue ∧
    es.flatMap Event.delivered <+: es.flatMap Event.committed := by
  obtain ⟨q, hq, hi, rfl⟩ := h.simulate (ByteQueue.Step S) (fun s q => Inv S s ∧ s.queue = q)
    (a := ⟨[], none⟩)
    (fun s e s' q hr hs => by
      obtain ⟨hp, rfl⟩ := hr
      have hr := step_refines e hp hs
      exact ⟨s'.queue, hr.2, hr.1, rfl⟩)
    ⟨Inv.init buf hS, rfl⟩
  exact ⟨hi.next, hi.room, fun e _ hs => (step_refines e hi hs).2, hq,
    hq.outs_prefix (fun _ _ _ hs => hs.balanced) rfl⟩

/-- Size 2: a three-byte history that wraps, written both ways. -/
theorem fifo_refines_queue_run :
    ∃ (es : List (Event Bool)) (s : Sys Bool),
      Trace Step (Sys.init (fun _ => 0) 2) es s ∧
      es.flatMap Event.committed = [7, 8, 9] ∧ es.flatMap Event.delivered = [7, 8] ∧
      es.flatMap Event.delivered <+: es.flatMap Event.committed := by
  have h : Trace Step (Sys.init (fun _ => 0) 2 : Sys Bool) _ _ :=
    .cons ⟨true, .reserve 1, rfl⟩ <| .cons ⟨true, .reservePass, rfl⟩ <|
      .cons ⟨false, .read 1, rfl⟩ <| .cons ⟨false, .readPass, rfl⟩ <|
      .cons ⟨true, .fill 0 7, rfl⟩ <| .cons ⟨true, .update 1, rfl⟩ <|
      .cons ⟨false, .readPass, rfl⟩ <| .cons ⟨true, .reserve 2, rfl⟩ <|
      .cons ⟨true, .reservePass, rfl⟩ <| .cons ⟨true, .copy [8, 9], rfl⟩ <|
      .cons ⟨false, .read 1, rfl⟩ <| .cons ⟨false, .readPass, rfl⟩ <| .nil _
  exact ⟨_, _, h, rfl, rfl, (fifo_refines_queue _ (by decide) h).2.2.2.2⟩

end Refinement
end Noaaport.Fifo
