import Noaaport.FifoWaking

/-! The byte stream through `fifo.c`: step by step, what has been taken and what is
unread together are what has been committed. -/
namespace Noaaport.Fifo
open Lib

section Copies
variable {f : Fifo} {n : Nat}

theorem copyIn_eq (f : Fifo) (bs : List UInt8) :
    copyIn f bs = { f with buf := splitStore f.buf 0 f.size f.nextWrite bs } := by
  rw [← copy_buf]
  rfl

theorem copyOut_spec (hw : f.nextWrite < f.size) (hn : f.nbytes ≤ f.size) (hle : n ≤ f.nbytes) :
    (copyOut f n).1.length = n ∧ (copyOut f n).2 = { f with nbytes := f.nbytes - n } ∧
      f.unread = (copyOut f n).1 ++ (copyOut f n).2.unread := by
  have hread : fifoRead { f with closeIfEmpty := false } n =
      .ok (copyOut f n).1 { (copyOut f n).2 with closeIfEmpty := false } := by
    rw [fifoRead_steps, if_neg (by simp), if_pos hle]
    rfl
  obtain ⟨-, hlen, -, hunread⟩ := fifoRead_ok (f := { f with closeIfEmpty := false }) hw hn hread
  exact ⟨hlen, rfl, hunread⟩

theorem length_unread (f : Fifo) : f.unread.length = f.nbytes := length_ringLoad ..

end Copies

/-- What a place says about the FIFO: a reservation that is not yet committed, a
commit or a read that has passed its test. -/
def Place.Promises (fifo : Fifo) : Place → Prop
  | .reserveDone n addr avail | .reserved n addr avail | .commitLock n addr avail _
  | .commitTest n addr avail _ | .commitRefused n addr avail =>
    fifo.nreserved = n ∧ fifo.nextWrite = addr ∧ avail = fifo.size - addr
  | .commitSignal c | .commitStore c => c.nbytes ≤ fifo.nreserved
  | .readSignal n | .readCopy n => n ≤ fifo.nbytes
  | _ => True

section Promises
variable {f f' : Fifo} {k k' : Place}

theorem Place.Promises.lock (h : k.Promises f) (hk : k.lock = some k') : k'.Promises f := by
  cases k <;> cases hk <;> exact h

theorem Place.Promises.unlock (h : k.Promises f) (hk : k.unlock = some k') : k'.Promises f := by
  cases k <;> cases hk <;> exact h

theorem Place.promises_sleep (hk : k.sleep = some k') : k'.Promises f := by
  cases k <;> cases hk <;> trivial

theorem Place.promises_wake (hk : k.wake = some k') : k'.Promises f := by
  cases k <;> cases hk <;> trivial

theorem Place.Promises.signal {cond : Cond} (h : k.Promises f)
    (hk : k.signal = some (cond, k')) : k'.Promises f := by
  cases k <;> cases hk <;> exact h

/-- The writer's part stays while the reservation does, the reader's with the data. -/
theorem Place.Promises.mono (h : k.Promises f)
    (hw : k.InWriter → f'.nreserved = f.nreserved ∧ f'.nextWrite = f.nextWrite ∧ f'.size = f.size)
    (hr : k.InMutex → f.nbytes ≤ f'.nbytes) : k.Promises f' := by
  cases k
  case readSignal n => exact Nat.le_trans h (hr trivial)
  case readCopy n => exact Nat.le_trans h (hr trivial)
  case commitSignal c =>
    change _ ≤ _
    rw [(hw trivial).1]
    exact h
  case commitStore c =>
    change _ ≤ _
    rw [(hw trivial).1]
    exact h
  case reserveDone n addr avail =>
    obtain ⟨h₁, h₂, h₃⟩ := hw trivial
    simpa [Place.Promises, h₁, h₂, h₃] using h
  case reserved n addr avail =>
    obtain ⟨h₁, h₂, h₃⟩ := hw trivial
    simpa [Place.Promises, h₁, h₂, h₃] using h
  case commitLock n addr avail c =>
    obtain ⟨h₁, h₂, h₃⟩ := hw trivial
    simpa [Place.Promises, h₁, h₂, h₃] using h
  case commitTest n addr avail c =>
    obtain ⟨h₁, h₂, h₃⟩ := hw trivial
    simpa [Place.Promises, h₁, h₂, h₃] using h
  case commitRefused n addr avail =>
    obtain ⟨h₁, h₂, h₃⟩ := hw trivial
    simpa [Place.Promises, h₁, h₂, h₃] using h
  all_goals trivial

end Promises

variable {Tid : Type*} {s s' : Threads Tid} {t u : Tid} {k : Place} {e : Note Tid} {S : Nat}
  {sent taken : List UInt8}

/-- The FIFO within its bounds, with the stream that has gone in and come out. -/
structure Stored (S : Nat) (s : Threads Tid) (sent taken : List UInt8) : Prop where
  size : s.fifo.size = S
  pos : s.fifo.nextWrite < S
  room : s.fifo.nbytes + s.fifo.nreserved ≤ S
  stream : sent = taken ++ s.fifo.unread
  places : ∀ t, (s.pc t).Promises s.fifo

section Stored

theorem Stored.init (buf : Mem UInt8) (hS : 0 < S) :
    Stored S (Threads.init buf S : Threads Tid) [] [] :=
  ⟨rfl, hS, Nat.zero_le _, rfl, fun _ => trivial⟩

/-- A step with the write-mutex: nobody else has a reservation. -/
theorem Stored.writer_promises (h : Stored S s sent taken) (ho : Own s) (ht : (s.pc t).InWriter)
    {f' : Fifo} (hn : s.fifo.nbytes ≤ f'.nbytes) (hut : u ≠ t) : (s.pc u).Promises f' := by
  refine (h.places u).mono (fun hu => ?_) fun _ => hn
  exact absurd (ho.writer.unique hu ht) hut

variable [DecidableEq Tid]

theorem goto_promises {f' : Fifo} (h : ∀ u, u ≠ t → (s.pc u).Promises f') (hk : k.Promises f')
    (u : Tid) : ((s.goto t k).pc u).Promises f' := by
  by_cases hu : u = t
  · subst u
    rw [Threads.goto_self]
    exact hk
  · rw [Threads.goto_of_ne s k hu]
    exact h u hu

/-- A step that leaves the FIFO alone. -/
theorem Stored.goto (h : Stored S s sent taken) (hk : k.Promises s.fifo)
    (hpc : s'.pc = (s.goto t k).pc) (hf : s'.fifo = s.fifo) : Stored S s' sent taken := by
  refine ⟨by rw [hf]; exact h.size, by rw [hf]; exact h.pos, by rw [hf]; exact h.room,
    by rw [hf]; exact h.stream, ?_⟩
  rw [hf, hpc]
  exact goto_promises (fun u _ => h.places u) hk

theorem Stored.work (h : Stored S s sent taken) (ho : Own s) {fifo : Fifo}
    (ht : (s.pc t).work s.fifo = some (fifo, k)) :
    Stored S { s.goto t k with fifo } sent taken := by
  have hsize := h.size
  have hpos := h.pos
  have hroom := h.room
  cases hk : s.pc t <;> rw [hk] at ht <;> simp only [Place.work, reduceCtorEq] at ht
  case reserveTest n =>
    have hin : (s.pc t).InWriter := by
      rw [hk]
      trivial
    split at ht
    · cases ht
      exact h.goto (k := .reserveClosed) trivial rfl rfl
    · next addr avail fifo hr =>
      cases ht
      unfold fifoWriteReserve at hr
      split_ifs at hr with h₁ h₂
      cases hr
      refine ⟨hsize, hpos, ?_, h.stream,
        goto_promises (fun u hu => h.writer_promises ho hin (le_refl _) hu) ⟨rfl, rfl, rfl⟩⟩
      change s.fifo.nbytes + n ≤ S
      omega
    · cases ht
      exact h.goto (k := .reserveWait n) trivial rfl rfl
  case commitTest n addr avail c =>
    have hin : (s.pc t).InWriter := by
      rw [hk]
      trivial
    have hres := h.places t
    rw [hk] at hres
    split at ht
    · cases ht
      exact h.goto (k := .commitRefused n addr avail) hres rfl rfl
    · next hle =>
      split at ht
      · next m =>
        cases ht
        exact h.goto (k := .commitSignal (.update m)) (not_lt.1 hle) rfl rfl
      · next bs =>
        cases ht
        have hlen : bs.length ≤ s.fifo.nreserved := not_lt.1 hle
        have hunread : (copyIn s.fifo bs).unread = s.fifo.unread := by
          rw [copyIn_eq]
          exact unread_splitStore bs (by omega) (by omega)
        exact ⟨hsize, hpos, hroom, h.stream.trans (congrArg (taken ++ ·) hunread.symm),
          goto_promises (fun u hu => h.writer_promises ho hin (le_refl _) hu) hlen⟩
  case readTest n =>
    split_ifs at ht with h₁ h₂
    · cases ht
      exact h.goto (k := .readUnlock none) trivial rfl rfl
    · cases ht
      exact h.goto (k := .readSignal n) h₂ rfl rfl
    · cases ht
      exact h.goto (k := .readWait n) trivial rfl rfl
  case closeSet =>
    cases ht
    exact ⟨hsize, hpos, hroom, h.stream,
      goto_promises (fun u _ => (h.places u).mono (fun _ => ⟨rfl, rfl, rfl⟩) fun _ => le_refl _)
        trivial⟩

theorem Stored.store (h : Stored S s sent taken) (ho : Own s) {c : Commit}
    (ht : s.pc t = .commitStore c) :
    Stored S { s.goto t .commitRelease with fifo := (commit s.fifo c.nbytes true).2 }
      (sent ++ s.fifo.space c.nbytes) taken := by
  have hle := h.places t
  rw [ht] at hle
  change c.nbytes ≤ s.fifo.nreserved at hle
  have hsize := h.size
  have hpos := h.pos
  have hroom := h.room
  refine ⟨hsize, ?_, ?_, ?_, goto_promises (fun u hu => ?_) trivial⟩
  · change (s.fifo.nextWrite + c.nbytes) % s.fifo.size < S
    rw [hsize]
    exact Nat.mod_lt _ (by omega)
  · change s.fifo.nbytes + c.nbytes + 0 ≤ S
    omega
  · change _ = _ ++ (commit s.fifo c.nbytes true).2.unread
    rw [unread_commit c.nbytes true (by omega) (by omega), h.stream, List.append_assoc]
  · exact h.writer_promises ho (by rw [ht]; trivial) (Nat.le_add_right ..) hu

theorem Stored.take (h : Stored S s sent taken) (ho : Own s) {n : Nat}
    {r : Option (List UInt8)} (ht : s.pc t = .readCopy n) :
    Stored S { s.goto t (.readUnlock r) with fifo := (copyOut s.fifo n).2 } sent
      (taken ++ (copyOut s.fifo n).1) := by
  have hle := h.places t
  rw [ht] at hle
  change n ≤ s.fifo.nbytes at hle
  have hsize := h.size
  have hpos := h.pos
  have hroom := h.room
  obtain ⟨-, hf, hunread⟩ := copyOut_spec (f := s.fifo) (n := n) (by omega) (by omega) hle
  refine ⟨hsize, hpos, ?_, ?_, goto_promises (fun u hu => ?_) trivial⟩
  · change s.fifo.nbytes - n + s.fifo.nreserved ≤ S
    omega
  · change _ = _ ++ (copyOut s.fifo n).2.unread
    rw [h.stream, hunread, List.append_assoc]
  · refine (h.places u).mono (fun _ => ⟨rfl, rfl, rfl⟩) fun hin => ?_
    exact absurd (ho.mutex.unique hin (by rw [ht]; trivial)) hu

theorem Stored.step (h : Stored S s sent taken) (ho : Own s) (hs : ThreadStep s t e s') :
    Stored S s' (sent ++ e.sent) (taken ++ e.taken) := by
  have hpc := h.places t
  cases hs <;> simp only [Note.sent, Note.taken, List.append_nil]
  case store c ht => exact h.store ho ht
  case take n ht => exact h.take ho ht
  case tooLarge n ht hn => exact h
  case reserve n ht hn => exact h.goto (k := .wantWriter n) trivial rfl rfl
  case read n ht hn => exact h.goto (k := .wantReader n) trivial rfl rfl
  case close ht => exact h.goto (k := .closeLock) trivial rfl rfl
  case commit n addr avail c ht =>
    rw [ht] at hpc
    exact h.goto (k := .commitLock n addr avail c) hpc rfl rfl
  case fill n addr avail i b ht hi havail =>
    rw [ht] at hpc
    obtain ⟨hn, rfl, hav⟩ := hpc
    have hsize := h.size
    have hroom := h.room
    refine ⟨hsize, h.pos, hroom, ?_, fun u => ?_⟩
    · rw [h.stream]
      exact congrArg (taken ++ ·) (unread_fill i b (by omega) (by omega)).symm
    · exact (h.places u).mono (fun _ => ⟨rfl, rfl, rfl⟩) fun _ => le_refl _
  case lockWrite n ht hfree => exact h.goto (k := .reserveLock n) trivial rfl rfl
  case lockRead n ht hfree => exact h.goto (k := .readLock n) trivial rfl rfl
  case lock k ht hfree => exact h.goto (hpc.lock ht) rfl rfl
  case unlock k ht => exact h.goto (hpc.unlock ht) rfl rfl
  case sleep k ht => exact h.goto (Place.promises_sleep ht) rfl rfl
  case wake k ht => exact h.goto (Place.promises_wake ht) rfl rfl
  case signal cond k pc ht hwoken =>
    refine ⟨h.size, h.pos, h.room, h.stream, ?_⟩
    refine goto_promises (s := { s with pc }) (fun u _ => ?_) (hpc.signal ht)
    obtain hu | ⟨-, hu⟩ := hwoken.only u
    · change (pc u).Promises s.fifo
      rw [hu]
      exact h.places u
    · exact Place.promises_wake hu
  case work fifo k ht => exact h.work ho ht
  case unlockWrite ht => exact h.goto (k := .commitUnlock) trivial rfl rfl
  case giveUp ht => exact h.goto (k := .idle) trivial rfl rfl
  case unlockRead r ht => exact h.goto (k := .idle) trivial rfl rfl

end Stored
end Noaaport.Fifo
