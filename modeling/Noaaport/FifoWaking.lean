import Noaaport.FifoThreads

/-! No wake-up of `fifo.c` is lost: who holds which mutex, and what the sleepers
wait for. -/
namespace Noaaport.Fifo
open Lib

section Places

/-- With `fifo->mutex`, -/
def Place.InMutex : Place → Prop
  | .reserveTest _ | .reserveWait _ | .reserveDone .. | .reserveClosed => True
  | .commitTest .. | .commitRefused .. | .commitSignal _ | .commitStore _ => True
  | .commitRelease | .commitUnlock => True
  | .readTest _ | .readWait _ | .readSignal _ | .readCopy _ | .readUnlock _ => True
  | .closeSet | .closeSignalWriter | .closeSignalReader | .closeUnlock => True
  | _ => False

/-- with the write-mutex, -/
def Place.InWriter : Place → Prop
  | .reserveLock _ | .reserveTest _ | .reserveWait _ | .reserveSleep _ | .reserveWoken _ => True
  | .reserveDone .. | .reserveClosed | .reserveRelease | .reserved .. => True
  | .commitLock .. | .commitTest .. | .commitRefused .. | .commitSignal _ | .commitStore _ => True
  | .commitRelease => True
  | _ => False

/-- with the read-mutex. -/
def Place.InReader : Place → Prop
  | .readLock _ | .readTest _ | .readWait _ | .readSleep _ | .readWoken _ => True
  | .readSignal _ | .readCopy _ | .readUnlock _ | .readRelease _ => True
  | _ => False

/-- The two outer mutexes are as they were. -/
def Place.Same (k k' : Place) : Prop :=
  (k'.InWriter ↔ k.InWriter) ∧ (k'.InReader ↔ k.InReader)

theorem Place.lock_spec {k k' : Place} (h : k.lock = some k') :
    ¬ k.InMutex ∧ k'.InMutex ∧ k.Same k' := by
  cases k <;> cases h <;> exact ⟨not_false, trivial, Iff.rfl, Iff.rfl⟩

theorem Place.unlock_spec {k k' : Place} (h : k.unlock = some k') :
    k.InMutex ∧ ¬ k'.InMutex ∧ k.Same k' := by
  cases k <;> cases h <;> exact ⟨trivial, not_false, Iff.rfl, Iff.rfl⟩

theorem Place.sleep_spec {k k' : Place} (h : k.sleep = some k') :
    k.InMutex ∧ ¬ k'.InMutex ∧ k.Same k' := by
  cases k <;> cases h <;> exact ⟨trivial, not_false, Iff.rfl, Iff.rfl⟩

theorem Place.wake_spec {k k' : Place} (h : k.wake = some k') :
    ¬ k.InMutex ∧ ¬ k'.InMutex ∧ k.Same k' := by
  cases k <;> cases h <;> exact ⟨not_false, not_false, Iff.rfl, Iff.rfl⟩

theorem Place.signal_spec {k k' : Place} {cond : Cond} (h : k.signal = some (cond, k')) :
    k.InMutex ∧ k'.InMutex ∧ k.Same k' := by
  cases k <;> cases h <;> exact ⟨trivial, trivial, Iff.rfl, Iff.rfl⟩

theorem Place.signal_cases {k k' : Place} {cond : Cond} (h : k.signal = some (cond, k')) :
    (∃ c, k = .commitSignal c ∧ cond = .readCond ∧ k' = .commitStore c) ∨
    (∃ n, k = .readSignal n ∧ cond = .writeCond ∧ k' = .readCopy n) ∨
    (k = .closeSignalWriter ∧ cond = .writeCond ∧ k' = .closeSignalReader) ∨
    (k = .closeSignalReader ∧ cond = .readCond ∧ k' = .closeUnlock) := by
  cases k <;> cases h
  · exact .inl ⟨_, rfl, rfl, rfl⟩
  · exact .inr (.inl ⟨_, rfl, rfl, rfl⟩)
  · exact .inr (.inr (.inl ⟨rfl, rfl, rfl⟩))
  · exact .inr (.inr (.inr ⟨rfl, rfl, rfl⟩))

theorem Place.work_spec {fifo fifo' : Fifo} {k k' : Place} (h : k.work fifo = some (fifo', k')) :
    k.InMutex ∧ k'.InMutex ∧ k.Same k' := by
  cases k <;> simp only [Place.work, reduceCtorEq] at h
  case reserveTest n =>
    split at h <;> cases h <;> exact ⟨trivial, trivial, Iff.rfl, Iff.rfl⟩
  case commitTest n addr avail c =>
    split at h
    · cases h
      exact ⟨trivial, trivial, Iff.rfl, Iff.rfl⟩
    · split at h <;> cases h <;> exact ⟨trivial, trivial, Iff.rfl, Iff.rfl⟩
  case readTest n =>
    split_ifs at h <;> cases h <;> exact ⟨trivial, trivial, Iff.rfl, Iff.rfl⟩
  case closeSet =>
    cases h
    exact ⟨trivial, trivial, Iff.rfl, Iff.rfl⟩

end Places

variable {Tid : Type*} {s s' : Threads Tid} {t u : Tid} {k : Place} {e : Note Tid}

/-- Each mutex has the one owner that its thread's place says. -/
structure Own (s : Threads Tid) : Prop where
  mutex : Owned Place.InMutex s.pc s.mutex
  writer : Owned Place.InWriter s.pc s.writeMutex
  reader : Owned Place.InReader s.pc s.readMutex

section Own

theorem Own.init (buf : Mem UInt8) (size : Nat) : Own (Threads.init buf size : Threads Tid) :=
  ⟨fun _ => ⟨False.elim, nofun⟩, fun _ => ⟨False.elim, nofun⟩, fun _ => ⟨False.elim, nofun⟩⟩

/-- A signal moves nobody in or out of a mutex. -/
theorem Own.signalled (h : Own s) {cond : Cond} {pc : Tid → Place}
    (hs : Signalled cond s.pc pc) : Own { s with pc } := by
  have hstay : ∀ u, (pc u).InMutex = (s.pc u).InMutex ∧ (s.pc u).Same (pc u) := by
    intro u
    obtain hu | ⟨-, hu⟩ := hs.only u
    · rw [hu]
      exact ⟨rfl, Iff.rfl, Iff.rfl⟩
    · obtain ⟨h₁, h₂, hsame⟩ := Place.wake_spec hu
      exact ⟨propext (iff_of_false h₂ h₁), hsame⟩
  refine ⟨fun u => ?_, fun u => ?_, fun u => ?_⟩
  · rw [(hstay u).1]
    exact h.mutex u
  · rw [(hstay u).2.1]
    exact h.writer u
  · rw [(hstay u).2.2]
    exact h.reader u

variable [DecidableEq Tid]

theorem Own.stay (h : Own s) (hm : k.InMutex ↔ (s.pc t).InMutex) (hsame : (s.pc t).Same k)
    (fifo : Fifo) : Own { s.goto t k with fifo } :=
  ⟨h.mutex.stay hm, h.writer.stay hsame.1, h.reader.stay hsame.2⟩

theorem Own.give (h : Own s) (hm : (s.pc t).InMutex) (hk : ¬ k.InMutex)
    (hsame : (s.pc t).Same k) : Own { s.goto t k with mutex := none } where
  mutex := by
    have ho := h.mutex
    rw [(h.mutex t).1 hm] at ho
    exact ho.leave hk
  writer := h.writer.stay hsame.1
  reader := h.reader.stay hsame.2

theorem Own.step (h : Own s) (hs : ThreadStep s t e s') : Own s' := by
  cases hs with
  | tooLarge n hpc hn => exact h
  | reserve n hpc hn =>
    exact h.stay (k := .wantWriter n) (by rw [hpc]; rfl) (by rw [hpc]; exact ⟨Iff.rfl, Iff.rfl⟩) _
  | read n hpc hn =>
    exact h.stay (k := .wantReader n) (by rw [hpc]; rfl) (by rw [hpc]; exact ⟨Iff.rfl, Iff.rfl⟩) _
  | close hpc =>
    exact h.stay (k := .closeLock) (by rw [hpc]; rfl) (by rw [hpc]; exact ⟨Iff.rfl, Iff.rfl⟩) _
  | commit n addr avail c hpc =>
    exact h.stay (k := .commitLock n addr avail c) (by rw [hpc]; rfl)
      (by rw [hpc]; exact ⟨Iff.rfl, Iff.rfl⟩) _
  | fill n addr avail i b hpc hi havail => exact ⟨h.mutex, h.writer, h.reader⟩
  | lockWrite n hpc hfree =>
    have hw := h.writer
    rw [hfree] at hw
    exact ⟨h.mutex.stay (by rw [hpc]; rfl), hw.enter trivial, h.reader.stay (by rw [hpc]; rfl)⟩
  | lockRead n hpc hfree =>
    have hr := h.reader
    rw [hfree] at hr
    exact ⟨h.mutex.stay (by rw [hpc]; rfl), h.writer.stay (by rw [hpc]; rfl), hr.enter trivial⟩
  | lock k hpc hfree =>
    obtain ⟨-, hin, hsame⟩ := Place.lock_spec hpc
    have hm := h.mutex
    rw [hfree] at hm
    exact ⟨hm.enter hin, h.writer.stay hsame.1, h.reader.stay hsame.2⟩
  | unlock k hpc =>
    obtain ⟨hin, hout, hsame⟩ := Place.unlock_spec hpc
    exact h.give hin hout hsame
  | sleep k hpc =>
    obtain ⟨hin, hout, hsame⟩ := Place.sleep_spec hpc
    exact h.give hin hout hsame
  | wake k hpc =>
    obtain ⟨h₁, h₂, hsame⟩ := Place.wake_spec hpc
    exact h.stay (iff_of_false h₂ h₁) hsame _
  | signal cond k pc hpc hwoken =>
    obtain ⟨h₁, h₂, hsame⟩ := Place.signal_spec hpc
    have hpct : pc t = s.pc t := by
      obtain ht | ⟨-, ht⟩ := hwoken.only t
      · exact ht
      · exact absurd h₁ (Place.wake_spec ht).1
    have hk := (h.signalled hwoken).stay (t := t) (k := k) (by
      change _ ↔ (pc t).InMutex
      rw [hpct]
      exact iff_of_true h₂ h₁) (by
      change (pc t).Same k
      rw [hpct]
      exact hsame) s.fifo
    exact hk
  | work fifo k hpc =>
    obtain ⟨h₁, h₂, hsame⟩ := Place.work_spec hpc
    exact h.stay (iff_of_true h₂ h₁) hsame _
  | store c hpc =>
    exact h.stay (k := .commitRelease) (by rw [hpc]; rfl) (by rw [hpc]; exact ⟨Iff.rfl, Iff.rfl⟩) _
  | take n hpc =>
    exact h.stay (k := .readUnlock _) (by rw [hpc]; rfl) (by rw [hpc]; exact ⟨Iff.rfl, Iff.rfl⟩) _
  | unlockWrite hpc =>
    have hw := h.writer
    rw [(h.writer t).1 (by rw [hpc]; trivial)] at hw
    exact ⟨h.mutex.stay (by rw [hpc]; rfl), hw.leave not_false, h.reader.stay (by rw [hpc]; rfl)⟩
  | giveUp hpc =>
    have hw := h.writer
    rw [(h.writer t).1 (by rw [hpc]; trivial)] at hw
    exact ⟨h.mutex.stay (by rw [hpc]; rfl), hw.leave not_false, h.reader.stay (by rw [hpc]; rfl)⟩
  | unlockRead r hpc =>
    have hr := h.reader
    rw [(h.reader t).1 (by rw [hpc]; trivial)] at hr
    exact ⟨h.mutex.stay (by rw [hpc]; rfl), h.writer.stay (by rw [hpc]; rfl), hr.leave not_false⟩

end Own

/-- Neither the space nor the close flag lets `fifoWriteReserve` go on, -/
def NoSpace (fifo : Fifo) (n : Nat) : Prop :=
  fifo.size - fifo.nbytes < n ∧ ¬ (fifo.closeIfEmpty ∧ fifo.nbytes = 0)

/-- and neither the data nor the flag `fifoRead`. -/
def NoData (fifo : Fifo) (n : Nat) : Prop :=
  fifo.nbytes < n ∧ ¬ (fifo.closeIfEmpty ∧ fifo.nbytes = 0)

/-- A sleeper has nothing to wake up for, or the thread that closes the FIFO is about
to signal. Where a commit or a read has signalled and is about to change the FIFO,
nobody is asleep. -/
structure Waiting (s : Threads Tid) : Prop where
  writer : ∀ t n, s.pc t = .reserveSleep n → NoSpace s.fifo n ∨ ∃ u, s.pc u = .closeSignalWriter
  reader : ∀ t n, s.pc t = .readSleep n → NoData s.fifo n ∨
    ∃ u, s.pc u = .closeSignalWriter ∨ s.pc u = .closeSignalReader
  writerTest : ∀ t n, s.pc t = .reserveWait n → NoSpace s.fifo n
  readerTest : ∀ t n, s.pc t = .readWait n → NoData s.fifo n
  writerTold : ∀ u n, s.pc u = .readCopy n → ∀ t m, s.pc t ≠ .reserveSleep m
  readerTold : ∀ u c, s.pc u = .commitStore c → ∀ t m, s.pc t ≠ .readSleep m

section Waiting

/-- Places that bring no duty with them, and those after a test that failed. -/
def Place.Plain (fifo : Fifo) : Place → Prop
  | .reserveWait n => NoSpace fifo n
  | .readWait n => NoData fifo n
  | .reserveSleep _ | .readSleep _ | .readCopy _ | .commitStore _ => False
  | .closeSignalWriter | .closeSignalReader => False
  | _ => True

/-- About to signal for `fifoCloseWhenEmpty`. -/
def Place.Closes (k : Place) : Prop := k = .closeSignalWriter ∨ k = .closeSignalReader

theorem sleeper_unique (h : Own s) {cond : Cond} (ht : (s.pc t).sleepsOn = some cond)
    (hu : (s.pc u).sleepsOn = some cond) : t = u := by
  cases cond with
  | writeCond =>
    refine h.writer.unique (t := t) (u := u) ?_ ?_
    · cases hk : s.pc t <;> rw [hk] at ht <;> first | trivial | cases ht
    · cases hk : s.pc u <;> rw [hk] at hu <;> first | trivial | cases hu
  | readCond =>
    refine h.reader.unique (t := t) (u := u) ?_ ?_
    · cases hk : s.pc t <;> rw [hk] at ht <;> first | trivial | cases ht
    · cases hk : s.pc u <;> rw [hk] at hu <;> first | trivial | cases hu

theorem Place.sleepsOn_spec {k : Place} {cond : Cond} (h : k.sleepsOn = some cond) :
    ¬ k.InMutex := by
  cases k <;> cases h <;> exact not_false

theorem Place.wake_sleepsOn {k k' : Place} (h : k.wake = some k') : k'.sleepsOn = none := by
  cases k <;> cases h <;> rfl

/-- The outer mutex leaves one sleeper, so one signal wakes them all. -/
theorem Signalled.awake (h : Own s) {cond : Cond} {pc : Tid → Place}
    (hs : Signalled cond s.pc pc) (u : Tid) : (pc u).sleepsOn ≠ some cond := by
  intro hu
  obtain heq | ⟨-, hw⟩ := hs.only u
  · rw [heq] at hu
    obtain ⟨v, hv, hne⟩ := hs.one ⟨u, hu⟩
    rw [sleeper_unique h hv hu] at hne
    exact hne heq
  · rw [Place.wake_sleepsOn hw] at hu
    cases hu

/-- Who sleeps after a signal has slept before it. -/
theorem Signalled.slept {cond c : Cond} {pc : Tid → Place} (hs : Signalled cond s.pc pc)
    (hu : (pc u).sleepsOn = some c) : s.pc u = pc u := by
  obtain heq | ⟨-, hw⟩ := hs.only u
  · exact heq.symm
  · rw [Place.wake_sleepsOn hw] at hu
    cases hu

/-- A thread in a critical section is the only one. -/
theorem Own.alone (h : Own s) (ht : (s.pc t).InMutex) {k : Place} (hk : k.InMutex) (hu : u ≠ t) :
    s.pc u ≠ k := by
  rintro rfl
  exact hu (h.mutex.unique hk ht)

theorem NoSpace.congr {f f' : Fifo} {n : Nat} (h : NoSpace f n) (hs : f'.size = f.size)
    (hn : f'.nbytes = f.nbytes) (hc : f'.closeIfEmpty = f.closeIfEmpty) : NoSpace f' n := by
  rw [NoSpace, hs, hn, hc]
  exact h

theorem NoData.congr {f f' : Fifo} {n : Nat} (h : NoData f n)
    (hn : f'.nbytes = f.nbytes) (hc : f'.closeIfEmpty = f.closeIfEmpty) : NoData f' n := by
  rw [NoData, hn, hc]
  exact h

variable [DecidableEq Tid]

theorem Threads.goto_self (s : Threads Tid) (t : Tid) (k : Place) : (s.goto t k).pc t = k :=
  Function.update_self ..

theorem Threads.goto_of_ne (s : Threads Tid) {t u : Tid} (k : Place) (h : u ≠ t) :
    (s.goto t k).pc u = s.pc u :=
  Function.update_of_ne h ..

theorem Place.lock_plain {k k' : Place} (h : k.lock = some k') (fifo : Fifo) :
    ¬ k.Closes ∧ k'.Plain fifo := by
  cases k <;> cases h <;> exact ⟨by simp [Place.Closes], trivial⟩

theorem Place.unlock_plain {k k' : Place} (h : k.unlock = some k') (fifo : Fifo) :
    ¬ k.Closes ∧ k'.Plain fifo := by
  cases k <;> cases h <;> exact ⟨by simp [Place.Closes], trivial⟩

theorem Place.wake_plain {k k' : Place} (h : k.wake = some k') (fifo : Fifo) :
    ¬ k.Closes ∧ k'.Plain fifo := by
  cases k <;> cases h <;> exact ⟨by simp [Place.Closes], trivial⟩

/-- Where a thread is after a step of `t`, it was before or `t` is now. -/
theorem goto_cases (hpc : s'.pc = (s.goto t k).pc) {k' : Place} (hu : s'.pc u = k') :
    (u = t ∧ k = k') ∨ (u ≠ t ∧ s.pc u = k') := by
  rw [hpc] at hu
  by_cases hut : u = t
  · subst u
    rw [Threads.goto_self] at hu
    exact .inl ⟨rfl, hu⟩
  · rw [Threads.goto_of_ne s k hut] at hu
    exact .inr ⟨hut, hu⟩

theorem goto_old (hpc : s'.pc = (s.goto t k).pc) (hk : k.Plain s'.fifo) {k' : Place}
    (hu : s'.pc u = k') (hk' : ¬ k'.Plain s'.fifo) : u ≠ t ∧ s.pc u = k' := by
  refine (goto_cases hpc hu).resolve_left ?_
  rintro ⟨-, rfl⟩
  exact hk' hk

/-- A step that does not touch what the sleepers look at. -/
theorem Waiting.plain (h : Waiting s) (hpc : s'.pc = (s.goto t k).pc) (hk : k.Plain s'.fifo)
    (ht : ¬ (s.pc t).Closes) (hsize : s'.fifo.size = s.fifo.size)
    (hn : s'.fifo.nbytes = s.fifo.nbytes)
    (hc : s'.fifo.closeIfEmpty = s.fifo.closeIfEmpty) : Waiting s' := by
  have hkeep : ∀ u, (s.pc u).Closes → s'.pc u = s.pc u := by
    intro u hu
    rw [hpc]
    refine Threads.goto_of_ne s k ?_
    rintro rfl
    exact ht hu
  refine ⟨fun u n hu => ?_, fun u n hu => ?_, fun u n hu => ?_, fun u n hu => ?_,
    fun u n hu v m hv => ?_, fun u c hu v m hv => ?_⟩
  · obtain hb | ⟨v, hv⟩ := h.writer u n (goto_old hpc hk hu not_false).2
    · exact .inl (hb.congr hsize hn hc)
    · exact .inr ⟨v, by rw [hkeep v (.inl hv), hv]⟩
  · obtain hb | ⟨v, hv⟩ := h.reader u n (goto_old hpc hk hu not_false).2
    · exact .inl (hb.congr hn hc)
    · exact .inr ⟨v, by rwa [hkeep v hv]⟩
  · obtain ⟨-, rfl⟩ | ⟨-, hu⟩ := goto_cases hpc hu
    · exact hk
    · exact (h.writerTest u n hu).congr hsize hn hc
  · obtain ⟨-, rfl⟩ | ⟨-, hu⟩ := goto_cases hpc hu
    · exact hk
    · exact (h.readerTest u n hu).congr hn hc
  · exact h.writerTold u n (goto_old hpc hk hu not_false).2 v m (goto_old hpc hk hv not_false).2
  · exact h.readerTold u c (goto_old hpc hk hu not_false).2 v m (goto_old hpc hk hv not_false).2

/-- In a critical section with nobody asleep anything may be done. -/
theorem Waiting.alone (ho : Own s) (ht : (s.pc t).InMutex) (hpc : s'.pc = (s.goto t k).pc)
    (hk : k.Plain s'.fifo) (hwriter : ∀ u n, s.pc u ≠ .reserveSleep n)
    (hreader : ∀ u n, s.pc u ≠ .readSleep n) : Waiting s' := by
  refine ⟨fun u n hu => ?_, fun u n hu => ?_, fun u n hu => ?_, fun u n hu => ?_,
    fun u n hu v m hv => ?_, fun u c hu v m hv => ?_⟩
  · exact absurd (goto_old hpc hk hu not_false).2 (hwriter u n)
  · exact absurd (goto_old hpc hk hu not_false).2 (hreader u n)
  · obtain ⟨-, rfl⟩ | ⟨hut, hu⟩ := goto_cases hpc hu
    · exact hk
    · exact absurd hu (ho.alone ht trivial hut)
  · obtain ⟨-, rfl⟩ | ⟨hut, hu⟩ := goto_cases hpc hu
    · exact hk
    · exact absurd hu (ho.alone ht trivial hut)
  · exact hwriter v m (goto_old hpc hk hv not_false).2
  · exact hreader v m (goto_old hpc hk hv not_false).2

/-- To sleep: the test has just failed, and nobody is about to change the FIFO. -/
theorem Waiting.sleep (h : Waiting s) (ho : Own s) (ht : (s.pc t).sleep = some k) :
    Waiting { s.goto t k with mutex := none } := by
  have hin := (Place.sleep_spec ht).1
  have hother : ∀ u k', k'.InMutex → (s.goto t k).pc u ≠ k' := by
    intro u k' hk' hu
    by_cases hut : u = t
    · subst u
      rw [Threads.goto_self] at hu
      exact (Place.sleep_spec ht).2.1 (hu ▸ hk')
    · rw [Threads.goto_of_ne s k hut] at hu
      exact ho.alone hin hk' hut hu
  refine ⟨fun u n hu => .inl ?_, fun u n hu => .inl ?_, fun u n hu => absurd hu (hother u _ trivial),
    fun u n hu => absurd hu (hother u _ trivial), fun u n hu => absurd hu (hother u _ trivial),
    fun u c hu => absurd hu (hother u _ trivial)⟩
  · change (s.goto t k).pc u = _ at hu
    by_cases hut : u = t
    · subst u
      rw [Threads.goto_self] at hu
      subst k
      refine h.writerTest t n ?_
      cases hk : s.pc t <;> rw [hk] at ht <;> cases ht
      rfl
    · rw [Threads.goto_of_ne s k hut] at hu
      obtain hb | ⟨v, hv⟩ := h.writer u n hu
      · exact hb
      · have hvt := ho.mutex.unique (show (s.pc v).InMutex by rw [hv]; trivial) hin
        rw [← hvt, hv] at ht
        cases ht
  · change (s.goto t k).pc u = _ at hu
    by_cases hut : u = t
    · subst u
      rw [Threads.goto_self] at hu
      subst k
      refine h.readerTest t n ?_
      cases hk : s.pc t <;> rw [hk] at ht <;> cases ht
      rfl
    · rw [Threads.goto_of_ne s k hut] at hu
      obtain hb | ⟨v, hv⟩ := h.reader u n hu
      · exact hb
      · have hvt := ho.mutex.unique (show (s.pc v).InMutex by
          obtain hv | hv := hv <;> rw [hv] <;> trivial) hin
        rw [← hvt] at ht
        obtain hv | hv := hv <;> rw [hv] at ht <;> cases ht

/-- After a signal: the commit and the read go on to change the FIFO, the thread
that closes it to the other signal. -/
theorem Waiting.signal (h : Waiting s) (ho : Own s) {cond : Cond} {pc : Tid → Place}
    (ht : (s.pc t).signal = some (cond, k)) (hw : Signalled cond s.pc pc) :
    Waiting { s with pc := Function.update pc t k } := by
  obtain ⟨hin, hkin, -⟩ := Place.signal_spec ht
  have hself : Function.update pc t k t = k := Function.update_self ..
  have hother : ∀ u k', k'.InMutex → Function.update pc t k u = k' → u = t ∧ k' = k := by
    intro u k' hk' hu
    by_cases hut : u = t
    · subst u
      exact ⟨rfl, hu.symm.trans hself⟩
    · rw [Function.update_of_ne hut] at hu
      obtain heq | ⟨-, hwake⟩ := hw.only u
      · exact absurd (heq.symm.trans hu) (ho.alone hin hk' hut)
      · rw [hu] at hwake
        exact absurd hk' (Place.wake_spec hwake).2.1
  have hslept : ∀ u c, (Function.update pc t k u).sleepsOn = some c →
      s.pc u = Function.update pc t k u ∧ c ≠ cond := by
    intro u c hu
    have hut : u ≠ t := by
      rintro rfl
      rw [hself] at hu
      exact Place.sleepsOn_spec hu hkin
    rw [Function.update_of_ne hut] at hu ⊢
    refine ⟨hw.slept hu, ?_⟩
    rintro rfl
    exact hw.awake ho u hu
  refine ⟨fun u n (hu : Function.update pc t k u = _) => ?_,
    fun u n (hu : Function.update pc t k u = _) => ?_,
    fun u n (hu : Function.update pc t k u = _) => ?_,
    fun u n (hu : Function.update pc t k u = _) => ?_,
    fun u n (hu : Function.update pc t k u = _) v m (hv : Function.update pc t k v = _) => ?_,
    fun u c (hu : Function.update pc t k u = _) v m (hv : Function.update pc t k v = _) => ?_⟩
  · -- a writer still asleep: the signal went to the readers
    obtain ⟨heq, hc⟩ := hslept u .writeCond (by rw [hu]; rfl)
    rw [hu] at heq
    obtain ⟨c, hk, -, -⟩ | ⟨m, -, hw, -⟩ | ⟨-, hw, -⟩ | ⟨hk, -, -⟩ := Place.signal_cases ht
    · have hut := ho.writer.unique (show (s.pc u).InWriter by rw [heq]; trivial)
        (show (s.pc t).InWriter by rw [hk]; trivial)
      rw [hut, hk] at heq
      cases heq
    · exact absurd hw.symm hc
    · exact absurd hw.symm hc
    · refine .inl ((h.writer u n heq).resolve_right ?_)
      rintro ⟨v, hv⟩
      have hvt := ho.mutex.unique (show (s.pc v).InMutex by rw [hv]; trivial) hin
      rw [hvt, hk] at hv
      cases hv
  · -- a reader still asleep: it went to the writers
    obtain ⟨heq, hc⟩ := hslept u .readCond (by rw [hu]; rfl)
    rw [hu] at heq
    obtain ⟨c, -, hr, -⟩ | ⟨m, hk, -, -⟩ | ⟨-, -, rfl⟩ | ⟨-, hr, -⟩ := Place.signal_cases ht
    · exact absurd hr.symm hc
    · have hut := ho.reader.unique (show (s.pc u).InReader by rw [heq]; trivial)
        (show (s.pc t).InReader by rw [hk]; trivial)
      rw [hut, hk] at heq
      cases heq
    · exact .inr ⟨t, .inr hself⟩
    · exact absurd hr.symm hc
  · obtain ⟨-, rfl⟩ := hother u (.reserveWait n) trivial hu
    obtain ⟨c, -, -, hk⟩ | ⟨m, -, -, hk⟩ | ⟨-, -, hk⟩ | ⟨-, -, hk⟩ := Place.signal_cases ht <;>
      cases hk
  · obtain ⟨-, rfl⟩ := hother u (.readWait n) trivial hu
    obtain ⟨c, -, -, hk⟩ | ⟨m, -, -, hk⟩ | ⟨-, -, hk⟩ | ⟨-, -, hk⟩ := Place.signal_cases ht <;>
      cases hk
  · obtain ⟨-, rfl⟩ := hother u (.readCopy n) trivial hu
    obtain ⟨c, -, -, hk⟩ | ⟨m, -, hw, -⟩ | ⟨-, -, hk⟩ | ⟨-, -, hk⟩ := Place.signal_cases ht
    · cases hk
    · exact (hslept v .writeCond (by rw [hv]; rfl)).2 hw.symm
    · cases hk
    · cases hk
  · obtain ⟨-, rfl⟩ := hother u (.commitStore c) trivial hu
    obtain ⟨c, -, hr, -⟩ | ⟨m, -, -, hk⟩ | ⟨-, -, hk⟩ | ⟨-, -, hk⟩ := Place.signal_cases ht
    · exact (hslept v .readCond (by rw [hv]; rfl)).2 hr.symm
    · cases hk
    · cases hk
    · cases hk

theorem Waiting.store (h : Waiting s) (ho : Own s) {c : Commit} (ht : s.pc t = .commitStore c)
    (fifo : Fifo) : Waiting { s.goto t .commitRelease with fifo } := by
  refine Waiting.alone (k := .commitRelease) ho (by rw [ht]; trivial) rfl trivial
    (fun u n hu => ?_) (fun u n hu => h.readerTold t c ht u n hu)
  have hut := ho.writer.unique (show (s.pc u).InWriter by rw [hu]; trivial)
    (show (s.pc t).InWriter by rw [ht]; trivial)
  rw [hut, ht] at hu
  cases hu

theorem Waiting.take (h : Waiting s) (ho : Own s) {n : Nat} {r : Option (List UInt8)}
    (ht : s.pc t = .readCopy n) (fifo : Fifo) :
    Waiting { s.goto t (.readUnlock r) with fifo } := by
  refine Waiting.alone (k := .readUnlock r) ho (by rw [ht]; trivial) rfl trivial
    (fun u m hu => h.writerTold t n ht u m hu) (fun u m hu => ?_)
  have hut := ho.reader.unique (show (s.pc u).InReader by rw [hu]; trivial)
    (show (s.pc t).InReader by rw [ht]; trivial)
  rw [hut, ht] at hu
  cases hu

/-- What a thread does between two calls. -/
theorem Waiting.work (h : Waiting s) (ho : Own s) {fifo : Fifo}
    (ht : (s.pc t).work s.fifo = some (fifo, k)) : Waiting { s.goto t k with fifo } := by
  have hin := (Place.work_spec ht).1
  cases hk : s.pc t <;> rw [hk] at ht <;> simp only [Place.work, reduceCtorEq] at ht
  case reserveTest n =>
    split at ht
    · cases ht
      exact h.plain (k := .reserveClosed) rfl trivial (by simp [hk, Place.Closes]) rfl rfl rfl
    · next addr avail fifo hr =>
      cases ht
      have hf : fifo = { s.fifo with nreserved := n } := by
        unfold fifoWriteReserve at hr
        split_ifs at hr
        cases hr
        rfl
      subst hf
      exact h.plain (k := .reserveDone n addr avail) rfl trivial (by simp [hk, Place.Closes]) rfl
        rfl rfl
    · next hr =>
      cases ht
      refine h.plain (k := .reserveWait n) rfl ?_ (by simp [hk, Place.Closes]) rfl rfl rfl
      unfold fifoWriteReserve at hr
      split_ifs at hr with h₁ h₂
      exact ⟨not_le.1 h₂, h₁⟩
  case commitTest n addr avail c =>
    split at ht
    · cases ht
      exact h.plain (k := .commitRefused n addr avail) rfl trivial (by simp [hk, Place.Closes]) rfl
        rfl rfl
    · split at ht <;> cases ht <;>
        exact h.plain (k := .commitSignal _) rfl trivial (by simp [hk, Place.Closes]) rfl rfl rfl
  case readTest n =>
    split_ifs at ht with h₁ h₂
    · cases ht
      exact h.plain (k := .readUnlock none) rfl trivial (by simp [hk, Place.Closes]) rfl rfl rfl
    · cases ht
      exact h.plain (k := .readSignal n) rfl trivial (by simp [hk, Place.Closes]) rfl rfl rfl
    · cases ht
      exact h.plain (k := .readWait n) rfl ⟨not_le.1 h₂, h₁⟩ (by simp [hk, Place.Closes]) rfl rfl
        rfl
  case closeSet =>
    cases ht
    -- the signals to come take care of every sleeper
    have hself : (s.goto t .closeSignalWriter).pc t = .closeSignalWriter := Threads.goto_self ..
    have hother : ∀ u k', k'.InMutex → (s.goto t .closeSignalWriter).pc u = k' →
        k' = .closeSignalWriter := by
      intro u k' hk' hu
      obtain ⟨-, hc⟩ | ⟨hut, hu⟩ := goto_cases rfl hu
      · exact hc.symm
      · exact absurd hu (ho.alone hin hk' hut)
    refine ⟨fun u n hu => .inr ⟨t, hself⟩, fun u n hu => .inr ⟨t, .inl hself⟩, fun u n hu => ?_,
      fun u n hu => ?_, fun u n hu => ?_, fun u c hu => ?_⟩
    · cases hother u (.reserveWait n) trivial hu
    · cases hother u (.readWait n) trivial hu
    · cases hother u (.readCopy n) trivial hu
    · cases hother u (.commitStore c) trivial hu

theorem Waiting.step (h : Waiting s) (ho : Own s) (hs : ThreadStep s t e s') : Waiting s' := by
  cases hs with
  | tooLarge n hpc hn => exact h
  | reserve n hpc hn =>
    exact h.plain (k := .wantWriter n) rfl trivial (by simp [hpc, Place.Closes]) rfl rfl rfl
  | read n hpc hn =>
    exact h.plain (k := .wantReader n) rfl trivial (by simp [hpc, Place.Closes]) rfl rfl rfl
  | close hpc =>
    exact h.plain (k := .closeLock) rfl trivial (by simp [hpc, Place.Closes]) rfl rfl rfl
  | commit n addr avail c hpc =>
    exact h.plain (k := .commitLock n addr avail c) rfl trivial (by simp [hpc, Place.Closes]) rfl
      rfl rfl
  | fill n addr avail i b hpc hi havail => exact ⟨h.1, h.2, h.3, h.4, h.5, h.6⟩
  | lockWrite n hpc hfree =>
    exact h.plain (k := .reserveLock n) rfl trivial (by simp [hpc, Place.Closes]) rfl rfl rfl
  | lockRead n hpc hfree =>
    exact h.plain (k := .readLock n) rfl trivial (by simp [hpc, Place.Closes]) rfl rfl rfl
  | lock k hpc hfree =>
    obtain ⟨hc, hk⟩ := Place.lock_plain hpc s.fifo
    exact h.plain rfl hk hc rfl rfl rfl
  | unlock k hpc =>
    obtain ⟨hc, hk⟩ := Place.unlock_plain hpc s.fifo
    exact h.plain rfl hk hc rfl rfl rfl
  | sleep k hpc => exact h.sleep ho hpc
  | wake k hpc =>
    obtain ⟨hc, hk⟩ := Place.wake_plain hpc s.fifo
    exact h.plain rfl hk hc rfl rfl rfl
  | signal cond k pc hpc hwoken => exact h.signal ho hpc hwoken
  | work fifo k hpc => exact h.work ho hpc
  | store c hpc => exact h.store ho hpc _
  | take n hpc => exact h.take ho hpc _
  | unlockWrite hpc =>
    exact h.plain (k := .commitUnlock) rfl trivial (by simp [hpc, Place.Closes]) rfl rfl rfl
  | giveUp hpc =>
    exact h.plain (k := .idle) rfl trivial (by simp [hpc, Place.Closes]) rfl rfl rfl
  | unlockRead r hpc =>
    exact h.plain (k := .idle) rfl trivial (by simp [hpc, Place.Closes]) rfl rfl rfl

end Waiting

theorem Waiting.init (buf : Mem UInt8) (size : Nat) :
    Waiting (Threads.init buf size : Threads Tid) :=
  ⟨nofun, nofun, nofun, nofun, nofun, nofun⟩

/-- While nobody has the mutex a sleeper has nothing to wake up for. -/
theorem Waiting.asleep (h : Waiting s) (ho : Own s) (hfree : s.mutex = none) :
    (∀ t n, s.pc t = .reserveSleep n → NoSpace s.fifo n) ∧
      ∀ t n, s.pc t = .readSleep n → NoData s.fifo n := by
  have hm := ho.mutex
  rw [hfree] at hm
  constructor
  · intro t n ht
    refine (h.writer t n ht).resolve_right ?_
    rintro ⟨u, hu⟩
    exact hm.not_inside u (by rw [hu]; trivial)
  · intro t n ht
    refine (h.reader t n ht).resolve_right ?_
    rintro ⟨u, hu | hu⟩
    · exact hm.not_inside u (by rw [hu]; trivial)
    · exact hm.not_inside u (by rw [hu]; trivial)

section Runs
variable [DecidableEq Tid]

theorem own_waiting (buf : Mem UInt8) (size : Nat) {es : List (Note Tid)}
    (h : Trace ThreadsStep (Threads.init buf size) es s) : Own s ∧ Waiting s := by
  refine h.invariant (P := fun s => Own s ∧ Waiting s) ?_ ⟨Own.init buf size, Waiting.init buf size⟩
  rintro s e s' ⟨ho, hw⟩ ⟨t, hs⟩
  exact ⟨ho.step hs, hw.step ho hs⟩

/-- In every interleaving, with spurious wake-ups and any number of closes: a thread
that sleeps unsignalled while the mutex is free finds too little space or data, and
the FIFO not closed and empty. -/
theorem no_lost_wakeup (buf : Mem UInt8) (size : Nat) {es : List (Note Tid)}
    (h : Trace ThreadsStep (Threads.init buf size) es s) (hfree : s.mutex = none) :
    (∀ t n, s.pc t = .reserveSleep n →
      s.fifo.size - s.fifo.nbytes < n ∧ ¬ (s.fifo.closeIfEmpty ∧ s.fifo.nbytes = 0)) ∧
    ∀ t n, s.pc t = .readSleep n →
      s.fifo.nbytes < n ∧ ¬ (s.fifo.closeIfEmpty ∧ s.fifo.nbytes = 0) :=
  have hi := own_waiting buf size h
  hi.2.asleep hi.1 hfree

/-- A reader goes to sleep on the empty FIFO. -/
theorem no_lost_wakeup_run :
    ∃ (es : List (Note Unit)) (s : Threads Unit),
      Trace ThreadsStep (Threads.init (fun _ => 0) 4) es s ∧ s.pc () = .readSleep 1 ∧
        s.fifo.nbytes < 1 := by
  have h : Trace ThreadsStep (Threads.init (fun _ => 0) 4 : Threads Unit) _ _ :=
    .cons ⟨(), .read 1 rfl (by decide)⟩ <| .cons ⟨(), .lockRead 1 rfl rfl⟩ <|
      .cons ⟨(), .lock (.readTest 1) rfl rfl⟩ <| .cons ⟨(), .work _ (.readWait 1) rfl⟩ <|
      .cons ⟨(), .sleep (.readSleep 1) rfl⟩ <| .nil _
  exact ⟨_, _, h, rfl, ((no_lost_wakeup _ _ h rfl).2 () 1 rfl).1⟩

end Runs
end Noaaport.Fifo
