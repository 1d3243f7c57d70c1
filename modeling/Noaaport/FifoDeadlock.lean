import Mathlib.Data.Nat.Find
import Noaaport.FifoSession

/-! A thread that loops over `fifoWriteReserve` and one that loops over `fifoRead`:
when each can wait for the other. -/
namespace Noaaport.Fifo
open Lib

/-- The discipline: `wr` reserves `w` bytes again and again, `rd` reads `ns i` bytes in
its `i`-th call, and nobody closes the FIFO. -/
def LoopRules {Tid : Type*} (w : Nat) (ns : Nat → Nat) (wr rd : Tid) (x : Session Tid) :
    Note Tid → Prop
  | .reserve t n => t = wr ∧ n = w
  | .read t n => t = rd ∧ n = ns x.reads
  | .close _ => False
  | _ => True

def Deadlocked {Tid : Type*} (wr rd : Tid) (s : Threads Tid) : Prop :=
  (∃ n, s.pc wr = .reserveSleep n) ∧ ∃ n, s.pc rd = .readSleep n

def DeadlockFree {Tid : Type*} [DecidableEq Tid] (S w : Nat) (ns : Nat → Nat) (wr rd : Tid) :
    Prop :=
  ∀ (buf : Mem UInt8) (es : List (Note Tid)) (x : Session Tid),
    Trace (SessionStep (LoopRules w ns wr rd)) (Session.init buf S) es x → ¬ Deadlocked wr rd x.sys

variable {Tid : Type*} {x y : Session Tid} {s s' : Threads Tid} {e : Note Tid} {t u : Tid}
  {S w : Nat} {ns : Nat → Nat} {wr rd : Tid}

section Calls

/-- The call under way, until it has its space or its data. -/
def Place.call (t : Tid) : Place → Note Tid
  | .wantWriter n | .reserveLock n | .reserveTest n | .reserveWait n | .reserveSleep n
  | .reserveWoken n => .reserve t n
  | .wantReader n | .readLock n | .readTest n | .readWait n | .readSleep n | .readWoken n
  | .readSignal n | .readCopy n => .read t n
  | .closeLock | .closeSet | .closeSignalWriter | .closeSignalReader | .closeUnlock => .close t
  | _ => .quiet

/-- It goes on, or it is over. -/
def Place.Goes (t : Tid) (k k' : Place) : Prop := k'.call t = k.call t ∨ k'.call t = .quiet

variable {k k' : Place}

theorem Place.lock_goes (h : k.lock = some k') : k.Goes t k' := by
  cases k <;> cases h <;> exact .inl rfl

theorem Place.unlock_goes (h : k.unlock = some k') : k.Goes t k' := by
  cases k <;> cases h <;> exact .inr rfl

theorem Place.sleep_goes (h : k.sleep = some k') : k.Goes t k' := by
  cases k <;> cases h <;> exact .inl rfl

theorem Place.wake_goes (h : k.wake = some k') : k.Goes t k' := by
  cases k <;> cases h <;> exact .inl rfl

theorem Place.signal_goes {cond : Cond} (h : k.signal = some (cond, k')) : k.Goes t k' := by
  cases k <;> cases h <;> exact .inl rfl

theorem Place.work_goes {fifo fifo' : Fifo} (h : k.work fifo = some (fifo', k')) :
    k.Goes t k' := by
  cases k <;> simp only [Place.work, reduceCtorEq] at h
  case reserveTest n => split at h <;> cases h <;> first | exact .inl rfl | exact .inr rfl
  case commitTest n addr avail c =>
    split at h
    · cases h
      exact .inl rfl
    · split at h <;> cases h <;> exact .inl rfl
  case readTest n => split_ifs at h <;> cases h <;> first | exact .inl rfl | exact .inr rfl
  case closeSet =>
    cases h
    exact .inl rfl

variable [DecidableEq Tid]

theorem goto_goes (h : (s.pc t).Goes t k) (u : Tid) : (s.pc u).Goes u ((s.goto t k).pc u) := by
  by_cases hu : u = t
  · subst u
    rw [Threads.goto_self]
    exact h
  · rw [Threads.goto_of_ne s k hu]
    exact .inl rfl

theorem goto_begins (h : k.call t = e) (u : Tid) :
    (s.pc u).Goes u ((s.goto t k).pc u) ∨ ((s.goto t k).pc u).call u = e := by
  by_cases hu : u = t
  · subst u
    rw [Threads.goto_self]
    exact .inr h
  · rw [Threads.goto_of_ne s k hu]
    exact .inl (.inl rfl)

/-- A call goes on, is over, or begins with the step. -/
theorem ThreadStep.call (hs : ThreadStep s t e s') (u : Tid) :
    (s.pc u).Goes u (s'.pc u) ∨ (s'.pc u).call u = e := by
  cases hs with
  | tooLarge n hpc hn => exact .inl (.inl rfl)
  | reserve n hpc hn => exact goto_begins rfl u
  | read n hpc hn => exact goto_begins rfl u
  | close hpc => exact goto_begins rfl u
  | commit n addr avail c hpc => exact .inl (goto_goes (.inr rfl) u)
  | fill n addr avail i b hpc hi havail => exact .inl (.inl rfl)
  | lockWrite n hpc hfree => exact .inl (goto_goes (.inl (by rw [hpc]; rfl)) u)
  | lockRead n hpc hfree => exact .inl (goto_goes (.inl (by rw [hpc]; rfl)) u)
  | lock k hpc hfree => exact .inl (goto_goes (Place.lock_goes hpc) u)
  | unlock k hpc => exact .inl (goto_goes (Place.unlock_goes hpc) u)
  | sleep k hpc => exact .inl (goto_goes (Place.sleep_goes hpc) u)
  | wake k hpc => exact .inl (goto_goes (Place.wake_goes hpc) u)
  | signal cond k pc hpc hwoken =>
    left
    change (s.pc u).Goes u (Function.update pc t k u)
    by_cases hu : u = t
    · subst u
      rw [Function.update_self]
      exact Place.signal_goes hpc
    · rw [Function.update_of_ne hu]
      obtain hsame | ⟨-, hwake⟩ := hwoken.only u
      · exact .inl (by rw [hsame])
      · exact Place.wake_goes hwake
  | work fifo k hpc => exact .inl (goto_goes (Place.work_goes hpc) u)
  | store c hpc => exact .inl (goto_goes (.inr rfl) u)
  | take n hpc => exact .inl (goto_goes (.inr rfl) u)
  | unlockWrite hpc => exact .inl (goto_goes (.inr rfl) u)
  | giveUp hpc => exact .inl (goto_goes (.inr rfl) u)
  | unlockRead r hpc => exact .inl (goto_goes (.inr rfl) u)

end Calls

section Free

/-- The calls the discipline allows, whenever they are made. -/
def Looping (w : Nat) (ns : Nat → Nat) : Note Tid → Prop
  | .reserve _ n => n = w
  | .read _ n => ∃ i, n = ns i
  | .close _ => False
  | _ => True

theorem LoopRules.looping (h : LoopRules w ns wr rd x e) : Looping w ns e := by
  cases e with
  | reserve t n => exact h.2
  | read t n => exact ⟨x.reads, h.2⟩
  | close t => exact h
  | quiet => trivial
  | commit t bs => trivial
  | take t bs => trivial
  | result t r => trivial

/-- Both asleep: neither has what it waits for, and nobody is closing the FIFO. -/
theorem Deadlocked.lack (hd : Deadlocked wr rd s) (hw : Waiting s)
    (h : ∀ u, Looping w ns ((s.pc u).call u)) :
    NoSpace s.fifo w ∧ ∃ i, NoData s.fifo (ns i) := by
  obtain ⟨⟨m, hwr⟩, n, hrd⟩ := hd
  have hopen : ∀ u k, k.call u = .close u → s.pc u ≠ k := by
    intro u k hk hu
    have hcall := h u
    rw [hu, hk] at hcall
    exact hcall
  constructor
  · obtain hspace | ⟨u, hu⟩ := hw.writer wr m hwr
    · have hm := h wr
      rw [hwr] at hm
      change m = w at hm
      rwa [hm] at hspace
    · exact absurd hu (hopen u _ rfl)
  · obtain hdata | ⟨u, hu | hu⟩ := hw.reader rd n hrd
    · have hn := h rd
      rw [hrd] at hn
      obtain ⟨i, hi⟩ := hn
      exact ⟨i, by rwa [hi] at hdata⟩
    · exact absurd hu (hopen u _ rfl)
    · exact absurd hu (hopen u _ rfl)

variable [DecidableEq Tid]

/-- Every call under way is one of them. -/
theorem calls_looping {es : List (Note Tid)}
    (hr : Trace (SessionStep (LoopRules w ns wr rd)) x es y)
    (h : ∀ u, Looping w ns ((x.sys.pc u).call u)) (u : Tid) :
    Looping w ns ((y.sys.pc u).call u) := by
  refine hr.invariant (P := fun z => ∀ u, Looping w ns ((z.sys.pc u).call u)) ?_ h u
  intro x e y h hs u
  obtain ⟨sys, ⟨t, hs⟩, ha, rfl⟩ := hs
  obtain (hgo | hover) | hbegin := hs.call u
  · change Looping w ns ((sys.pc u).call u)
    rw [hgo]
    exact h u
  · change Looping w ns ((sys.pc u).call u)
    rw [hover]
    trivial
  · change Looping w ns ((sys.pc u).call u)
    rw [hbegin]
    exact ha.looping

/-- Requests that fit together with one byte to spare never wait for each other. -/
theorem deadlockFree_of_le (hw : w ≤ S) (h : ∀ i, w + ns i ≤ S + 1) :
    DeadlockFree S w ns wr rd := by
  intro buf es x hr hd
  have hcalls := calls_looping hr fun _ => trivial
  have hwait : Own x.sys ∧ Waiting x.sys := by
    refine hr.invariant (P := fun z => Own z.sys ∧ Waiting z.sys) ?_
      ⟨Own.init buf S, Waiting.init buf S⟩
    intro x e y h hs
    obtain ⟨sys, ⟨t, hs⟩, -, rfl⟩ := hs
    exact ⟨h.1.step hs, h.2.step h.1 hs⟩
  obtain ⟨hspace, i, hdata⟩ := hd.lack hwait.2 hcalls
  have hroom := hspace.1
  have hless := hdata.1
  have hfit := h i
  obtain rfl | hS := Nat.eq_zero_or_pos S
  · omega
  · have hx := (Session.Sound.init buf hS).run hr
    have hsize := hx.stored.size
    have hmax := hx.stored.room
    omega

end Free

section Stuck

/-- Between two calls: `b` unread bytes, and `i` reads made. -/
structure Level (S b i : Nat) (x : Session Tid) : Prop where
  calm : ∃ fifo, x.sys = .calm fifo
  sound : x.Sound S
  nbytes : x.sys.fifo.nbytes = b
  opened : x.sys.fifo.closeIfEmpty = false
  reads : x.reads = i

variable {b c i : Nat}

theorem Level.init (hS : 0 < S) : Level S 0 0 (Session.init (fun _ => 0) S : Session Tid) :=
  ⟨⟨_, rfl⟩, Session.Sound.init _ hS, rfl, rfl, rfl⟩

theorem loopRules_lax (w : Nat) (ns : Nat → Nat) (wr rd : Tid) : Lax (LoopRules w ns wr rd) :=
  ⟨fun _ => trivial, fun _ _ _ => trivial, fun _ _ _ => trivial⟩

variable [DecidableEq Tid]

theorem Reaches.sound {allowed : Session Tid → Note Tid → Prop} (h : Reaches allowed x y)
    (hx : x.Sound S) : y.Sound S := by
  obtain ⟨es, hr⟩ := h
  exact hx.run hr

/-- A reservation and a commit of one byte of it. -/
theorem Level.commit (ns : Nat → Nat) (wr rd : Tid) (h : Level S b i x) (hw : 0 < w) (hb : b + w ≤ S) :
    ∃ y, Reaches (LoopRules w ns wr rd) x y ∧ Level S (b + 1) i y := by
  obtain ⟨⟨fifo, hsys⟩, hx, hn, hopen, hreads⟩ := h
  have hsize := hx.stored.size
  have hpos := hx.stored.pos
  have hlen := hx.nbytes
  rw [hsys] at hn hopen hsize hpos
  rw [hsys] at hlen
  change fifo.nbytes = b at hn
  change fifo.closeIfEmpty = false at hopen
  change fifo.size = S at hsize
  obtain ⟨fifo', hreach, hopen'⟩ := reaches_commit (t := wr) w [0] hsys
    (loopRules_lax w ns wr rd) (by rw [hsize]; exact hpos) hw
    (by omega) (by simp [hopen]) ⟨rfl, rfl⟩ (fun _ => trivial)
  have hy := hreach.sound hx
  have hlen' := hy.nbytes
  refine ⟨_, hreach, ⟨fifo', rfl⟩, hy, ?_, hopen'.trans hopen, hreads⟩
  change (x.sent ++ [0]).length = x.taken.length + fifo'.nbytes at hlen'
  change x.sent.length = x.taken.length + fifo.nbytes at hlen
  change fifo'.nbytes = b + 1
  rw [List.length_append, List.length_singleton] at hlen'
  omega

/-- Again and again, up to the last level at which the reservation is granted. -/
theorem Level.fill (ns : Nat → Nat) (wr rd : Tid) (h : Level S b i x) (hw : 0 < w) (hb : b ≤ c) (hc : c + w ≤ S + 1) :
    ∃ y, Reaches (LoopRules w ns wr rd) x y ∧ Level S c i y := by
  induction c, hb using Nat.le_induction with
  | base => exact ⟨x, .refl x, h⟩
  | succ c hb ih =>
    obtain ⟨y, hxy, hy⟩ := ih (by omega)
    obtain ⟨z, hyz, hz⟩ := hy.commit ns wr rd hw (by omega)
    exact ⟨z, hxy.trans hyz, hz⟩

/-- A read of all there is. -/
theorem Level.read (w : Nat) (wr rd : Tid) (h : Level S (ns i) i x) :
    ∃ y, Reaches (LoopRules w ns wr rd) x y ∧ Level S 0 (i + 1) y := by
  obtain ⟨⟨fifo, hsys⟩, hx, hn, hopen, hreads⟩ := h
  have hroom := hx.stored.room
  rw [hx.stored.size.symm, hsys] at hroom
  rw [hsys] at hn hopen
  change fifo.nbytes = ns i at hn
  change fifo.nbytes + fifo.nreserved ≤ fifo.size at hroom
  change fifo.closeIfEmpty = false at hopen
  obtain ⟨fifo', bs, hreach, hopen', hrest⟩ := reaches_read (t := rd) (n := ns i) hsys
    (loopRules_lax w ns wr rd) (by omega) (by omega) (by simp [hopen])
    ⟨rfl, by rw [hreads]⟩
  refine ⟨_, hreach, ⟨fifo', rfl⟩, hreach.sound hx, ?_, hopen'.trans hopen, by rw [← hreads]⟩
  change fifo'.nbytes = 0
  rw [hrest, hn, Nat.sub_self]

/-- So the `i`-th read is reached with the FIFO empty, -/
theorem reaches_level (wr rd : Tid) (hS : 0 < S) (hw : 0 < w) (h : ∀ j < i, w + ns j ≤ S + 1) :
    ∃ y, Reaches (LoopRules w ns wr rd) (Session.init (fun _ => 0) S) y ∧ Level S 0 i y := by
  induction i with
  | zero => exact ⟨_, .refl _, Level.init hS⟩
  | succ i ih =>
    obtain ⟨x, hr, hx⟩ := ih fun j hj => h j (hj.trans (Nat.lt_succ_self i))
    have hfit := h i (Nat.lt_succ_self i)
    obtain ⟨y, hxy, hy⟩ := hx.fill ns wr rd (c := ns i) hw
      (Nat.zero_le _) (by omega)
    obtain ⟨z, hyz, hz⟩ := hy.read w wr rd
    exact ⟨z, (hr.trans hxy).trans hyz, hz⟩

/-- Whatever the others do, with the locks free: a reservation that goes to sleep. -/
theorem reaches_reserveSleep {allowed : Session Tid → Note Tid → Prop} {n : Nat}
    (hlax : Lax allowed) (ht : x.sys.pc t = .idle) (hm : x.sys.mutex = none)
    (hwm : x.sys.writeMutex = none) (hn : n ≤ x.sys.fifo.size)
    (hfull : x.sys.fifo.size - x.sys.fifo.nbytes < n) (hopen : x.sys.fifo.closeIfEmpty = false)
    (hres : allowed x (.reserve t n)) :
    ∃ y, Reaches allowed x y ∧ y.sys.pc = Function.update x.sys.pc t (.reserveSleep n) := by
  have htest : Place.work x.sys.fifo (.reserveTest n) = some (x.sys.fifo, .reserveWait n) := by
    simp only [Place.work, fifoWriteReserve]
    rw [if_neg (by simp [hopen]), if_neg (by omega)]
  have hcall := (Reaches.refl x).step (ThreadStep.reserve n ht hn) hres
  have hlocked := (hcall.quiet hlax (ThreadStep.lockWrite n (Threads.goto_self ..) hwm)).quiet hlax
    (ThreadStep.lock (t := t) (.reserveTest n)
      (by rw [show Threads.pc _ t = _ from Threads.goto_self ..]; rfl) hm)
  have htested := hlocked.quiet hlax
    (ThreadStep.work (t := t) x.sys.fifo (.reserveWait n)
      (by rw [show Threads.pc _ t = _ from Threads.goto_self ..]; exact htest))
  have hasleep := htested.quiet hlax
    (ThreadStep.sleep (t := t) (.reserveSleep n)
      (by rw [show Threads.pc _ t = _ from Threads.goto_self ..]; rfl))
  refine ⟨_, hasleep, ?_⟩
  simp only [Session.after, Threads.goto, Function.update_idem]

/-- and with two requests that are too large together each thread waits for the
other: the reader for one byte more than the writer has room for. -/
theorem Level.deadlock (h : Level S (S + 1 - w) i x) (hne : wr ≠ rd) (hw : w ≤ S)
    (hn : ns i ≤ S) (hlarge : S + 1 < w + ns i) :
    ∃ y, Reaches (LoopRules w ns wr rd) x y ∧ Deadlocked wr rd y.sys := by
  obtain ⟨⟨fifo, hsys⟩, hx, hbytes, hopen, hreads⟩ := h
  have hsize := hx.stored.size
  rw [hsys] at hbytes hopen hsize
  change fifo.nbytes = S + 1 - w at hbytes
  change fifo.closeIfEmpty = false at hopen
  change fifo.size = S at hsize
  have hreader := reaches_readSleep (t := rd) (n := ns i) hsys
    (loopRules_lax w ns wr rd) (by omega) (by omega) (by simp [hopen]) ⟨rfl, by rw [hreads]⟩
  obtain ⟨y, hwriter, hpc⟩ := reaches_reserveSleep (t := wr)
    (n := w)
    (x := { x with sys := .solo fifo none none (some rd) rd (.readSleep (ns i)), reads := _ })
    (loopRules_lax w ns wr rd) (by simp [Threads.solo, hne]) rfl rfl
    (by change w ≤ fifo.size; omega) (by change fifo.size - fifo.nbytes < w; omega) hopen
    ⟨rfl, rfl⟩
  refine ⟨y, hreader.trans hwriter, ⟨w, ?_⟩, ns i, ?_⟩
  · rw [hpc, Function.update_self]
  · rw [hpc, Function.update_of_ne hne.symm]
    exact solo_pc ..

/-- So no read may be that large. -/
theorem le_of_deadlockFree (hne : wr ≠ rd) (hw : w ≤ S) (hns : ∀ i, ns i ≤ S)
    (h : DeadlockFree S w ns wr rd) : ∀ i, w + ns i ≤ S + 1 := by
  classical
  by_contra hbad
  -- the first read that is too large
  have hex : ∃ i, ¬ w + ns i ≤ S + 1 := not_forall.1 hbad
  have hlarge := not_le.1 (Nat.find_spec hex)
  have hn := hns (Nat.find hex)
  have hsmall : ∀ j < Nat.find hex, w + ns j ≤ S + 1 := fun j hj => not_not.1 (Nat.find_min hex hj)
  obtain ⟨x, hr, hx⟩ := reaches_level wr rd (by omega) (by omega) hsmall
  obtain ⟨y, hxy, hy⟩ := hx.fill ns wr rd (c := S + 1 - w) (w := w) (by omega)
    (Nat.zero_le _) (by omega)
  obtain ⟨z, hyz, hz⟩ := hy.deadlock hne hw hn hlarge
  obtain ⟨es, hrun⟩ := (hr.trans hxy).trans hyz
  exact h _ es z hrun hz

/-- The two threads cannot deadlock exactly where the reservation and every read
together exceed the FIFO by at most one byte. -/
theorem deadlockFree_iff (hne : wr ≠ rd) (hw : w ≤ S) (hns : ∀ i, ns i ≤ S) :
    DeadlockFree S w ns wr rd ↔ ∀ i, w + ns i ≤ S + 1 :=
  ⟨le_of_deadlockFree hne hw hns, deadlockFree_of_le hw⟩

/-- Reservations of two bytes and reads of three. -/
theorem deadlockFree_iff_run : DeadlockFree 4 2 (fun _ => 3) false true :=
  (deadlockFree_iff (by decide) (by decide) fun _ => by decide).2 fun _ => by decide

/-- One byte in a FIFO of four: a reservation of four and a read of two wait for
each other. -/
theorem full_reserve_deadlocks : ¬ DeadlockFree 4 4 (fun _ => 2) false true := by
  intro h
  have hfit := le_of_deadlockFree (by decide) (by decide) (fun _ => by decide) h 0
  exact absurd hfit (by decide)

end Stuck
end Noaaport.Fifo
