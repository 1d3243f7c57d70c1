import Noaaport.FifoStream

/-! Threads that follow a discipline: a run of `fifo.c` with the stream it has carried
and the results of its reads. -/
namespace Noaaport.Fifo
open Lib

/-- `reads` calls of `fifoRead` have begun, and those that have returned gave
`results`. -/
structure Session (Tid : Type*) where
  sys : Threads Tid
  sent : List UInt8
  taken : List UInt8
  reads : Nat
  results : List (Option (List UInt8))
  closing : Bool

section Step
variable {Tid : Type*}

def Session.after (x : Session Tid) (e : Note Tid) (sys : Threads Tid) : Session Tid where
  sys
  sent := x.sent ++ e.sent
  taken := x.taken ++ e.taken
  reads :=
    match e with
    | .read _ _ => x.reads + 1
    | _ => x.reads
  results :=
    match e with
    | .result _ r => x.results ++ [r]
    | _ => x.results
  closing :=
    match e with
    | .close _ => true
    | _ => x.closing

variable [DecidableEq Tid]

def SessionStep (allowed : Session Tid → Note Tid → Prop) (x : Session Tid) (e : Note Tid)
    (y : Session Tid) : Prop :=
  ∃ sys, ThreadsStep x.sys e sys ∧ allowed x e ∧ y = x.after e sys

def Session.init (buf : Mem UInt8) (size : Nat) : Session Tid where
  sys := Threads.init buf size
  sent := []
  taken := []
  reads := 0
  results := []
  closing := false

end Step

variable {Tid : Type*} {x y z : Session Tid} {e : Note Tid} {S : Nat}
  {allowed : Session Tid → Note Tid → Prop} {t : Tid}

/-- What holds under every discipline. -/
structure Session.Sound (S : Nat) (x : Session Tid) : Prop where
  own : Own x.sys
  waiting : Waiting x.sys
  stored : Stored S x.sys x.sent x.taken

theorem Session.Sound.init (buf : Mem UInt8) (hS : 0 < S) :
    (Session.init buf S : Session Tid).Sound S :=
  ⟨Own.init buf S, Waiting.init buf S, Stored.init buf hS⟩

/-- The unread bytes are those sent and not taken. -/
theorem Session.Sound.nbytes (h : x.Sound S) :
    x.sent.length = x.taken.length + x.sys.fifo.nbytes := by
  rw [h.stored.stream, List.length_append, length_unread]

variable [DecidableEq Tid]

theorem Session.Sound.step (h : x.Sound S) (hs : SessionStep allowed x e y) : y.Sound S := by
  obtain ⟨sys, ⟨t, hs⟩, -, rfl⟩ := hs
  exact ⟨h.own.step hs, h.waiting.step h.own hs, h.stored.step h.own hs⟩

theorem Session.Sound.run {es : List (Note Tid)} (h : x.Sound S)
    (hr : Trace (SessionStep allowed) x es y) : y.Sound S :=
  hr.invariant (fun _ _ _ h hs => h.step hs) h

section Solo

/-- All threads idle, and all but `t`. -/
def Threads.calm (fifo : Fifo) : Threads Tid := ⟨fifo, none, none, none, fun _ => .idle⟩

def Threads.solo (fifo : Fifo) (m w r : Option Tid) (t : Tid) (k : Place) : Threads Tid :=
  ⟨fifo, m, w, r, Function.update (fun _ => .idle) t k⟩

variable {fifo : Fifo} {m w r : Option Tid} {k l : Place}

theorem solo_idle (fifo : Fifo) (t : Tid) :
    Threads.solo fifo none none none t .idle = Threads.calm fifo := by
  rw [Threads.solo, Threads.calm, Function.update_eq_self]

theorem solo_pc (fifo : Fifo) (m w r : Option Tid) (t : Tid) (k : Place) :
    (Threads.solo fifo m w r t k).pc t = k := by
  simp [Threads.solo]

theorem solo_goto (fifo : Fifo) (m w r : Option Tid) (t : Tid) (k k' : Place) :
    (Threads.solo fifo m w r t k).goto t k' = Threads.solo fifo m w r t k' := by
  rw [Threads.goto, Threads.solo, Threads.solo, Function.update_idem]

section Steps
variable {f : Fifo}

theorem solo_lock (hk : k.lock = some l) :
    ThreadStep (.solo fifo none w r t k) t .quiet (.solo fifo (some t) w r t l) := by
  have h := ThreadStep.lock (s := .solo fifo none w r t k) (t := t) l (by rwa [solo_pc]) rfl
  rw [solo_goto] at h
  exact h

theorem solo_unlock (hk : k.unlock = some l) :
    ThreadStep (.solo fifo m w r t k) t .quiet (.solo fifo none w r t l) := by
  have h := ThreadStep.unlock (s := .solo fifo m w r t k) (t := t) l (by rwa [solo_pc])
  rw [solo_goto] at h
  exact h

theorem solo_sleep (hk : k.sleep = some l) :
    ThreadStep (.solo fifo m w r t k) t .quiet (.solo fifo none w r t l) := by
  have h := ThreadStep.sleep (s := .solo fifo m w r t k) (t := t) l (by rwa [solo_pc])
  rw [solo_goto] at h
  exact h

theorem solo_work (hk : k.work fifo = some (f, l)) :
    ThreadStep (.solo fifo m w r t k) t .quiet (.solo f m w r t l) := by
  have h := ThreadStep.work (s := .solo fifo m w r t k) (t := t) f l
    (by rw [solo_pc]; exact hk)
  rw [solo_goto] at h
  exact h

/-- Nobody is asleep, so nobody wakes up. -/
theorem solo_signal {cond : Cond} (hk : k.signal = some (cond, l)) :
    ThreadStep (.solo fifo m w r t k) t .quiet (.solo fifo m w r t l) := by
  have hawake : ∀ u, ((Threads.solo fifo m w r t k).pc u).sleepsOn = none := by
    intro u
    by_cases hu : u = t
    · subst u
      rw [solo_pc]
      cases k <;> cases hk <;> rfl
    · simp [Threads.solo, hu, Place.sleepsOn]
  have h := ThreadStep.signal (s := .solo fifo m w r t k) (t := t) cond l
    (Threads.solo fifo m w r t k).pc (by rwa [solo_pc])
    ⟨fun _ => .inl rfl, fun ⟨u, hu⟩ => by rw [hawake u] at hu; cases hu⟩
  have hgoto := solo_goto fifo m w r t k l
  rw [Threads.goto] at hgoto
  rw [hgoto] at h
  exact h

theorem solo_lockWrite (n : Nat) :
    ThreadStep (.solo fifo m none r t (.wantWriter n)) t .quiet
      (.solo fifo m (some t) r t (.reserveLock n)) := by
  have h := ThreadStep.lockWrite (s := .solo fifo m none r t (.wantWriter n)) (t := t) n
    (by rw [solo_pc]) rfl
  rw [solo_goto] at h
  exact h

theorem solo_lockRead (n : Nat) :
    ThreadStep (.solo fifo m w none t (.wantReader n)) t .quiet
      (.solo fifo m w (some t) t (.readLock n)) := by
  have h := ThreadStep.lockRead (s := .solo fifo m w none t (.wantReader n)) (t := t) n
    (by rw [solo_pc]) rfl
  rw [solo_goto] at h
  exact h

theorem solo_reserve {n : Nat} (hn : n ≤ fifo.size) :
    ThreadStep (.calm fifo) t (.reserve t n) (.solo fifo none none none t (.wantWriter n)) := by
  have h := ThreadStep.reserve (s := .solo fifo none none none t .idle) (t := t) n
    (by rw [solo_pc]) hn
  rwa [solo_goto, solo_idle] at h

theorem solo_read {n : Nat} (hn : n ≤ fifo.size) :
    ThreadStep (.calm fifo) t (.read t n) (.solo fifo none none none t (.wantReader n)) := by
  have h := ThreadStep.read (s := .solo fifo none none none t .idle) (t := t) n
    (by rw [solo_pc]) hn
  rwa [solo_goto, solo_idle] at h

theorem solo_close :
    ThreadStep (.calm fifo) t (.close t) (.solo fifo none none none t .closeLock) := by
  have h := ThreadStep.close (s := .solo fifo none none none t .idle) (t := t) (by rw [solo_pc])
  rwa [solo_goto, solo_idle] at h

theorem solo_commit (n addr avail : Nat) (c : Commit) :
    ThreadStep (.solo fifo m w r t (.reserved n addr avail)) t .quiet
      (.solo fifo m w r t (.commitLock n addr avail c)) := by
  have h := ThreadStep.commit (s := .solo fifo m w r t (.reserved n addr avail)) (t := t) n addr
    avail c (by rw [solo_pc])
  rwa [solo_goto] at h

theorem solo_store (c : Commit) :
    ThreadStep (.solo fifo m w r t (.commitStore c)) t (.commit t (fifo.space c.nbytes))
      (.solo (Fifo.commit fifo c.nbytes true).2 m w r t .commitRelease) := by
  have h := ThreadStep.store (s := .solo fifo m w r t (.commitStore c)) (t := t) c
    (by rw [solo_pc])
  rw [solo_goto] at h
  exact h

theorem solo_unlockWrite :
    ThreadStep (.solo fifo m w r t .commitRelease) t .quiet
      (.solo fifo m none r t .commitUnlock) := by
  have h := ThreadStep.unlockWrite (s := .solo fifo m w r t .commitRelease) (t := t)
    (by rw [solo_pc])
  rw [solo_goto] at h
  exact h

theorem solo_take (n : Nat) :
    ThreadStep (.solo fifo m w r t (.readCopy n)) t (.take t (copyOut fifo n).1)
      (.solo (copyOut fifo n).2 m w r t (.readUnlock (some (copyOut fifo n).1))) := by
  have h := ThreadStep.take (s := .solo fifo m w r t (.readCopy n)) (t := t) n (by rw [solo_pc])
  rw [solo_goto] at h
  exact h

theorem solo_unlockRead (res : Option (List UInt8)) :
    ThreadStep (.solo fifo none none r t (.readRelease res)) t (.result t res)
      (.calm fifo) := by
  have h := ThreadStep.unlockRead (s := .solo fifo none none r t (.readRelease res)) (t := t) res
    (by rw [solo_pc])
  rw [solo_goto, ← solo_idle fifo t] at *
  exact h

end Steps

/-- A run under a discipline, whatever its events. -/
def Reaches (allowed : Session Tid → Note Tid → Prop) (x y : Session Tid) : Prop :=
  ∃ es, Trace (SessionStep allowed) x es y

theorem Reaches.refl (x : Session Tid) : Reaches allowed x x := ⟨[], .nil x⟩

theorem Reaches.trans (h : Reaches allowed x y) (h' : Reaches allowed y z) :
    Reaches allowed x z := by
  obtain ⟨es, h⟩ := h
  obtain ⟨fs, h'⟩ := h'
  exact ⟨es ++ fs, h.append h'⟩

theorem Reaches.step {sys : Threads Tid} (h : Reaches allowed x y)
    (hs : ThreadStep y.sys t e sys) (ha : allowed y e) : Reaches allowed x (y.after e sys) :=
  h.trans ⟨[e], .cons ⟨sys, ⟨t, hs⟩, ha, rfl⟩ (.nil _)⟩

/-- What no discipline forbids. -/
structure Lax (allowed : Session Tid → Note Tid → Prop) : Prop where
  quiet : ∀ x, allowed x .quiet
  take : ∀ x t bs, allowed x (.take t bs)
  result : ∀ x t r, allowed x (.result t r)

theorem Reaches.quiet {sys : Threads Tid} (h : Reaches allowed x y) (hlax : Lax allowed)
    (hs : ThreadStep y.sys t .quiet sys) : Reaches allowed x { y with sys } := by
  have hy := h.step hs (hlax.quiet y)
  simpa [Session.after, Note.sent, Note.taken] using hy

section Operations
variable {fifo : Fifo}

theorem space_copyIn (fifo : Fifo) (bs : List UInt8) (hpos : fifo.nextWrite < fifo.size)
    (hlen : bs.length ≤ fifo.size) : (copyIn fifo bs).space bs.length = bs := by
  have hload : ringLoad (splitStore fifo.buf 0 fifo.size fifo.nextWrite bs) 0 fifo.size
      fifo.nextWrite bs.length = bs := ringLoad_splitStore hpos hlen
  rw [copyIn_eq]
  exact hload

/-- The reservation, -/
theorem reaches_reserved (hx : x.sys = .calm fifo) (hlax : Lax allowed) {n : Nat}
    (hroom : fifo.nbytes + n ≤ fifo.size) (hopen : ¬ (fifo.closeIfEmpty ∧ fifo.nbytes = 0))
    (hres : allowed x (.reserve t n)) :
    Reaches allowed x
      { x with sys := .solo { fifo with nreserved := n } none (some t) none t
                  (.reserved n fifo.nextWrite (fifo.size - fifo.nextWrite)) } := by
  have hcall : Reaches allowed x
      { x with sys := .solo fifo none none none t (.wantWriter n) } := by
    have hstep := solo_reserve (t := t) (show n ≤ fifo.size by omega)
    rw [← hx] at hstep
    simpa [Session.after, Note.sent, Note.taken] using (Reaches.refl x).step hstep hres
  have htest : Place.work fifo (.reserveTest n) =
      some ({ fifo with nreserved := n },
        .reserveDone n fifo.nextWrite (fifo.size - fifo.nextWrite)) := by
    simp only [Place.work, fifoWriteReserve]
    rw [if_neg hopen, if_pos (by omega)]
  exact (((hcall.quiet hlax (solo_lockWrite n)).quiet hlax
    (solo_lock (l := .reserveTest n) rfl)).quiet hlax (solo_work htest)).quiet hlax
    (solo_unlock rfl)

/-- and the commit. -/
theorem reaches_committed {n addr avail : Nat}
    (bs : List UInt8) (hx : x.sys = .solo fifo none (some t) none t (.reserved n addr avail)) (hlax : Lax allowed)
    (hlen : bs.length ≤ fifo.nreserved)
    (hcom : ∀ sys, allowed { x with sys } (.commit t ((copyIn fifo bs).space bs.length))) :
    Reaches allowed x
      { x with sys := .calm (Fifo.commit (copyIn fifo bs) bs.length true).2
               sent := x.sent ++ (copyIn fifo bs).space bs.length } := by
  have htest : Place.work fifo (.commitTest n addr avail (.copy bs)) =
      some (copyIn fifo bs, .commitSignal (.copy bs)) := if_neg (not_lt.2 hlen)
  have hcall : ThreadStep (.solo fifo none (some t) none t (.reserved n addr avail)) t .quiet _ :=
    solo_commit n addr avail (.copy bs)
  rw [← hx] at hcall
  have hready := ((((Reaches.refl x).quiet hlax hcall).quiet hlax
    (solo_lock (l := .commitTest n addr avail (.copy bs)) rfl)).quiet hlax
    (solo_work htest)).quiet hlax (solo_signal (l := .commitStore (.copy bs)) rfl)
  have hstore := ((hready.step (solo_store (.copy bs)) (hcom _)).quiet hlax
    solo_unlockWrite).quiet hlax (solo_unlock (l := .idle) rfl)
  rw [solo_idle] at hstore
  simpa [Session.after, Note.sent, Note.taken, Commit.nbytes] using hstore

/-- A reservation of `n` bytes and a commit of `bs`. -/
theorem reaches_commit (n : Nat) (bs : List UInt8) (hx : x.sys = .calm fifo)
    (hlax : Lax allowed) (hpos : fifo.nextWrite < fifo.size) (hlen : bs.length ≤ n)
    (hroom : fifo.nbytes + n ≤ fifo.size)
    (hopen : ¬ (fifo.closeIfEmpty ∧ fifo.nbytes = 0)) (hres : allowed x (.reserve t n))
    (hcom : ∀ sys, allowed { x with sys } (.commit t bs)) :
    ∃ fifo', Reaches allowed x { x with sys := .calm fifo', sent := x.sent ++ bs } ∧
      fifo'.closeIfEmpty = fifo.closeIfEmpty := by
  have hspace : (copyIn { fifo with nreserved := n } bs).space bs.length = bs :=
    space_copyIn { fifo with nreserved := n } bs hpos (by
      change bs.length ≤ fifo.size
      omega)
  have hreserved := reaches_reserved hx hlax hroom hopen hres
  have hdone := reaches_committed bs
    (x := { x with
      sys := .solo { fifo with nreserved := n } none (some t) none t
        (.reserved n fifo.nextWrite (fifo.size - fifo.nextWrite)) }) rfl hlax hlen
    (fun sys => by rw [hspace]; exact hcom sys)
  rw [hspace] at hdone
  exact ⟨_, hreserved.trans hdone, rfl⟩

/-- The call of `fifoRead` and the way to its test. -/
theorem reaches_readTest (hx : x.sys = .calm fifo) (hlax : Lax allowed) {n : Nat}
    (hn : n ≤ fifo.size) (hread : allowed x (.read t n)) :
    Reaches allowed x
      { x with sys := .solo fifo (some t) none (some t) t (.readTest n), reads := x.reads + 1 } := by
  have hcall : Reaches allowed x
      { x with sys := .solo fifo none none none t (.wantReader n), reads := x.reads + 1 } := by
    have hstep := solo_read (t := t) hn
    rw [← hx] at hstep
    simpa [Session.after, Note.sent, Note.taken] using (Reaches.refl x).step hstep hread
  exact (hcall.quiet hlax (solo_lockRead n)).quiet hlax (solo_lock (l := .readTest n) rfl)

/-- A read with enough data, -/
theorem reaches_read (hx : x.sys = .calm fifo) (hlax : Lax allowed) {n : Nat}
    (hn : n ≤ fifo.size) (hdata : n ≤ fifo.nbytes)
    (hopen : ¬ (fifo.closeIfEmpty ∧ fifo.nbytes = 0)) (hread : allowed x (.read t n)) :
    ∃ fifo' bs, Reaches allowed x
        { x with sys := .calm fifo', taken := x.taken ++ bs, reads := x.reads + 1
                 results := x.results ++ [some bs] } ∧
      fifo'.closeIfEmpty = fifo.closeIfEmpty ∧ fifo'.nbytes = fifo.nbytes - n := by
  have htest : Place.work fifo (.readTest n) = some (fifo, .readSignal n) := by
    simp only [Place.work]
    rw [if_neg hopen, if_pos hdata]
  have hready := ((reaches_readTest hx hlax hn hread).quiet hlax (solo_work htest)).quiet hlax
    (solo_signal (l := .readCopy n) rfl)
  have htake := (hready.step (solo_take n) (hlax.take ..)).quiet hlax
    (solo_unlock (l := .readRelease (some (copyOut fifo n).1)) rfl)
  have hdone := htake.step (solo_unlockRead _) (hlax.result ..)
  refine ⟨(copyOut fifo n).2, (copyOut fifo n).1, ?_, rfl, rfl⟩
  simpa [Session.after, Note.sent, Note.taken] using hdone

/-- one on the FIFO that is closed and empty, -/
theorem reaches_readClosed (hx : x.sys = .calm fifo) (hlax : Lax allowed) {n : Nat}
    (hn : n ≤ fifo.size) (hclosed : fifo.closeIfEmpty ∧ fifo.nbytes = 0)
    (hread : allowed x (.read t n)) :
    Reaches allowed x { x with reads := x.reads + 1, results := x.results ++ [none] } := by
  have htest : Place.work fifo (.readTest n) = some (fifo, .readUnlock none) := by
    simp only [Place.work]
    rw [if_pos hclosed]
  have hready := ((reaches_readTest hx hlax hn hread).quiet hlax (solo_work htest)).quiet hlax
    (solo_unlock (l := .readRelease none) rfl)
  have hdone := hready.step (solo_unlockRead _) (hlax.result ..)
  rw [← hx] at hdone
  simpa [Session.after, Note.sent, Note.taken] using hdone

/-- and one that goes to sleep. -/
theorem reaches_readSleep (hx : x.sys = .calm fifo) (hlax : Lax allowed) {n : Nat}
    (hn : n ≤ fifo.size) (hdata : fifo.nbytes < n)
    (hopen : ¬ (fifo.closeIfEmpty ∧ fifo.nbytes = 0)) (hread : allowed x (.read t n)) :
    Reaches allowed x
      { x with sys := .solo fifo none none (some t) t (.readSleep n), reads := x.reads + 1 } := by
  have htest : Place.work fifo (.readTest n) = some (fifo, .readWait n) := by
    simp only [Place.work]
    rw [if_neg hopen, if_neg (not_le.2 hdata)]
  exact ((reaches_readTest hx hlax hn hread).quiet hlax (solo_work htest)).quiet hlax
    (solo_sleep (l := .readSleep n) rfl)

theorem reaches_close (hx : x.sys = .calm fifo) (hlax : Lax allowed)
    (hclose : allowed x (.close t)) :
    Reaches allowed x
      { x with sys := .calm { fifo with closeIfEmpty := true }, closing := true } := by
  have hcall : Reaches allowed x
      { x with sys := .solo fifo none none none t .closeLock, closing := true } := by
    have hstep : ThreadStep (.calm fifo) t (.close t) _ := solo_close
    rw [← hx] at hstep
    simpa [Session.after, Note.sent, Note.taken] using (Reaches.refl x).step hstep hclose
  have hdone := ((((hcall.quiet hlax (solo_lock (l := .closeSet) rfl)).quiet hlax
    (solo_work (f := { fifo with closeIfEmpty := true }) (l := .closeSignalWriter) rfl)).quiet
    hlax (solo_signal (l := .closeSignalReader) rfl)).quiet hlax
    (solo_signal (l := .closeUnlock) rfl)).quiet hlax (solo_unlock (l := .idle) rfl)
  rwa [solo_idle] at hdone

end Operations
end Solo
end Noaaport.Fifo
