import Noaaport.FifoWaking
import Noaaport.Ingester

/-! The shutdown of `noaaportIngester`, one pthread call at a time: the reader ends or is cancelled, and
`main`, which has waited for that, closes the FIFO behind it. -/
namespace Noaaport.Fifo
open Lib

/-- What a thread does in the calls it is in. -/
inductive Role where
  | writes
  | reads
  | closes
  deriving DecidableEq

def Place.role : Place → Option Role
  | .idle => none
  | .wantWriter _ | .reserveLock _ | .reserveTest _ | .reserveWait _ | .reserveSleep _ | .reserveWoken _ => some .writes
  | .reserveDone .. | .reserveClosed | .reserveRelease | .reserved .. => some .writes
  | .commitLock .. | .commitTest .. | .commitRefused .. | .commitSignal _ | .commitStore _ => some .writes
  | .commitRelease | .commitUnlock => some .writes
  | .wantReader _ | .readLock _ | .readTest _ | .readWait _ | .readSleep _ | .readWoken _ => some .reads
  | .readSignal _ | .readCopy _ | .readUnlock _ | .readRelease _ => some .reads
  | .closeLock | .closeSet | .closeSignalWriter | .closeSignalReader | .closeUnlock => some .closes

/-- The call that a note is the beginning of. -/
def Note.call {Tid : Type*} : Note Tid → Option (Tid × Role)
  | .reserve t _ => some (t, .writes)
  | .read t _ => some (t, .reads)
  | .close t => some (t, .closes)
  | _ => none

section Roles
variable {Tid : Type*} {s s' : Threads Tid} {t u : Tid} {k k' : Place} {e : Note Tid} {fifo fifo' : Fifo}

/-- A thread stays in its call, or leaves it. -/
def Place.Within (k k' : Place) : Prop := k'.role = none ∨ k'.role = k.role

/-- What a place is asked for tells it from one that has none of it. -/
theorem Place.ne_of_none {α : Type} {f : Place → Option α} {x : α} (h : f k = some x) (hnone : f k' = none) :
    k ≠ k' := by
  intro hk
  rw [hk, hnone] at h
  cases h

theorem Place.lock_within (h : k.lock = some k') : k.Within k' := by
  cases k <;> cases h <;> exact .inr rfl

theorem Place.unlock_within (h : k.unlock = some k') : k.Within k' := by
  cases k <;> cases h <;> first | exact .inl rfl | exact .inr rfl

theorem Place.sleep_within (h : k.sleep = some k') : k.Within k' := by
  cases k <;> cases h <;> exact .inr rfl

theorem Place.wake_within (h : k.wake = some k') : k.Within k' := by
  cases k <;> cases h <;> exact .inr rfl

theorem Place.signal_within {cond : Cond} (h : k.signal = some (cond, k')) : k.Within k' := by
  cases k <;> cases h <;> exact .inr rfl

theorem Place.work_within (h : k.work fifo = some (fifo', k')) : k.Within k' := by
  cases k <;> simp only [Place.work, reduceCtorEq] at h
  case reserveTest n => split at h <;> cases h <;> exact .inr rfl
  case commitTest n addr avail c =>
    split at h
    · cases h
      exact .inr rfl
    · split at h <;> cases h <;> exact .inr rfl
  case readTest n => split_ifs at h <;> cases h <;> exact .inr rfl
  case closeSet =>
    cases h
    exact .inr rfl

/-- The work between two calls leaves the close flag, but for that of `fifoCloseWhenEmpty`. -/
theorem Place.work_flag (h : k.work fifo = some (fifo', k')) :
    (k = .closeSet ∧ k' = .closeSignalWriter ∧ fifo'.closeIfEmpty = true) ∨
      (k ≠ .closeSet ∧ fifo'.closeIfEmpty = fifo.closeIfEmpty) := by
  cases k <;> simp only [Place.work, reduceCtorEq] at h
  case reserveTest n =>
    refine .inr ⟨by simp, ?_⟩
    split at h
    · cases h
      rfl
    · next hr =>
      cases h
      unfold fifoWriteReserve at hr
      split_ifs at hr
      cases hr
      rfl
    · cases h
      rfl
  case commitTest n addr avail c =>
    refine .inr ⟨by simp, ?_⟩
    split at h
    · cases h
      rfl
    · split at h <;> cases h <;> rfl
  case readTest n =>
    refine .inr ⟨by simp, ?_⟩
    split_ifs at h <;> cases h <;> rfl
  case closeSet =>
    cases h
    exact .inl ⟨rfl, rfl, rfl⟩

theorem Signalled.within {cond : Cond} {pc : Tid → Place} (h : Signalled cond s.pc pc) (u : Tid) :
    (s.pc u).Within (pc u) := by
  obtain hu | ⟨-, hu⟩ := h.only u
  · rw [hu]
    exact .inr rfl
  · exact Place.wake_within hu

variable [DecidableEq Tid]

theorem within_update (h : (s.pc t).Within k) (u : Tid) : (s.pc u).Within (Function.update s.pc t k u) := by
  by_cases hu : u = t
  · subst u
    rwa [Function.update_self]
  · rw [Function.update_of_ne hu]
    exact .inr rfl

/-- A thread stays in its call or leaves it, unless it begins one. -/
theorem step_within (h : ThreadStep s t e s') (u : Tid) :
    (s.pc u).Within (s'.pc u) ∨ ∃ r, e.call = some (u, r) ∧ (s'.pc u).role = some r := by
  cases h with
  | tooLarge n hpc hn => exact .inl (.inr rfl)
  | reserve n hpc hn =>
    by_cases hu : u = t
    · subst u
      exact .inr ⟨.writes, rfl, by rw [Threads.goto_self]; rfl⟩
    · rw [Threads.goto_of_ne s _ hu]
      exact .inl (.inr rfl)
  | read n hpc hn =>
    by_cases hu : u = t
    · subst u
      exact .inr ⟨.reads, rfl, by rw [Threads.goto_self]; rfl⟩
    · rw [Threads.goto_of_ne s _ hu]
      exact .inl (.inr rfl)
  | close hpc =>
    by_cases hu : u = t
    · subst u
      exact .inr ⟨.closes, rfl, by rw [Threads.goto_self]; rfl⟩
    · rw [Threads.goto_of_ne s _ hu]
      exact .inl (.inr rfl)
  | commit n addr avail c hpc => exact .inl (within_update (by rw [hpc]; exact .inr rfl) u)
  | fill n addr avail i b hpc hi havail => exact .inl (.inr rfl)
  | lockWrite n hpc hfree => exact .inl (within_update (by rw [hpc]; exact .inr rfl) u)
  | lockRead n hpc hfree => exact .inl (within_update (by rw [hpc]; exact .inr rfl) u)
  | lock k hpc hfree => exact .inl (within_update (Place.lock_within hpc) u)
  | unlock k hpc => exact .inl (within_update (Place.unlock_within hpc) u)
  | sleep k hpc => exact .inl (within_update (Place.sleep_within hpc) u)
  | wake k hpc => exact .inl (within_update (Place.wake_within hpc) u)
  | signal cond k pc hpc hwoken =>
    refine .inl ?_
    change (s.pc u).Within (Function.update pc t k u)
    by_cases hu : u = t
    · subst hu
      rw [Function.update_self]
      exact Place.signal_within hpc
    · rw [Function.update_of_ne hu]
      exact hwoken.within u
  | work fifo k hpc => exact .inl (within_update (Place.work_within hpc) u)
  | store c hpc => exact .inl (within_update (by rw [hpc]; exact .inr rfl) u)
  | take n hpc => exact .inl (within_update (by rw [hpc]; exact .inr rfl) u)
  | unlockWrite hpc => exact .inl (within_update (by rw [hpc]; exact .inr rfl) u)
  | giveUp hpc => exact .inl (within_update (.inl rfl) u)
  | unlockRead r hpc => exact .inl (within_update (.inl rfl) u)

/-- A thread that neither sleeps nor steps stays where it is. -/
theorem step_awake (h : ThreadStep s t e s') (hu : u ≠ t) (hawake : (s.pc u).sleepsOn = none) :
    s'.pc u = s.pc u := by
  cases h with
  | tooLarge n hpc hn => rfl
  | fill n addr avail i b hpc hi havail => rfl
  | signal cond k pc hpc hwoken =>
    change Function.update pc t k u = s.pc u
    rw [Function.update_of_ne hu]
    obtain hsame | ⟨hsleeps, -⟩ := hwoken.only u
    · exact hsame
    · rw [hawake] at hsleeps
      cases hsleeps
  | _ => exact Function.update_of_ne hu ..

/-- The close flag is set in `fifoCloseWhenEmpty` and never taken back. -/
theorem step_flag (h : ThreadStep s t e s') :
    (s.pc t = .closeSet ∧ s'.pc t = .closeSignalWriter ∧ s'.fifo.closeIfEmpty = true) ∨
      (s.pc t ≠ .closeSet ∧ s'.fifo.closeIfEmpty = s.fifo.closeIfEmpty) := by
  have hne : ∀ {k : Place}, s.pc t = k → k ≠ .closeSet → s.pc t ≠ .closeSet := fun h hk => h ▸ hk
  cases h with
  | work fifo k hpc =>
    obtain ⟨hset, rfl, hflag⟩ | hother := Place.work_flag hpc
    · exact .inl ⟨hset, Threads.goto_self .., hflag⟩
    · exact .inr hother
  | lock k hpc hfree => exact .inr ⟨Place.ne_of_none hpc rfl, rfl⟩
  | unlock k hpc => exact .inr ⟨Place.ne_of_none hpc rfl, rfl⟩
  | sleep k hpc => exact .inr ⟨Place.ne_of_none hpc rfl, rfl⟩
  | wake k hpc => exact .inr ⟨Place.ne_of_none hpc rfl, rfl⟩
  | signal cond k pc hpc hwoken => exact .inr ⟨Place.ne_of_none hpc rfl, rfl⟩
  | tooLarge n hpc hn => exact .inr ⟨hne hpc (by simp), rfl⟩
  | reserve n hpc hn => exact .inr ⟨hne hpc (by simp), rfl⟩
  | read n hpc hn => exact .inr ⟨hne hpc (by simp), rfl⟩
  | close hpc => exact .inr ⟨hne hpc (by simp), rfl⟩
  | commit n addr avail c hpc => exact .inr ⟨hne hpc (by simp), rfl⟩
  | fill n addr avail i b hpc hi havail => exact .inr ⟨hne hpc (by simp), rfl⟩
  | lockWrite n hpc hfree => exact .inr ⟨hne hpc (by simp), rfl⟩
  | lockRead n hpc hfree => exact .inr ⟨hne hpc (by simp), rfl⟩
  | store c hpc => exact .inr ⟨hne hpc (by simp), rfl⟩
  | take n hpc => exact .inr ⟨hne hpc (by simp), rfl⟩
  | unlockWrite hpc => exact .inr ⟨hne hpc (by simp), rfl⟩
  | giveUp hpc => exact .inr ⟨hne hpc (by simp), rfl⟩
  | unlockRead r hpc => exact .inr ⟨hne hpc (by simp), rfl⟩

/-- While another thread has the mutex, a thread takes nothing, and the mutex stays. -/
theorem step_locked_out (ho : Own s) (hm : s.mutex = some u) (hu : t ≠ u) (h : ThreadStep s t e s') :
    s'.mutex = some u ∧ e.taken = [] ∧ s.pc t ≠ .closeSet := by
  have hout : ¬ (s.pc t).InMutex := by
    intro hin
    exact hu (Option.some.inj (((ho.mutex t).1 hin).symm.trans hm))
  have hset : s.pc t ≠ .closeSet := by
    intro hk
    exact hout (by rw [hk]; trivial)
  refine ⟨?_, ?_, hset⟩
  · cases h with
    | lock k hpc hfree =>
      rw [hm] at hfree
      cases hfree
    | unlock k hpc => exact absurd (Place.unlock_spec hpc).1 hout
    | sleep k hpc => exact absurd (Place.sleep_spec hpc).1 hout
    | _ => exact hm
  · cases h with
    | take n hpc => exact absurd (show (s.pc t).InMutex by rw [hpc]; trivial) hout
    | _ => rfl

end Roles
end Noaaport.Fifo

namespace Noaaport.Shutdown
open Lib Fifo
open Ingester (Thread)

/-- The threads around the FIFO, and whether the reader's is over. -/
structure Sys where
  threads : Threads Thread
  ended : Bool

inductive Act where
  | call (t : Thread) (e : Note Thread)
  | finish
  | cancelReading
  | cancelWaiting

/-- What a thread calls: the reader `fifoWriteReserve` and the two commits, the product maker `fifoRead`
and `main` `fifoCloseWhenEmpty`. -/
def duty : Thread → Role
  | .reader => .writes
  | .maker => .reads
  | .main => .closes

/-- `readerStart` returns behind a call that failed or a `read` that ended. A `SIGTERM` ends the reader
in `read`, or in `pthread_cond_wait` of `fifoWriteReserve`: there the thread gets the mutex of the FIFO
back before it ends, and nobody unlocks it. `main` joins the reader before it closes the FIFO. -/
inductive Step (x : Sys) : Act → Sys → Prop where
  | call {t : Thread} {e : Note Thread} {s : Threads Thread} (h : ThreadStep x.threads t e s)
      (hcall : ∀ u r, e.call = some (u, r) → r = duty u) (hreader : t = .reader → x.ended = false)
      (hmain : e = .close .main → x.ended = true) : Step x (.call t e) { x with threads := s }
  | finish (hpc : x.threads.pc .reader = .idle ∨ ∃ n addr avail, x.threads.pc .reader = .reserved n addr avail)
      (hend : x.ended = false) : Step x .finish { x with ended := true }
  | cancelReading (n addr avail : Nat) (hpc : x.threads.pc .reader = .reserved n addr avail)
      (hend : x.ended = false) : Step x .cancelReading { x with ended := true }
  | cancelWaiting (n : Nat)
      (hpc : x.threads.pc .reader = .reserveSleep n ∨ x.threads.pc .reader = .reserveWoken n)
      (hfree : x.threads.mutex = none) (hend : x.ended = false) :
      Step x .cancelWaiting
        { threads := { x.threads.goto .reader (.reserveTest n) with mutex := some .reader }, ended := true }

def Sys.init (buf : Mem UInt8) (size : Nat) : Sys := ⟨Threads.init buf size, false⟩

/-- What the product maker takes out of the FIFO. -/
def taken (acts : List Act) : List UInt8 :=
  acts.flatMap fun
    | .call _ e => e.taken
    | _ => []

section Invariant
variable {c : Prop} {x y : Sys} {a : Act} {acts : List Act} {s s' : Threads Thread} {t : Thread} {e : Note Thread}

/-- Behind the assignment of `fifoCloseWhenEmpty`. -/
def Past (k : Place) : Prop := k = .closeSignalWriter ∨ k = .closeSignalReader ∨ k = .closeUnlock

/-- Where the reader's thread is over, but was not cancelled while it waited. -/
def Left (k : Place) : Prop := k = .idle ∨ ∃ n addr avail, k = .reserved n addr avail

/-- What holds in every run; `c` says that the reader was cancelled while it waited. -/
structure Shut (c : Prop) (x : Sys) : Prop where
  own : Own x.threads
  roles : ∀ t r, (x.threads.pc t).role = some r → r = duty t
  before : x.ended = false → x.threads.pc .main = .idle ∧ x.threads.fifo.closeIfEmpty = false ∧ ¬ c
  left : x.ended = true → ¬ c → Left (x.threads.pc .reader)
  locked : c → x.threads.mutex = some .reader ∧ x.threads.fifo.closeIfEmpty = false
  past : Past (x.threads.pc .main) → x.threads.fifo.closeIfEmpty = true

theorem Shut.init (buf : Mem UInt8) (size : Nat) : Shut False (Sys.init buf size) where
  own := Own.init buf size
  roles t r h := by cases h
  before _ := ⟨rfl, rfl, not_false⟩
  left h := by cases h
  locked h := h.elim
  past h := by
    rcases h with h | h | h <;> cases h

theorem Left.awake {k : Place} (h : Left k) : k.sleepsOn = none ∧ ¬ k.InMutex := by
  obtain rfl | ⟨n, addr, avail, rfl⟩ := h <;> exact ⟨rfl, not_false⟩

theorem duty_inj {t u : Thread} (h : duty t = duty u) : t = u := by
  cases t <;> cases u <;> first | rfl | cases h

/-- Only `main` closes. -/
theorem Shut.closer (h : Shut c x) (hset : x.threads.pc t = .closeSet) : t = .main :=
  duty_inj (h.roles t .closes (by rw [hset]; rfl)).symm

theorem Shut.mainAwake (h : Shut c x) : (x.threads.pc .main).sleepsOn = none := by
  have hrole := h.roles .main
  cases hk : x.threads.pc .main <;> rw [hk] at hrole <;> first | rfl | cases hrole _ rfl

/-- A thread that is in no call begins one, or stays as it is. -/
theorem idle_step (h : ThreadStep s t e s') (hpc : s.pc t = .idle) :
    s' = s ∨ ∃ r, e.call = some (t, r) := by
  cases h with
  | tooLarge n _ hn => exact .inl rfl
  | reserve n _ hn => exact .inr ⟨_, rfl⟩
  | read n _ hn => exact .inr ⟨_, rfl⟩
  | close _ => exact .inr ⟨_, rfl⟩
  | lock k hk hfree => exact absurd hpc (Place.ne_of_none hk rfl)
  | unlock k hk => exact absurd hpc (Place.ne_of_none hk rfl)
  | sleep k hk => exact absurd hpc (Place.ne_of_none hk rfl)
  | wake k hk => exact absurd hpc (Place.ne_of_none hk rfl)
  | signal cond k pc hk hwoken => exact absurd hpc (Place.ne_of_none hk rfl)
  | work fifo k hk => exact absurd hpc (Place.ne_of_none hk rfl)
  | _ => simp_all

theorem Past.inside {k : Place} (h : Past k) : k.role = some .closes ∧ k.InMutex := by
  obtain rfl | rfl | rfl := h <;> exact ⟨rfl, trivial⟩

/-- No place behind the assignment is come to with a mutex or a condition variable. -/
theorem not_past {k k' : Place}
    (h : k.lock = some k' ∨ k.unlock = some k' ∨ k.sleep = some k' ∨ k.wake = some k') : ¬ Past k' := by
  rcases h with h | h | h | h <;> cases k <;> cases h <;> simp [Past]

/-- The places behind the assignment are come to one after the other. -/
theorem past_step (h : ThreadStep s t e s') (hpast : Past (s'.pc t)) :
    Past (s.pc t) ∨ s.pc t = .closeSet := by
  have hgoto : ∀ {k : Place}, s'.pc = (s.goto t k).pc → Past k := by
    intro k hpc
    rwa [hpc, Threads.goto_self] at hpast
  cases h with
  | tooLarge n hpc hn => exact .inl hpast
  | fill n addr avail i b hpc hi havail => exact .inl hpast
  | lock k hpc hfree => exact absurd (hgoto rfl) (not_past (.inl hpc))
  | unlock k hpc => exact absurd (hgoto rfl) (not_past (.inr (.inl hpc)))
  | sleep k hpc => exact absurd (hgoto rfl) (not_past (.inr (.inr (.inl hpc))))
  | wake k hpc => exact absurd (hgoto rfl) (not_past (.inr (.inr (.inr hpc))))
  | signal cond k pc hpc hwoken =>
    change Past (Function.update pc t k t) at hpast
    rw [Function.update_self] at hpast
    obtain ⟨c, hk, -, rfl⟩ | ⟨n, hk, -, rfl⟩ | ⟨hk, -, rfl⟩ | ⟨hk, -, rfl⟩ := Place.signal_cases hpc
    · simp [Past] at hpast
    · simp [Past] at hpast
    · exact .inl (.inl hk)
    · exact .inl (.inr (.inl hk))
  | work fifo k hpc =>
    have hk := hgoto rfl
    obtain ⟨hset, -, -⟩ | ⟨hset, -⟩ := Place.work_flag hpc
    · exact .inr hset
    · obtain ⟨hclose, -⟩ := Past.inside hk
      have hwithin := Place.work_within hpc
      rw [Place.Within, hclose] at hwithin
      obtain hnone | hsame := hwithin
      · cases hnone
      · cases hp : s.pc t <;> rw [hp] at hsame hpc hset <;> simp_all [Place.role, Place.work]
  | _ =>
    have hk := hgoto rfl
    simp [Past] at hk

theorem Shut.call (h : Shut c x) (hs : ThreadStep x.threads t e s)
    (hcall : ∀ u r, e.call = some (u, r) → r = duty u) (hreader : t = .reader → x.ended = false)
    (hmain : e = .close .main → x.ended = true) : Shut c { x with threads := s } where
  own := h.own.step hs
  roles u r hr := by
    obtain hwithin | ⟨r', hbegins, hr'⟩ := step_within hs u
    · obtain hnone | hsame := hwithin
      · rw [hnone] at hr
        cases hr
      · exact h.roles u r (hsame ▸ hr)
    · cases hr.symm.trans hr'
      exact hcall u r hbegins
  before hend := by
    obtain ⟨hidle, hflag, hc⟩ := h.before hend
    have hset : x.threads.pc t ≠ .closeSet := by
      intro hset
      rw [h.closer hset, hidle] at hset
      cases hset
    have hopen := (step_flag hs).resolve_left fun hclosed => hset hclosed.1
    refine ⟨?_, hopen.2.trans hflag, hc⟩
    by_cases ht : t = .main
    · subst ht
      obtain rfl | ⟨r, hbegins⟩ := idle_step hs hidle
      · exact hidle
      · have hr := hcall _ _ hbegins
        subst hr
        have hclose : e = .close .main := by
          cases e <;> cases hbegins
          rfl
        have hended := hmain hclose
        rw [show x.ended = false from hend] at hended
        cases hended
    · exact (step_awake hs (Ne.symm ht) (by rw [hidle]; rfl)).trans hidle
  left hend hc := by
    have hleft := h.left hend hc
    have ht : t ≠ .reader := by
      intro ht
      have hended := hreader ht
      rw [show x.ended = true from hend] at hended
      cases hended
    rw [step_awake hs (Ne.symm ht) hleft.awake.1]
    exact hleft
  locked hc := by
    obtain ⟨hmutex, hflag⟩ := h.locked hc
    have ht : t ≠ .reader := fun ht => (h.before (hreader ht)).2.2 hc
    obtain ⟨hstays, -, hset⟩ := step_locked_out h.own hmutex ht hs
    exact ⟨hstays, ((step_flag hs).resolve_left fun hclosed => hset hclosed.1).2.trans hflag⟩
  past hpast := by
    by_cases ht : t = .main
    · subst ht
      obtain ⟨-, -, hset⟩ | ⟨hset, hsame⟩ := step_flag hs
      · exact hset
      · exact hsame.trans (h.past ((past_step hs hpast).resolve_right hset))
    · have hset : x.threads.pc t ≠ .closeSet := fun hset => ht (h.closer hset)
      have hopen := (step_flag hs).resolve_left fun hclosed => hset hclosed.1
      rw [step_awake hs (Ne.symm ht) h.mainAwake] at hpast
      exact hopen.2.trans (h.past hpast)

/-- The reader ends where it is. -/
theorem Shut.ends (h : Shut c x) (hleft : Left (x.threads.pc .reader)) :
    Shut c { x with ended := true } where
  own := h.own
  roles := h.roles
  before hx := by cases hx
  left _ _ := hleft
  locked := h.locked
  past := h.past

/-- The reader ends with the mutex. -/
theorem Shut.cancelled {n : Nat} (h : Shut c x) (hend : x.ended = false) (hfree : x.threads.mutex = none)
    (hpc : x.threads.pc .reader = .reserveSleep n ∨ x.threads.pc .reader = .reserveWoken n) :
    Shut True
      { threads := { x.threads.goto .reader (.reserveTest n) with mutex := some .reader }, ended := true } where
  own := by
    have hm := h.own.mutex
    rw [hfree] at hm
    refine ⟨hm.enter trivial, h.own.writer.stay ?_, h.own.reader.stay ?_⟩
    · rcases hpc with hpc | hpc <;> rw [hpc] <;> exact Iff.rfl
    · rcases hpc with hpc | hpc <;> rw [hpc] <;> exact Iff.rfl
  roles u r hr := by
    by_cases hu : u = .reader
    · subst hu
      change ((x.threads.goto .reader (.reserveTest n)).pc .reader).role = some r at hr
      rw [Threads.goto_self] at hr
      cases hr
      rfl
    · change ((x.threads.goto .reader (.reserveTest n)).pc u).role = some r at hr
      rw [Threads.goto_of_ne _ _ hu] at hr
      exact h.roles u r hr
  before hx := by cases hx
  left _ hc := absurd trivial hc
  locked _ := ⟨rfl, (h.before hend).2.1⟩
  past hpast := by
    change Past ((x.threads.goto .reader (.reserveTest n)).pc .main) at hpast
    rw [Threads.goto_of_ne _ _ (by decide), (h.before hend).1] at hpast
    rcases hpast with hk | hk | hk <;> cases hk

theorem Shut.step (h : Shut c x) (hs : Step x a y) : Shut (c ∨ a = .cancelWaiting) y := by
  have hkeep : a ≠ .cancelWaiting → Shut c y → Shut (c ∨ a = .cancelWaiting) y := by
    intro ha hy
    rwa [eq_false ha, or_false]
  cases hs with
  | call hs hcall hreader hmain => exact hkeep (by simp) (h.call hs hcall hreader hmain)
  | finish hpc hend => exact hkeep (by simp) (h.ends hpc)
  | cancelReading n addr avail hpc hend => exact hkeep (by simp) (h.ends (.inr ⟨n, addr, avail, hpc⟩))
  | cancelWaiting n hpc hfree hend =>
    rw [eq_self, or_true]
    exact h.cancelled hend hfree hpc

theorem Shut.run (h : Shut c x) (ht : Trace Step x acts y) : Shut (c ∨ .cancelWaiting ∈ acts) y := by
  induction ht generalizing c with
  | nil x => simpa using h
  | @cons x y z a acts hs _ ih =>
    have hz := ih (h.step hs)
    rwa [or_assoc, show (a = .cancelWaiting ∨ .cancelWaiting ∈ acts) = (.cancelWaiting ∈ a :: acts) by
      rw [List.mem_cons, eq_comm (a := a)]] at hz

end Invariant

section Closing
variable {x y : Sys} {acts : List Act} {s : Threads Thread} {e : Note Thread} {n : Nat}

/-- `main` waits for the mutex of the FIFO, and the reader is not in its way. -/
structure Parked (x : Sys) : Prop where
  ended : x.ended = true
  reader : Left (x.threads.pc .reader)
  main : x.threads.pc .main = .closeLock

/-- The product maker comes to give the mutex back. -/
def GetsOut (x : Sys) : Prop :=
  ∃ acts y, Trace Step x acts y ∧ y.threads.mutex = none ∧ Parked y

theorem maker_step (h : ThreadStep x.threads .maker e s) (he : e.call = none) :
    Step x (.call .maker e) { x with threads := s } := by
  refine .call h (fun u r hcall => ?_) (fun ht => by cases ht) fun hclose => ?_
  · rw [he] at hcall
    cases hcall
  · rw [hclose] at he
    cases he

theorem GetsOut.before (h : ThreadStep x.threads .maker e s) (he : e.call = none)
    (hy : GetsOut { x with threads := s }) : GetsOut x := by
  obtain ⟨acts, y, ht, hmutex, hparked⟩ := hy
  exact ⟨_, y, .cons (maker_step h he) ht, hmutex, hparked⟩

/-- What the product maker does to itself leaves `main` and the reader. -/
theorem Parked.goto {k : Place} (h : Parked x) (fifo : Fifo) (mutex : Option Thread) :
    Parked { x with threads := { x.threads.goto .maker k with fifo, mutex } } where
  ended := h.ended
  reader := by
    change Left ((x.threads.goto .maker k).pc .reader)
    rw [Threads.goto_of_ne _ _ (by decide)]
    exact h.reader
  main := by
    change (x.threads.goto .maker k).pc .main = .closeLock
    rw [Threads.goto_of_ne _ _ (by decide)]
    exact h.main

theorem Parked.unlocks {r : Option (List UInt8)} (h : Parked x) (hpc : x.threads.pc .maker = .readUnlock r) :
    GetsOut x := by
  have hstep : ThreadStep x.threads .maker .quiet { x.threads.goto .maker (.readRelease r) with mutex := none } :=
    .unlock _ (by rw [hpc]; rfl)
  exact .before hstep rfl ⟨[], _, .nil _, rfl, h.goto x.threads.fifo none⟩

theorem Parked.copies (h : Parked x) (hpc : x.threads.pc .maker = .readCopy n) : GetsOut x := by
  refine .before (.take n hpc) rfl ?_
  exact Parked.unlocks (h.goto (copyOut x.threads.fifo n).2 x.threads.mutex) (Threads.goto_self x.threads .maker _)

/-- Nobody sleeps whom the signal could wake up. -/
theorem Parked.signals (h : Parked x) (hpc : x.threads.pc .maker = .readSignal n) : GetsOut x := by
  have hnobody : Signalled .writeCond x.threads.pc x.threads.pc := by
    refine ⟨fun u => .inl rfl, fun hsleeps => ?_⟩
    obtain ⟨u, hu⟩ := hsleeps
    cases u with
    | main =>
      rw [h.main] at hu
      cases hu
    | reader =>
      rw [h.reader.awake.1] at hu
      cases hu
    | maker =>
      rw [hpc] at hu
      cases hu
  refine .before (.signal .writeCond (.readCopy n) x.threads.pc (by rw [hpc]; rfl) hnobody) rfl ?_
  exact Parked.copies (h.goto x.threads.fifo x.threads.mutex) (Threads.goto_self ..)

theorem Parked.sleeps (h : Parked x) (hpc : x.threads.pc .maker = .readWait n) : GetsOut x := by
  have hstep : ThreadStep x.threads .maker .quiet { x.threads.goto .maker (.readSleep n) with mutex := none } :=
    .sleep _ (by rw [hpc]; rfl)
  exact .before hstep rfl ⟨[], _, .nil _, rfl, h.goto x.threads.fifo none⟩

theorem Parked.tests (h : Parked x) (hpc : x.threads.pc .maker = .readTest n) : GetsOut x := by
  have hwork : ∀ {k : Place}, (x.threads.pc .maker).work x.threads.fifo = some (x.threads.fifo, k) →
      GetsOut { x with threads := { x.threads.goto .maker k with fifo := x.threads.fifo } } → GetsOut x :=
    fun hk hy => .before (.work _ _ hk) rfl hy
  by_cases hclosed : x.threads.fifo.closeIfEmpty ∧ x.threads.fifo.nbytes = 0
  · refine hwork (k := .readUnlock none) (by rw [hpc, Place.work, if_pos hclosed]) ?_
    exact Parked.unlocks (h.goto x.threads.fifo x.threads.mutex) (Threads.goto_self ..)
  · by_cases hdata : n ≤ x.threads.fifo.nbytes
    · refine hwork (k := .readSignal n) (by rw [hpc, Place.work, if_neg hclosed, if_pos hdata]) ?_
      exact Parked.signals (h.goto x.threads.fifo x.threads.mutex) (Threads.goto_self ..)
    · refine hwork (k := .readWait n) (by rw [hpc, Place.work, if_neg hclosed, if_neg hdata]) ?_
      exact Parked.sleeps (h.goto x.threads.fifo x.threads.mutex) (Threads.goto_self ..)

/-- Only the product maker can have the mutex, and it gives it back. -/
theorem Shut.getsOut (h : Shut False x) (hparked : Parked x) : GetsOut x := by
  cases hm : x.threads.mutex with
  | none => exact ⟨[], x, .nil x, hm, hparked⟩
  | some t =>
    have hin : (x.threads.pc t).InMutex := (h.own.mutex t).2 hm
    cases t with
    | main =>
      rw [hparked.main] at hin
      exact hin.elim
    | reader => exact absurd hin hparked.reader.awake.2
    | maker =>
      have hrole := h.roles .maker
      cases hpc : x.threads.pc .maker <;> rw [hpc] at hin hrole <;>
        first | exact hin.elim | cases hrole _ rfl
      · exact hparked.tests hpc
      · exact hparked.sleeps hpc
      · exact hparked.signals hpc
      · exact hparked.copies hpc
      · exact hparked.unlocks hpc

theorem main_step (hend : x.ended = true) (h : ThreadStep x.threads .main e s)
    (hcall : e.call = none ∨ e = .close .main) : Step x (.call .main e) { x with threads := s } := by
  refine .call h (fun u r hbegins => ?_) (fun ht => by cases ht) fun _ => hend
  obtain hnone | rfl := hcall
  · rw [hnone] at hbegins
    cases hbegins
  · cases hbegins
    rfl

/-- The FIFO comes to be closed. -/
def Closes (x : Sys) : Prop := ∃ acts y, Trace Step x acts y ∧ y.threads.fifo.closeIfEmpty = true

theorem Closes.before (h : Trace Step x acts y) (hy : Closes y) : Closes x := by
  obtain ⟨acts', z, hz, hflag⟩ := hy
  exact ⟨acts ++ acts', z, h.append hz, hflag⟩

theorem sets (hend : x.ended = true) (hpc : x.threads.pc .main = .closeSet) : Closes x := by
  have hwork : (x.threads.pc .main).work x.threads.fifo =
      some ({ x.threads.fifo with closeIfEmpty := true }, .closeSignalWriter) := by rw [hpc]; rfl
  exact ⟨_, _, .cons (main_step hend (.work _ _ hwork) (.inl rfl)) (.nil _), rfl⟩

theorem Shut.locks (h : Shut False x) (hparked : Parked x) : Closes x := by
  obtain ⟨acts, y, ht, hmutex, hy⟩ := h.getsOut hparked
  have hlock : ThreadStep y.threads .main .quiet { y.threads.goto .main .closeSet with mutex := some .main } :=
    .lock _ (by rw [hy.main]; rfl) hmutex
  refine .before ht (.before (.cons (main_step hy.ended hlock (.inl rfl)) (.nil _)) ?_)
  exact sets hy.ended (Threads.goto_self y.threads .main .closeSet)

/-- Behind a reader that has ended without the mutex `main` comes to close the FIFO. -/
theorem Shut.closes (h : Shut False x) (hend : x.ended = true) : Closes x := by
  have hleft := h.left hend not_false
  have hrole := h.roles .main
  cases hpc : x.threads.pc .main <;> rw [hpc] at hrole <;> first | cases hrole _ rfl | skip
  case idle =>
    refine .before (.cons (main_step hend (.close hpc) (.inr rfl)) (.nil _)) (Shut.locks ?_ ?_)
    · exact h.call (.close hpc) (fun u r hcall => by cases hcall; rfl) (fun ht => by cases ht) fun _ => hend
    · refine ⟨hend, ?_, Threads.goto_self ..⟩
      change Left ((x.threads.goto .main .closeLock).pc .reader)
      rw [Threads.goto_of_ne _ _ (by decide)]
      exact hleft
  case closeLock => exact h.locks ⟨hend, hleft, hpc⟩
  case closeSet => exact sets hend hpc
  case closeSignalWriter => exact ⟨[], x, .nil x, h.past (.inl hpc)⟩
  case closeSignalReader => exact ⟨[], x, .nil x, h.past (.inr (.inl hpc))⟩
  case closeUnlock => exact ⟨[], x, .nil x, h.past (.inr (.inr hpc))⟩

end Closing

section Result
variable {x y : Sys} {acts acts' : List Act}

/-- Nothing is taken where the mutex is lost. -/
theorem Shut.takes_nothing (h : Shut True x) (ht : Trace Step x acts y) : taken acts = [] := by
  induction ht with
  | nil x => rfl
  | @cons x y z a acts hs _ ih =>
    have hy : Shut True y := by simpa using h.step hs
    have hrest := ih hy
    have hfirst : taken [a] = [] := by
      cases hs with
      | @call t e s hs hcall hreader hmain =>
        have hreaders : t ≠ .reader := fun ht => (h.before (hreader ht)).2.2 trivial
        have htaken := (step_locked_out h.own (h.locked trivial).1 hreaders hs).2.1
        simp [taken, htaken]
      | _ => rfl
    rw [show taken (a :: acts) = taken [a] ++ taken acts by simp [taken], hfirst, hrest]
    rfl

/-- Once the reader has ended, the mutex of the FIFO is lost with it exactly if it was cancelled while
it waited for room; exactly if it was not, `main` can come to close the FIFO; and if it was, the mutex
stays locked in every run, and nothing is taken any more. -/
theorem ingester_shutdown (buf : Mem UInt8) (size : Nat) (h : Trace Step (Sys.init buf size) acts x)
    (hend : x.ended = true) :
    (.cancelWaiting ∈ acts ↔ x.threads.mutex = some .reader) ∧
      (.cancelWaiting ∉ acts ↔
        ∃ acts' y, Trace Step x acts' y ∧ y.threads.fifo.closeIfEmpty = true) ∧
      (.cancelWaiting ∈ acts → ∀ acts' y, Trace Step x acts' y →
        y.threads.mutex = some .reader ∧ y.threads.fifo.closeIfEmpty = false ∧ taken acts' = []) := by
  have hshut := (Shut.init buf size).run h
  rw [false_or] at hshut
  by_cases hc : .cancelWaiting ∈ acts
  · rw [eq_true hc] at hshut
    have hlost : ∀ acts' y, Trace Step x acts' y →
        y.threads.mutex = some .reader ∧ y.threads.fifo.closeIfEmpty = false ∧ taken acts' = [] := by
      intro acts' y ht
      have hy := hshut.run ht
      rw [true_or] at hy
      exact ⟨(hy.locked trivial).1, (hy.locked trivial).2, hshut.takes_nothing ht⟩
    refine ⟨iff_of_true hc (hshut.locked trivial).1, iff_of_false (not_not.2 hc) ?_, fun _ => hlost⟩
    intro hcloses
    obtain ⟨acts', y, ht, hflag⟩ := hcloses
    rw [(hlost acts' y ht).2.1] at hflag
    cases hflag
  · rw [eq_false hc] at hshut
    refine ⟨iff_of_false hc ?_, iff_of_true hc (hshut.closes hend), fun hin => absurd hin hc⟩
    intro hmutex
    exact (hshut.left hend not_false).awake.2 ((hshut.own.mutex .reader).2 hmutex)

theorem reader_step {s : Threads Thread} {e : Note Thread} (h : ThreadStep x.threads .reader e s)
    (hend : x.ended = false) (hcall : ∀ u r, e.call = some (u, r) → r = duty u) (hmain : e ≠ .close .main) :
    Step x (.call .reader e) { x with threads := s } :=
  .call h hcall (fun _ => hend) fun hclose => absurd hclose hmain

/-- The reader fills a FIFO of two bytes, and is cancelled as it waits for room for two more. -/
theorem ingester_shutdown_run : ∃ acts x, Trace Step (Sys.init (fun _ => 0) 2) acts x ∧
    x.threads.fifo.nbytes = 2 ∧ x.threads.mutex = some .reader ∧
    ∀ acts' y, Trace Step x acts' y → taken acts' = [] := by
  have hnobody : ∀ pc : Thread → Place, (∀ u, (pc u).sleepsOn = none) → Signalled .readCond pc pc := by
    intro pc hawake
    refine ⟨fun u => .inl rfl, fun hsleeps => ?_⟩
    obtain ⟨u, hu⟩ := hsleeps
    rw [hawake u] at hu
    cases hu
  have hquiet : ∀ {x : Sys} {s : Threads Thread}, ThreadStep x.threads .reader .quiet s → x.ended = false →
      Step x (.call .reader .quiet) { x with threads := s } :=
    fun h hend => reader_step h hend (fun u r hcall => by cases hcall) (by simp)
  have hreserve : ∀ {x : Sys} {s : Threads Thread} {n : Nat}, ThreadStep x.threads .reader (.reserve .reader n) s →
      x.ended = false → Step x (.call .reader (.reserve .reader n)) { x with threads := s } :=
    fun h hend => reader_step h hend (fun u r hcall => by cases hcall; rfl) (by simp)
  have h : ∃ acts x, Trace Step (Sys.init (fun _ => 0) 2) acts x ∧ .cancelWaiting ∈ acts ∧ x.ended = true ∧
      x.threads.fifo.nbytes = 2 := by
    refine ⟨_, _, .cons (hreserve (.reserve 2 rfl (by decide)) rfl) <| .cons (hquiet (.lockWrite 2 rfl rfl) rfl) <|
      .cons (hquiet (.lock (.reserveTest 2) rfl rfl) rfl) <| .cons (hquiet (.work _ (.reserveDone 2 0 2) rfl) rfl) <|
      .cons (hquiet (.unlock (.reserved 2 0 2) rfl) rfl) <|
      .cons (hquiet (.commit 2 0 2 (.update 2) rfl) rfl) <|
      .cons (hquiet (.lock (.commitTest 2 0 2 (.update 2)) rfl rfl) rfl) <|
      .cons (hquiet (.work _ (.commitSignal (.update 2)) rfl) rfl) <|
      .cons (hquiet (.signal .readCond (.commitStore (.update 2)) _ rfl (hnobody _ ?_)) rfl) <|
      .cons (reader_step (.store (.update 2) rfl) rfl (fun u r hcall => by cases hcall) (by simp)) <|
      .cons (hquiet (.unlockWrite rfl) rfl) <| .cons (hquiet (.unlock .idle rfl) rfl) <|
      .cons (hreserve (.reserve 2 rfl (by decide)) rfl) <| .cons (hquiet (.lockWrite 2 rfl rfl) rfl) <|
      .cons (hquiet (.lock (.reserveTest 2) rfl rfl) rfl) <| .cons (hquiet (.work _ (.reserveWait 2) rfl) rfl) <|
      .cons (hquiet (.sleep (.reserveSleep 2) rfl) rfl) <|
      .cons (.cancelWaiting 2 (.inl rfl) rfl rfl) <| .nil _, by simp, rfl, rfl⟩
    intro u
    cases u <;> rfl
  obtain ⟨acts, x, h, hcancelled, hend, hfull⟩ := h
  obtain ⟨hmutex, -, hlost⟩ := ingester_shutdown _ _ h hend
  exact ⟨acts, x, h, hfull, hmutex.1 hcancelled, fun acts' y ht => (hlost hcancelled acts' y ht).2.2⟩

end Result
end Noaaport.Shutdown
