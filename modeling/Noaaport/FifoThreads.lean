import Noaaport.FifoRefinement
import Noaaport.Lib.Mutex

/-! `fifo.c` one pthread call or memory access at a time, with any number of
threads that write, read and close. -/
namespace Noaaport.Fifo
open Lib

/-- The two ways to end a reservation: `fifoWriteUpdate` and `fifoCopy`. -/
inductive Commit where
  | update (nbytes : Nat)
  | copy (bs : List UInt8)

def Commit.nbytes : Commit → Nat
  | .update nbytes => nbytes
  | .copy bs => bs.length

/-- What `fifoCopy` does before its signal, -/
def copyIn (fifo : Fifo) (bs : List UInt8) : Fifo :=
  let nbytes := bs.length
  let avail := fifo.size - fifo.nextWrite
  let n := if avail < nbytes then avail else nbytes
  let buf := store fifo.buf fifo.nextWrite (bs.take n)
  { fifo with buf := if n < nbytes then store buf 0 (bs.drop n) else buf }

/-- and `fifoRead` after it. -/
def copyOut (fifo : Fifo) (nbytes : Nat) : List UInt8 × Fifo :=
  let nextRead : Int := (fifo.nextWrite : Int) - fifo.nbytes
  let nextRead := if 0 > nextRead then nextRead + fifo.size else nextRead
  let avail := fifo.size - nextRead.toNat
  let n := if avail < nbytes then avail else nbytes
  let data := load fifo.buf nextRead.toNat n
  (if n < nbytes then data ++ load fifo.buf 0 (nbytes - n) else data,
    { fifo with nbytes := fifo.nbytes - nbytes })

theorem fifoRead_steps (fifo : Fifo) (nbytes : Nat) :
    fifoRead fifo nbytes =
      if fifo.closeIfEmpty ∧ fifo.nbytes = 0 then .closed
      else if nbytes ≤ fifo.nbytes then .ok (copyOut fifo nbytes).1 (copyOut fifo nbytes).2
      else .wait := rfl

/-- What a thread does next. A reservation is its size and what `fifoWriteReserve`
returned; the result of a read is its data, or nothing for status 3. -/
inductive Place where
  | idle
  | wantWriter (n : Nat)
  | reserveLock (n : Nat)
  | reserveTest (n : Nat)
  | reserveWait (n : Nat)
  | reserveSleep (n : Nat)
  | reserveWoken (n : Nat)
  | reserveDone (n addr avail : Nat)
  | reserveClosed
  | reserveRelease
  | reserved (n addr avail : Nat)
  | commitLock (n addr avail : Nat) (c : Commit)
  | commitTest (n addr avail : Nat) (c : Commit)
  | commitRefused (n addr avail : Nat)
  | commitSignal (c : Commit)
  | commitStore (c : Commit)
  | commitRelease
  | commitUnlock
  | wantReader (n : Nat)
  | readLock (n : Nat)
  | readTest (n : Nat)
  | readWait (n : Nat)
  | readSleep (n : Nat)
  | readWoken (n : Nat)
  | readSignal (n : Nat)
  | readCopy (n : Nat)
  | readUnlock (r : Option (List UInt8))
  | readRelease (r : Option (List UInt8))
  | closeLock
  | closeSet
  | closeSignalWriter
  | closeSignalReader
  | closeUnlock

/-- `pthread_mutex_lock(&fifo->mutex)`, also at the end of `pthread_cond_wait`, -/
def Place.lock : Place → Option Place
  | .reserveLock n | .reserveWoken n => some (.reserveTest n)
  | .commitLock n addr avail c => some (.commitTest n addr avail c)
  | .readLock n | .readWoken n => some (.readTest n)
  | .closeLock => some .closeSet
  | _ => none

/-- `pthread_mutex_unlock(&fifo->mutex)`, -/
def Place.unlock : Place → Option Place
  | .reserveDone n addr avail | .commitRefused n addr avail => some (.reserved n addr avail)
  | .reserveClosed => some .reserveRelease
  | .readUnlock r => some (.readRelease r)
  | .commitUnlock | .closeUnlock => some .idle
  | _ => none

/-- the beginning of `pthread_cond_wait`, -/
def Place.sleep : Place → Option Place
  | .reserveWait n => some (.reserveSleep n)
  | .readWait n => some (.readSleep n)
  | _ => none

/-- and a wake-up. -/
def Place.wake : Place → Option Place
  | .reserveSleep n => some (.reserveWoken n)
  | .readSleep n => some (.readWoken n)
  | _ => none

inductive Cond where
  | writeCond
  | readCond
  deriving DecidableEq

def Place.sleepsOn : Place → Option Cond
  | .reserveSleep _ => some .writeCond
  | .readSleep _ => some .readCond
  | _ => none

def Place.signal : Place → Option (Cond × Place)
  | .commitSignal c => some (.readCond, .commitStore c)
  | .readSignal n => some (.writeCond, .readCopy n)
  | .closeSignalWriter => some (.writeCond, .closeSignalReader)
  | .closeSignalReader => some (.readCond, .closeUnlock)
  | _ => none

/-- What a thread does with the FIFO between two calls, holding the mutex. -/
def Place.work (fifo : Fifo) : Place → Option (Fifo × Place)
  | .reserveTest n =>
    match fifoWriteReserve fifo n with
    | .closed => some (fifo, .reserveClosed)
    | .granted addr avail fifo => some (fifo, .reserveDone n addr avail)
    | .wait => some (fifo, .reserveWait n)
  | .commitTest n addr avail c =>
    if c.nbytes > fifo.nreserved then some (fifo, .commitRefused n addr avail)
    else
      match c with
      | .update _ => some (fifo, .commitSignal c)
      | .copy bs => some (copyIn fifo bs, .commitSignal c)
  | .readTest n =>
    if fifo.closeIfEmpty ∧ fifo.nbytes = 0 then some (fifo, .readUnlock none)
    else if n ≤ fifo.nbytes then some (fifo, .readSignal n)
    else some (fifo, .readWait n)
  | .closeSet => some ({ fifo with closeIfEmpty := true }, .closeSignalWriter)
  | _ => none

structure Threads (Tid : Type*) where
  fifo : Fifo
  mutex : Option Tid
  writeMutex : Option Tid
  readMutex : Option Tid
  pc : Tid → Place

/-- Calls, the bytes a commit adds to the stream and a read takes from it, and the
results of reads. -/
inductive Note (Tid : Type*) where
  | quiet
  | reserve (t : Tid) (n : Nat)
  | read (t : Tid) (n : Nat)
  | close (t : Tid)
  | commit (t : Tid) (bs : List UInt8)
  | take (t : Tid) (bs : List UInt8)
  | result (t : Tid) (r : Option (List UInt8))

def Note.sent {Tid : Type*} : Note Tid → List UInt8
  | .commit _ bs => bs
  | _ => []

def Note.taken {Tid : Type*} : Note Tid → List UInt8
  | .take _ bs => bs
  | _ => []

section Step
variable {Tid : Type*} [DecidableEq Tid]

def Threads.goto (s : Threads Tid) (t : Tid) (k : Place) : Threads Tid :=
  { s with pc := Function.update s.pc t k }

/-- `pthread_cond_signal`: of the sleepers some wake up, and at least one if there
are any. -/
structure Signalled (cond : Cond) (pc pc' : Tid → Place) : Prop where
  only : ∀ u, pc' u = pc u ∨ (pc u).sleepsOn = some cond ∧ (pc u).wake = some (pc' u)
  one : (∃ u, (pc u).sleepsOn = some cond) → ∃ u, (pc u).sleepsOn = some cond ∧ pc' u ≠ pc u

/-- One step of thread `t`. A request that is larger than the FIFO is refused at
once. -/
inductive ThreadStep (s : Threads Tid) (t : Tid) : Note Tid → Threads Tid → Prop where
  | tooLarge (n : Nat) (hpc : s.pc t = .idle) (hn : s.fifo.size < n) : ThreadStep s t .quiet s
  | reserve (n : Nat) (hpc : s.pc t = .idle) (hn : n ≤ s.fifo.size) :
      ThreadStep s t (.reserve t n) (s.goto t (.wantWriter n))
  | read (n : Nat) (hpc : s.pc t = .idle) (hn : n ≤ s.fifo.size) :
      ThreadStep s t (.read t n) (s.goto t (.wantReader n))
  | close (hpc : s.pc t = .idle) : ThreadStep s t (.close t) (s.goto t .closeLock)
  | commit (n addr avail : Nat) (c : Commit) (hpc : s.pc t = .reserved n addr avail) :
      ThreadStep s t .quiet (s.goto t (.commitLock n addr avail c))
  | fill (n addr avail i : Nat) (b : UInt8) (hpc : s.pc t = .reserved n addr avail)
      (hi : i < n) (havail : i < avail) :
      ThreadStep s t .quiet
        { s with fifo := { s.fifo with buf := Lib.store s.fifo.buf (addr + i) [b] } }
  | lockWrite (n : Nat) (hpc : s.pc t = .wantWriter n) (hfree : s.writeMutex = none) :
      ThreadStep s t .quiet { s.goto t (.reserveLock n) with writeMutex := some t }
  | lockRead (n : Nat) (hpc : s.pc t = .wantReader n) (hfree : s.readMutex = none) :
      ThreadStep s t .quiet { s.goto t (.readLock n) with readMutex := some t }
  | lock (k : Place) (hpc : (s.pc t).lock = some k) (hfree : s.mutex = none) :
      ThreadStep s t .quiet { s.goto t k with mutex := some t }
  | unlock (k : Place) (hpc : (s.pc t).unlock = some k) :
      ThreadStep s t .quiet { s.goto t k with mutex := none }
  | sleep (k : Place) (hpc : (s.pc t).sleep = some k) :
      ThreadStep s t .quiet { s.goto t k with mutex := none }
  | wake (k : Place) (hpc : (s.pc t).wake = some k) : ThreadStep s t .quiet (s.goto t k)
  | signal (cond : Cond) (k : Place) (pc : Tid → Place) (hpc : (s.pc t).signal = some (cond, k))
      (hwoken : Signalled cond s.pc pc) :
      ThreadStep s t .quiet { s with pc := Function.update pc t k }
  | work (fifo : Fifo) (k : Place) (hpc : (s.pc t).work s.fifo = some (fifo, k)) :
      ThreadStep s t .quiet { s.goto t k with fifo }
  | store (c : Commit) (hpc : s.pc t = .commitStore c) :
      ThreadStep s t (.commit t (s.fifo.space c.nbytes))
        { s.goto t .commitRelease with fifo := (Fifo.commit s.fifo c.nbytes true).2 }
  | take (n : Nat) (hpc : s.pc t = .readCopy n) :
      ThreadStep s t (.take t (copyOut s.fifo n).1)
        { s.goto t (.readUnlock (some (copyOut s.fifo n).1)) with fifo := (copyOut s.fifo n).2 }
  | unlockWrite (hpc : s.pc t = .commitRelease) :
      ThreadStep s t .quiet { s.goto t .commitUnlock with writeMutex := none }
  | giveUp (hpc : s.pc t = .reserveRelease) :
      ThreadStep s t .quiet { s.goto t .idle with writeMutex := none }
  | unlockRead (r : Option (List UInt8)) (hpc : s.pc t = .readRelease r) :
      ThreadStep s t (.result t r) { s.goto t .idle with readMutex := none }

def Threads.init (buf : Mem UInt8) (size : Nat) : Threads Tid where
  fifo := initializeFifo buf size
  mutex := none
  writeMutex := none
  readMutex := none
  pc := fun _ => .idle

def ThreadsStep (s : Threads Tid) (e : Note Tid) (s' : Threads Tid) : Prop :=
  ∃ t, ThreadStep s t e s'

end Step
end Noaaport.Fifo
