import Noaaport.Lib.Mutex
import Noaaport.ShmfifoRefinement

/-! `shmfifo.c` one semaphore call or memory access at a time: a writer looping
on `shmfifo_put` and a reader looping on `shmfifo_get`, in any interleaving. -/
namespace Noaaport.Shmfifo
open Lib

inductive Role where
  | writer
  | reader
  deriving DecidableEq

def Role.other : Role → Role
  | .writer => .reader
  | .reader => .writer

/-- Where `shmfifo_lock`, `shmfifo_unlock` or `shmfifo_notify` is called: in
`shmfifo_printmemstatus`, which `shmfifo_get` calls a second time in the locked
section, in `shmfifo_wait`, and by `shmfifo_put` and `shmfifo_get` themselves. -/
inductive Site where
  | statLock
  | statUnlock
  | lock
  | waitUnlock
  | waitLock
  | innerLock
  | innerUnlock
  | notify
  | unlock
  deriving DecidableEq

/-- The calls of `shmfifo_lock`, which begin with `checkUnlocked`; the others begin
with `checkLocked`. -/
def Site.locks : Site → Bool
  | .statLock | .lock | .waitLock | .innerLock => true
  | _ => false

/-- What a process does next: `getval`, `getpid` and `semop` are the three steps
of a call (`SETVAL` in `shmfifo_notify`), `size` to `body` the memory accesses. -/
inductive Pc where
  | idle
  | stat
  | getval (site : Site)
  | getpid (site : Site) (semval : Nat)
  | semop (site : Site)
  | size
  | test
  | asleep
  | header
  | check
  | body
  | innerStat

/-- How the caller goes on; only some look at the status. -/
def Site.next (p : Role) (ok : Bool) : Site → Pc
  | .statLock => .getval .statUnlock
  | .statUnlock => .getval .lock
  | .lock =>
    if ok then
      match p with
      | .writer => .size
      | .reader => .test
    else .idle
  | .waitUnlock => if ok then .asleep else .getval .unlock
  | .waitLock => if ok then .test else .getval .unlock
  | .innerLock => .getval .innerUnlock
  | .innerUnlock => .getval .notify
  | .notify => .getval .unlock
  | .unlock => .idle

/-- `lock` is the value of SI_LOCK and `pid` its last process, `note` the values of
SI_WRITER and SI_READER; the rest is the arguments of the two calls and the
reader's `header`. -/
structure Procs where
  seg : Segment
  lock : Nat
  pid : Option Role
  note : Role → Nat
  pc : Role → Pc
  data : List UInt8
  sz : Int
  header : Shmbh

def Procs.goto (s : Procs) (p : Role) (k : Pc) : Procs :=
  { s with pc := Function.update s.pc p k }

/-- What `checkUnlocked` and `checkLocked` say to a value and a pid. -/
def Site.passes (site : Site) (p : Role) (semval : Nat) (pid : Option Role) : Bool :=
  if site.locks then !(semval = 0 ∧ pid = some p) else semval = 0 ∧ pid = some p

section Work
variable (shm : Shmhandle) (s : Procs)

/-- The memory accesses of `shmfifo_put`, -/
def writerWork : Pc → Option Procs
  | .size =>
    if shmfifoLlMemused shm s.seg + shmfifoLlMemfree shm s.seg < s.data.length + sizeofShmbh then
      some (s.goto .writer (.getval .unlock))
    else some (s.goto .writer .test)
  | .test =>
    if shmfifoLlMemfree shm s.seg ≤ s.data.length + sizeofShmbh then
      some (s.goto .writer (.getval .waitUnlock))
    else some (s.goto .writer .header)
  | .header =>
    some { s.goto .writer .body with
      seg := (shmfifoLlPut shm s.seg (Shmbh.bytes s.data.length)).2 }
  | .body =>
    some { s.goto .writer (.getval .notify) with seg := (shmfifoLlPut shm s.seg s.data).2 }
  | _ => none

/-- and those of `shmfifo_get`. -/
def readerWork : Pc → Option Procs
  | .test =>
    if shmfifoLlMemused shm s.seg = 0 then some (s.goto .reader (.getval .waitUnlock))
    else if shmfifoLlMemused shm s.seg < sizeofShmbh then
      some (s.goto .reader (.getval .unlock))
    else some (s.goto .reader .header)
  | .header =>
    match shmfifoLlGet shm s.seg sizeofShmbh with
    | .abort => none
    | .ret _ hdr seg => some { s.goto .reader .check with seg, header := Shmbh.ofBytes hdr }
  | .check =>
    if s.header.canary ≠ deadbeef then some (s.goto .reader (.getval .unlock))
    else if shmfifoLlMemused shm s.seg < s.header.sz then
      some (s.goto .reader (.getval .unlock))
    else if s.header.sz > s.sz then
      some { s.goto .reader (.getval .unlock) with seg := shmfifoLlHrewind shm s.seg }
    else some (s.goto .reader .body)
  | .body =>
    match shmfifoLlGet shm s.seg s.header.sz with
    | .abort => none
    | .ret _ _ seg => some { s.goto .reader .innerStat with seg }
  | _ => none

def work : Role → Option Procs
  | .writer => writerWork shm s (s.pc .writer)
  | .reader => readerWork shm s (s.pc .reader)

end Work

/-- `inner` is the answer of `ulogIsDebug` in the locked section of `shmfifo_get`,
`error` a message of `checkUnlocked` or `checkLocked`. -/
inductive LockEvent where
  | quiet
  | inner (debug : Bool)
  | error (p : Role) (site : Site)

/-- A record of at least one byte, with its header less than the capacity. -/
def Fits (shm : Shmhandle) (data : List UInt8) : Prop :=
  data ≠ [] ∧ data.length + sizeofShmbh < shm.capacity

/-- One step of one of the two processes. Debug logging may be switched on and off
at any time. -/
inductive LockStep (shm : Shmhandle) (s : Procs) : LockEvent → Procs → Prop where
  | put (data : List UInt8) (hpc : s.pc .writer = .idle) (hfits : Fits shm data) :
      LockStep shm s .quiet { s.goto .writer .stat with data }
  | get (sz : Int) (hpc : s.pc .reader = .idle) (hsz : 0 < sz) :
      LockStep shm s .quiet { s.goto .reader .stat with sz }
  | stat (p : Role) (debug : Bool) (hpc : s.pc p = .stat) :
      LockStep shm s .quiet (s.goto p (.getval (if debug then .statLock else .lock)))
  | innerStat (p : Role) (debug : Bool) (hpc : s.pc p = .innerStat) :
      LockStep shm s (.inner debug) (s.goto p (.getval (if debug then .innerLock else .notify)))
  | getval (p : Role) (site : Site) (hpc : s.pc p = .getval site) :
      LockStep shm s .quiet (s.goto p (.getpid site s.lock))
  | getpid (p : Role) (site : Site) (semval : Nat) (hpc : s.pc p = .getpid site semval)
      (hok : site.passes p semval s.pid = true) :
      LockStep shm s .quiet (s.goto p (.semop site))
  | refused (p : Role) (site : Site) (semval : Nat) (hpc : s.pc p = .getpid site semval)
      (hbad : site.passes p semval s.pid = false) :
      LockStep shm s (.error p site) (s.goto p (site.next p false))
  | take (p : Role) (site : Site) (hpc : s.pc p = .semop site) (hsite : site.locks = true)
      (hfree : 0 < s.lock) :
      LockStep shm s .quiet
        { s.goto p (site.next p true) with lock := s.lock - 1, pid := some p }
  | give (p : Role) (site : Site) (hpc : s.pc p = .semop site) (hsite : site.locks = false)
      (hnote : site ≠ .notify) :
      LockStep shm s .quiet
        { s.goto p (site.next p true) with lock := s.lock + 1, pid := some p }
  | set (p : Role) (hpc : s.pc p = .semop .notify) :
      LockStep shm s .quiet
        { s.goto p (Site.notify.next p true) with note := Function.update s.note p.other 1 }
  | wake (p : Role) (hpc : s.pc p = .asleep) (hnote : 0 < s.note p) :
      LockStep shm s .quiet
        { s.goto p (.getval .waitLock) with note := Function.update s.note p (s.note p - 1) }
  | work (p : Role) (s' : Procs) (hwork : work shm s p = some s') : LockStep shm s .quiet s'

/-- As `shmfifo_create` leaves the segment and the semaphores, whoever made it. -/
def Procs.init (shm : Shmhandle) (mem : Mem UInt8) (counter : Int) (pid : Option Role) : Procs where
  seg := shmfifoCreate mem counter shm.sz shm.privsz
  lock := 1
  pid
  note := fun _ => 0
  pc := fun _ => .idle
  data := []
  sz := 0
  header := ⟨0, 0⟩

/-- Between a successful `shmfifo_lock` and the matching `shmfifo_unlock`. -/
def Site.inside : Site → Bool
  | .statUnlock | .waitUnlock | .innerLock | .innerUnlock | .notify | .unlock => true
  | _ => false

def Pc.Inside : Pc → Prop
  | .idle | .stat | .asleep => False
  | .getval site | .getpid site _ | .semop site => site.inside = true
  | _ => True

end Noaaport.Shmfifo
