import Mathlib.Logic.Function.Basic
import Noaaport.Lib.Ring
import Noaaport.Lib.Trace

/-! `fifo.c`: the in-memory FIFO between the reader threads and the product
maker. A critical section under `fifo->mutex` is one step; the two long-held
mutexes are their owners. Requests are offsets and lengths into `buf`. -/
namespace Noaaport
open Lib

structure Fifo where
  buf : Mem UInt8
  nextWrite : Nat
  nbytes : Nat
  nreserved : Nat
  size : Nat
  closeIfEmpty : Bool

namespace Fifo

/-- `initializeFifo`; the malloced bytes are whatever they were. -/
def initializeFifo (buf : Mem UInt8) (size : Nat) : Fifo :=
  { buf, nextWrite := 0, nbytes := 0, nreserved := 0, size, closeIfEmpty := false }

/-- One pass through the wait loop of `fifoWriteReserve`. -/
inductive ReservePass where
  | closed
  | granted (buf size : Nat) (fifo : Fifo)
  | wait

def fifoWriteReserve (fifo : Fifo) (nbytes : Nat) : ReservePass :=
  if fifo.closeIfEmpty ∧ fifo.nbytes = 0 then .closed
  else if nbytes ≤ fifo.size - fifo.nbytes then
    .granted fifo.nextWrite (fifo.size - fifo.nextWrite) { fifo with nreserved := nbytes }
  else .wait

/-- The common end of `fifoWriteUpdate` and `fifoCopy`. Unlocking the
error-checking write-mutex fails for a thread that does not own it. -/
def commit (fifo : Fifo) (nbytes : Nat) (owner : Bool) : Nat × Fifo :=
  (if owner then 0 else 1,
    { fifo with
      nextWrite := (fifo.nextWrite + nbytes) % fifo.size
      nbytes := fifo.nbytes + nbytes
      nreserved := 0 })

def fifoWriteUpdate (fifo : Fifo) (nbytes : Nat) (owner : Bool) : Nat × Fifo :=
  if nbytes > fifo.nreserved then (1, fifo) else commit fifo nbytes owner

def fifoCopy (fifo : Fifo) (bs : List UInt8) (owner : Bool) : Nat × Fifo :=
  let nbytes := bs.length
  if nbytes > fifo.nreserved then (1, fifo)
  else
    let avail := fifo.size - fifo.nextWrite
    let n := if avail < nbytes then avail else nbytes
    let buf := store fifo.buf fifo.nextWrite (bs.take n)
    let buf := if n < nbytes then store buf 0 (bs.drop n) else buf
    commit { fifo with buf } nbytes owner

/-- One pass through the wait loop of `fifoRead`, with the copy that ends it. -/
inductive ReadPass where
  | closed
  | ok (data : List UInt8) (fifo : Fifo)
  | wait

def fifoRead (fifo : Fifo) (nbytes : Nat) : ReadPass :=
  if fifo.closeIfEmpty ∧ fifo.nbytes = 0 then .closed
  else if nbytes ≤ fifo.nbytes then
    -- `nextRead` is signed: the difference is negative when the data wraps
    let nextRead : Int := (fifo.nextWrite : Int) - fifo.nbytes
    let nextRead := if 0 > nextRead then nextRead + fifo.size else nextRead
    let avail := fifo.size - nextRead.toNat
    let n := if avail < nbytes then avail else nbytes
    let data := load fifo.buf nextRead.toNat n
    let data := if n < nbytes then data ++ load fifo.buf 0 (nbytes - n) else data
    .ok data { fifo with nbytes := fifo.nbytes - nbytes }
  else .wait

/-- The `nbytes` bytes that end cyclically at `nextWrite`. -/
def unread (fifo : Fifo) : List UInt8 :=
  ringLoad fifo.buf 0 fifo.size ((fifo.nextWrite + fifo.size - fifo.nbytes) % fifo.size) fifo.nbytes

/-- The space behind them, `n` bytes from `nextWrite` on. -/
def space (fifo : Fifo) (n : Nat) : List UInt8 :=
  ringLoad fifo.buf 0 fifo.size fifo.nextWrite n

/-- Where a thread is. `reserved` remembers what `fifoWriteReserve` returned and
the reserved bytes as this thread has left them. -/
inductive Pc where
  | idle
  | reserving (n : Nat)
  | reserveWait (n : Nat)
  | reserved (n addr avail : Nat) (image : List UInt8)
  | reading (n : Nat)
  | readWait (n : Nat)
  deriving DecidableEq

structure Sys (Tid : Type*) where
  fifo : Fifo
  writeMutex : Option Tid
  readMutex : Option Tid
  pc : Tid → Pc

inductive Act where
  | reserve (n : Nat)
  | reservePass
  | fill (i : Nat) (b : UInt8)
  | update (k : Nat)
  | copy (bs : List UInt8)
  | read (n : Nat)
  | readPass
  | closeWhenEmpty
  | wake

/-- `pthread_cond_signal` and a spurious wake-up make a sleeper runnable. -/
def Pc.wakeReader : Pc → Pc
  | .readWait n => .reading n
  | c => c

def Pc.wakeWriter : Pc → Pc
  | .reserveWait n => .reserving n
  | c => c

section Step
variable {Tid : Type*} [DecidableEq Tid]

def Sys.goto (s : Sys Tid) (t : Tid) (c : Pc) : Sys Tid := { s with pc := Function.update s.pc t c }

/-- What the other threads may observe of a step. -/
inductive Event (Tid : Type*) where
  | quiet
  | grant (t : Tid) (n : Nat)
  | fill (t : Tid) (i : Nat) (b : UInt8)
  | update (t : Tid) (bs : List UInt8)
  | copy (t : Tid) (bs : List UInt8)
  | deliver (t : Tid) (n : Nat) (bs : List UInt8)

def Event.committed : Event Tid → List UInt8
  | .update _ bs | .copy _ bs => bs
  | _ => []

def Event.delivered : Event Tid → List UInt8
  | .deliver _ _ bs => bs
  | _ => []

/-- A successful commit signals the readers and releases the write-mutex. -/
def Sys.committed (s : Sys Tid) (t : Tid) (fifo : Fifo) : Sys Tid :=
  { s with fifo, writeMutex := none,
           pc := Function.update (fun u => (s.pc u).wakeReader) t .idle }

def Sys.delivered (s : Sys Tid) (t : Tid) (fifo : Fifo) : Sys Tid :=
  { s with fifo, readMutex := none,
           pc := Function.update (fun u => (s.pc u).wakeWriter) t .idle }

/-- One step of thread `t`: a critical section, an unlocked store into the
reserved space, or a change of a long-held mutex. `none`: not possible here. -/
def step (s : Sys Tid) (t : Tid) (a : Act) : Option (Event Tid × Sys Tid) :=
  match a, s.pc t with
  | .reserve n, .idle =>
    if n > s.fifo.size then some (.quiet, s)
    else if s.writeMutex = none then
      some (.quiet, { s.goto t (.reserving n) with writeMutex := some t })
    else none
  | .reservePass, .reserving n =>
    match fifoWriteReserve s.fifo n with
    | .closed => some (.quiet, { s.goto t .idle with writeMutex := none })
    | .granted addr avail fifo =>
      some (.grant t n, { s.goto t (.reserved n addr avail (s.fifo.space n)) with fifo })
    | .wait => some (.quiet, s.goto t (.reserveWait n))
  | .fill i b, .reserved n addr avail image =>
    if i < n ∧ n ≤ avail then
      some (.fill t i b,
        { s.goto t (.reserved n addr avail (image.set i b)) with
          fifo := { s.fifo with buf := store s.fifo.buf (addr + i) [b] } })
    else none
  | .update k, .reserved n _ _ image =>
    if k ≤ n then
      match fifoWriteUpdate s.fifo k (s.writeMutex = some t) with
      | (0, fifo) => some (.update t (image.take k), s.committed t fifo)
      | (_, fifo) => some (.quiet, { s with fifo })
    else none
  | .copy bs, .reserved n _ _ _ =>
    if bs.length ≤ n then
      match fifoCopy s.fifo bs (s.writeMutex = some t) with
      | (0, fifo) => some (.copy t bs, s.committed t fifo)
      | (_, fifo) => some (.quiet, { s with fifo })
    else none
  | .read n, .idle =>
    if n > s.fifo.size then some (.quiet, s)
    else if s.readMutex = none then
      some (.quiet, { s.goto t (.reading n) with readMutex := some t })
    else none
  | .readPass, .reading n =>
    match fifoRead s.fifo n with
    | .closed => some (.quiet, { s.goto t .idle with readMutex := none })
    | .ok data fifo => some (.deliver t n data, s.delivered t fifo)
    | .wait => some (.quiet, s.goto t (.readWait n))
  | .closeWhenEmpty, .idle =>
    some (.quiet, { s with fifo := { s.fifo with closeIfEmpty := true },
                           pc := fun u => (s.pc u).wakeWriter.wakeReader })
  | .wake, .reserveWait n => some (.quiet, s.goto t (.reserving n))
  | .wake, .readWait n => some (.quiet, s.goto t (.reading n))
  | _, _ => none

def Sys.init (buf : Mem UInt8) (size : Nat) : Sys Tid :=
  { fifo := initializeFifo buf size, writeMutex := none, readMutex := none, pc := fun _ => .idle }

def Step (s : Sys Tid) (e : Event Tid) (s' : Sys Tid) : Prop :=
  ∃ t a, step s t a = some (e, s')

end Step
end Fifo
end Noaaport
