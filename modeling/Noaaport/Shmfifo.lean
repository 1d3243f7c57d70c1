import Noaaport.Lib.Ring
import Noaaport.Lib.Trace

/-! `shmfifo.c`: the shared-memory FIFO between `dvbs_multicast` and
`readnoaaport`. What a process does under the semaphore lock, from taking it to
giving it up or waiting, is one step. C `int`s are integers here. -/
namespace Noaaport.Shmfifo
open Lib

def sizeofShmprefix : Int := 20
def sizeofShmbh : Int := 8

def EIO : Int := 5
def E2BIG : Int := 7
def EINVAL : Int := 22

structure Shmprefix where
  counter : Int
  read : Int
  write : Int
  sz : Int
  privsz : Int

structure Shmhandle where
  privsz : Int
  sz : Int

/-- The attached segment: the prefix by name, every other byte by its offset. -/
structure Segment where
  p : Shmprefix
  mem : Mem UInt8

/-- The least offset of a record byte. -/
def Shmhandle.low (shm : Shmhandle) : Int := sizeofShmprefix + shm.privsz
def Shmhandle.capacity (shm : Shmhandle) : Int := shm.sz - shm.low

def shmfifoCreate (mem : Mem UInt8) (counter shmSize privsz : Int) : Segment where
  p :=
    { counter, read := sizeofShmprefix + privsz, write := sizeofShmprefix + privsz
      sz := shmSize, privsz }
  mem := store mem sizeofShmprefix.toNat (List.replicate privsz.toNat 0)

def shmfifoLlMemfree (shm : Shmhandle) (s : Segment) : Int :=
  if s.p.write ≥ s.p.read then
    (shm.sz - s.p.write) + (s.p.read - sizeofShmprefix - shm.privsz)
  else s.p.read - s.p.write

def shmfifoLlMemused (shm : Shmhandle) (s : Segment) : Int :=
  if s.p.write ≥ s.p.read then s.p.write - s.p.read
  else (shm.sz - sizeofShmprefix - shm.privsz - s.p.read) + s.p.write

def shmfifoLlHrewind (shm : Shmhandle) (s : Segment) : Segment :=
  let read := s.p.read - sizeofShmbh
  let read :=
    if read < sizeofShmprefix + shm.privsz then
      shm.sz + read - sizeofShmprefix - shm.privsz
    else read
  { s with p := { s.p with read } }

def shmfifoLlPut (shm : Shmhandle) (s : Segment) (data : List UInt8) : Int × Segment :=
  let sz : Int := data.length
  if shmfifoLlMemfree shm s < sz then (-1, s)
  else
    let copysz := shm.sz - s.p.write
    let copysz := if copysz > sz then sz else copysz
    let mem := store s.mem s.p.write.toNat (data.take copysz.toNat)
    let write := s.p.write + copysz
    let write := if write = shm.sz then shm.privsz + sizeofShmprefix else write
    let p := { s.p with counter := s.p.counter + 1 }
    if copysz < sz then
      (sz, { p := { p with write := write + (sz - copysz) }
             mem := store mem write.toNat (data.drop copysz.toNat) })
    else (sz, { p := { p with write }, mem })

/-- `abort` is the sanity check; `-1` leaves the caller's buffer alone. -/
inductive LlGet where
  | abort
  | ret (status : Int) (data : List UInt8) (s : Segment)

def shmfifoLlGet (shm : Shmhandle) (s : Segment) (sz : Int) : LlGet :=
  let s := { s with p := { s.p with counter := s.p.counter + 1 } }
  if sz ≤ 0 then .abort
  else if shmfifoLlMemused shm s < sz then .ret (-1) [] s
  else
    let copysz := if s.p.write > s.p.read then s.p.write - s.p.read else shm.sz - s.p.read
    let copysz := if copysz > sz then sz else copysz
    let data := load s.mem s.p.read.toNat copysz.toNat
    let read := s.p.read + copysz
    let read := if read = shm.sz then shm.privsz + sizeofShmprefix else read
    if copysz < sz then
      .ret sz (data ++ load s.mem read.toNat (sz - copysz).toNat)
        { s with p := { s.p with read := read + (sz - copysz) } }
    else .ret sz data { s with p := { s.p with read } }

/-- `struct shmbh`, copied in and out in host byte order. -/
def le32 (n : Nat) : List UInt8 :=
  [UInt8.ofNat n, UInt8.ofNat (n / 256), UInt8.ofNat (n / 256 / 256),
    UInt8.ofNat (n / 256 / 256 / 256)]

def ofLe : List UInt8 → Nat
  | [] => 0
  | b :: bs => b.toNat + 256 * ofLe bs

structure Shmbh where
  sz : Int
  canary : Nat

def deadbeef : Nat := 0xDEADBEEF

def Shmbh.bytes (sz : Nat) : List UInt8 := le32 sz ++ le32 deadbeef

def Shmbh.ofBytes (bs : List UInt8) : Shmbh where
  sz :=
    let n := ofLe (bs.take 4)
    if n < 2 ^ 31 then n else (n : Int) - 2 ^ 32
  canary := ofLe (bs.drop 4)

/-- One pass of `shmfifo_get` under the lock. `status` is the variable of that
name when the lock is given up; `data` the bytes put into the caller's buffer,
with `*nbytes` their number. -/
inductive GetPass where
  | wait
  | abort
  | ret (status : Int) (data : Option (List UInt8)) (s : Segment)

def shmfifoGet (shm : Shmhandle) (s : Segment) (sz : Int) : GetPass :=
  if shmfifoLlMemused shm s = 0 then .wait
  else if shmfifoLlMemused shm s < sizeofShmbh then .ret EINVAL none s
  else
    match shmfifoLlGet shm s sizeofShmbh with
    | .abort => .abort
    | .ret _ hdr s =>
      let header := Shmbh.ofBytes hdr
      if header.canary ≠ deadbeef then .ret EIO none s
      else if shmfifoLlMemused shm s < header.sz then .ret EIO none s
      else if header.sz > sz then .ret EINVAL none (shmfifoLlHrewind shm s)
      else
        match shmfifoLlGet shm s header.sz with
        | .abort => .abort
        | .ret _ data s => .ret 0 (some data) s

/-- The same for `shmfifo_put`, which looks at the capacity only once. -/
inductive PutPass where
  | wait
  | ret (status : Int) (s : Segment)

def putRetry (shm : Shmhandle) (s : Segment) (data : List UInt8) : PutPass :=
  if shmfifoLlMemfree shm s ≤ data.length + sizeofShmbh then .wait
  else
    let s := (shmfifoLlPut shm s (Shmbh.bytes data.length)).2
    .ret 0 (shmfifoLlPut shm s data).2

def shmfifoPut (shm : Shmhandle) (s : Segment) (data : List UInt8) : PutPass :=
  if shmfifoLlMemused shm s + shmfifoLlMemfree shm s < data.length + sizeofShmbh then
    .ret E2BIG s
  else putRetry shm s data

/-- The writer and the reader, each between calls or waiting inside one. -/
structure Sys where
  seg : Segment
  putting : Option (List UInt8)
  getting : Option Int

inductive Event where
  | quiet
  | put (data : List UInt8)
  | get (data : List UInt8)

def Event.added : Event → List (List UInt8)
  | .put data => [data]
  | _ => []

def Event.removed : Event → List (List UInt8)
  | .get data => [data]
  | _ => []

inductive Act where
  | put (data : List UInt8)
  | putRetry
  | get (sz : Int)
  | getRetry

def afterPut (s : Sys) (data : List UInt8) : PutPass → Event × Sys
  | .wait => (.quiet, { s with putting := some data })
  | .ret status seg =>
    (if status = 0 then .put data else .quiet, { s with seg, putting := none })

/-- An aborted reader is gone: no step. -/
def afterGet (s : Sys) (sz : Int) : GetPass → Option (Event × Sys)
  | .wait => some (.quiet, { s with getting := some sz })
  | .abort => none
  | .ret _ none seg => some (.quiet, { s with seg, getting := none })
  | .ret _ (some data) seg => some (.get data, { s with seg, getting := none })

/-- One locked section of the writer or of the reader. `dvbs_multicast` puts no
empty record. -/
def step (shm : Shmhandle) (s : Sys) : Act → Option (Event × Sys)
  | .put data =>
    if s.putting = none ∧ data ≠ [] then some (afterPut s data (shmfifoPut shm s.seg data))
    else none
  | .putRetry =>
    match s.putting with
    | some data => some (afterPut s data (putRetry shm s.seg data))
    | none => none
  | .get sz =>
    if s.getting = none then
      if sz ≤ 0 then some (.quiet, s) else afterGet s sz (shmfifoGet shm s.seg sz)
    else none
  | .getRetry =>
    match s.getting with
    | some sz => afterGet s sz (shmfifoGet shm s.seg sz)
    | none => none

def Step (shm : Shmhandle) (s : Sys) (e : Event) (s' : Sys) : Prop :=
  ∃ a, step shm s a = some (e, s')

end Noaaport.Shmfifo
