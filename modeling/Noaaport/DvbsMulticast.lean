import Noaaport.PacketCounts
import Noaaport.ShmfifoRefinement

/-! `dvbs_multicast.c`: the parent puts the datagrams of a multicast group into the shared-memory
FIFO, the child takes them out and writes them or inserts them into the product-queue. -/
namespace Noaaport.DvbsMulticast
open Lib Shmfifo

/-- `MAX_MSG` -/
def maxMsg : Nat := 10000

/-- `CBUFPAG`, or the argument of `-b`. -/
def bufpag : Option Int → Int
  | none => 2000
  | some n =>
    let n := if n < 500 then 500 else n
    if n > 40000 then 40000 else n

/-- The handle that `shmfifo_create` returns; the private area is one `int`. -/
def segmentOf (pages pagesize : Int) : Shmhandle where
  privsz := 4
  sz := pages * pagesize

/-- Bytes 8 to 11 of `msg`, an `int` in an `unsigned long`. -/
def sbnnum (msg : Buffer) : UInt64 := UInt64.ofInt (be32 msg 8)

inductive Note where
  | retrograde (last this difference : UInt64)
  | gap (last this gap : UInt64)
  deriving DecidableEq

def Note.missing : Note → Nat
  | .retrograde _ _ _ => 0
  | .gap _ _ n => n.toNat

/-- The two packet numbers that a message is about. -/
def Note.numbers : Note → UInt64 × UInt64
  | .retrograde last this _ => (last, this)
  | .gap last this _ => (last, this)

def parentNote (last this : UInt64) : List Note :=
  if this ≤ last then [.retrograde last this (last - this)]
  else
    let gap := this - last - 1
    if last ≠ 0 ∧ 0 < gap then [.gap last this gap] else []

def childNote (last this : UInt64) : List Note :=
  if last ≠ 0 ∧ last + 1 ≠ this then [.gap last this (this - last)] else []

/-- The variables of the parent's loop, and what it has logged. -/
structure Parent where
  msg : Buffer
  lastnum : UInt64
  notes : List Note

/-- Behind `recvfrom`, which has put `data` into `msg`. -/
def Parent.receive (p : Parent) (data : List UInt8) : Parent :=
  let msg := store p.msg 0 data
  let sbnnum := sbnnum msg
  { msg, lastnum := sbnnum, notes := p.notes ++ parentNote p.lastnum sbnnum }

/-- What is inserted with `-d`: the signature is 0 from its fifth byte on. -/
structure Product where
  signature : List UInt8
  seqno : UInt32
  data : List UInt8

/-- The variables of the child's loop, what it has logged, written and inserted. -/
structure Child where
  msg : Buffer
  lastnum : UInt64
  notes : List Note
  out : List UInt8
  products : List Product

/-- Behind `shmfifo_get`, which has put a record into `msg`. -/
def Child.take (dumpflag : Bool) (c : Child) (data : List UInt8) : Child :=
  let msg := store c.msg 0 data
  let sbnnum := sbnnum msg
  let c := { c with msg, lastnum := sbnnum, notes := c.notes ++ childNote c.lastnum sbnnum }
  if dumpflag then
    let signature := load msg 8 4 ++ List.replicate 12 0
    { c with products := c.products ++ [⟨signature, sbnnum.toUInt32, load msg 0 data.length⟩] }
  else { c with out := c.out ++ load msg 0 data.length }

def shmfifoEmpty (s : Segment) : Bool := s.p.read = s.p.write

/-- `SI_WRITER` and `SI_READER`; and whether the process that waits has been notified, so that it
is about to lock the FIFO again. -/
structure Waking where
  siWriter : Bool
  siReader : Bool
  putWoken : Bool
  getWoken : Bool

/-- `shmfifo_notify_reader` behind a put, `shmfifo_notify_writer` behind a get. -/
def Waking.heard (w : Waking) : Shmfifo.Event → Waking
  | .put _ => { w with siReader := true }
  | .get _ => { w with siWriter := true }
  | .quiet => w

/-- The two processes and the FIFO. `pending`: the parent is about to put that many bytes of its
`msg`; `ready`: the child has found the FIFO not empty; `alive`: it has not exited or aborted. -/
structure Sys where
  fifo : Shmfifo.Sys
  waking : Waking
  parent : Parent
  pending : Option Nat
  child : Child
  ready : Bool
  alive : Bool

inductive Act where
  | recv (data : List UInt8)
  | put
  | putWake
  | putRetry
  | poll
  | get
  | getWake
  | getRetry

def Act.received : Act → List (List UInt8)
  | .recv data => [data]
  | _ => []

/-- A pass of `shmfifo_get` with status 0, one that waits, or one that ends the child. -/
def Sys.afterGet (dumpflag : Bool) (s : Sys) : Option (Shmfifo.Event × Shmfifo.Sys) → Sys
  | none => { s with ready := false, alive := false }
  | some (.get data, fifo) =>
    { s with
      fifo
      waking := s.waking.heard (.get data)
      ready := false
      child := s.child.take dumpflag data }
  | some (_, fifo) => { s with fifo, ready := false, alive := fifo.getting.isSome }

/-- A process that waits takes its notification, or has taken it. -/
def Sys.putWoken (s : Sys) : Sys :=
  { s with waking := { s.waking with siWriter := false, putWoken := true } }
def Sys.putLocks (s : Sys) : Sys := { s with waking := { s.waking with putWoken := false } }
def Sys.getWoken (s : Sys) : Sys :=
  { s with waking := { s.waking with siReader := false, getWoken := true } }
def Sys.getLocks (s : Sys) : Sys := { s with waking := { s.waking with getWoken := false } }

section Steps
variable (shm : Shmhandle) (dumpflag : Bool)

/-- One locked section of a process, or what it does between two. A process that waits in
`shmfifo_wait` needs a notification before it locks again. A failed `recvfrom` changes nothing. -/
def step (s : Sys) : Act → Option Sys
  | .recv data =>
    if s.pending = none ∧ s.fifo.putting = none ∧ data ≠ [] ∧ data.length ≤ maxMsg then
      some { s with parent := s.parent.receive data, pending := some data.length }
    else none
  | .put =>
    match s.pending with
    | some n =>
      (Shmfifo.step shm s.fifo (.put (load s.parent.msg 0 n))).map
        fun x => { s with fifo := x.2, waking := s.waking.heard x.1, pending := none }
    | none => none
  | .putWake =>
    if s.fifo.putting.isSome ∧ s.waking.putWoken = false ∧ s.waking.siWriter then some s.putWoken
    else none
  | .putRetry =>
    if s.waking.putWoken then
      (Shmfifo.step shm s.fifo .putRetry).map
        fun x => { s.putLocks with fifo := x.2, waking := s.putLocks.waking.heard x.1 }
    else none
  | .poll =>
    if s.alive ∧ s.fifo.getting = none then some { s with ready := !shmfifoEmpty s.fifo.seg }
    else none
  | .get =>
    if s.alive ∧ s.ready ∧ s.fifo.getting = none then
      some (s.afterGet dumpflag (Shmfifo.step shm s.fifo (.get maxMsg)))
    else none
  | .getWake =>
    if s.alive ∧ s.fifo.getting.isSome ∧ s.waking.getWoken = false ∧ s.waking.siReader then
      some s.getWoken
    else none
  | .getRetry =>
    if s.alive ∧ s.fifo.getting.isSome ∧ s.waking.getWoken then
      some (s.getLocks.afterGet dumpflag (Shmfifo.step shm s.fifo .getRetry))
    else none

def Step (s : Sys) (a : Act) (s' : Sys) : Prop := step shm dumpflag s a = some s'

/-- The segment as created; the buffers and the start of the standard output are whatever they
are. -/
def Sys.init (mem : Mem UInt8) (counter : Int) (msg msg' : Buffer) : Sys where
  fifo := Shmfifo.Sys.init shm mem counter
  waking := { siWriter := false, siReader := false, putWoken := false, getWoken := false }
  parent := { msg, lastnum := 0, notes := [] }
  pending := none
  child := { msg := msg', lastnum := 0, notes := [], out := [], products := [] }
  ready := false
  alive := true

end Steps

def received (acts : List Act) : List (List UInt8) := acts.flatMap Act.received

/-- What the parent has received and not put. -/
def Sys.held (s : Sys) : List (List UInt8) :=
  s.pending.toList.map (load s.parent.msg 0) ++ s.fifo.putting.toList

section Relay
variable {shm : Shmhandle} {dumpflag : Bool} {l c : Nat} {s₀ : Segment} {s t : Sys}
  {q : List (List UInt8)}

/-- What the child has made of the records it took. -/
def taken (dumpflag : Bool) (c : Child) (ds : List (List UInt8)) : Child :=
  ds.foldl (Child.take dumpflag) c

/-- No notification is lost: a process waits for a cause, or has been notified. -/
structure Roused (shm : Shmhandle) (q : List (List UInt8)) (f : Shmfifo.Sys) (w : Waking) : Prop where
  reader : f.getting.isSome → q = [] ∨ w.siReader = true ∨ w.getWoken = true
  writer : ∀ d, f.putting = some d →
    shmfifoLlMemfree shm f.seg ≤ d.length + sizeofShmbh ∨ w.siWriter = true ∨ w.putWoken = true

/-- After `rs` was received and `ds` taken out, with the records of `q` in the segment. -/
structure Relays (shm : Shmhandle) (dumpflag : Bool) (l c : Nat) (s₀ : Segment) (p : Parent)
    (ch : Child) (rs ds q : List (List UInt8)) (s : Sys) : Prop where
  fifo : Inv shm l c s₀ s.fifo q
  kept : rs = ds ++ q ++ s.held
  parent : s.parent = rs.foldl Parent.receive p
  child : s.child = taken dumpflag ch ds
  small : ∀ d ∈ rs, d ≠ [] ∧ d.length ≤ maxMsg
  pending : ∀ n, s.pending = some n → s.fifo.putting = none ∧ load s.parent.msg 0 n ∈ rs
  getting : ∀ sz, s.fifo.getting = some sz → sz = maxMsg
  alive : s.alive = true
  roused : Roused shm q s.fifo s.waking

/-- A pass over the room: the record is appended, or waits. -/
theorem put_pass {f : Shmfifo.Sys} {d : List UInt8} (h : Inv shm l c s₀ f q) (hd : d ≠ []) :
    afterPut f d (putRetry shm f.seg d) = (.quiet, { f with putting := some d }) ∧
        shmfifoLlMemfree shm f.seg ≤ d.length + sizeofShmbh ∨
      ∃ seg, afterPut f d (putRetry shm f.seg d) = (.put d, { f with seg, putting := none }) ∧
        Queued shm l c seg (q ++ [d]) ∧ Kept l f.seg seg := by
  by_cases hf : shmfifoLlMemfree shm f.seg ≤ d.length + sizeofShmbh
  · left
    exact ⟨by simp only [put_wait hf, afterPut], hf⟩
  · right
    obtain ⟨seg, hp, hq, hk⟩ := put_append h.queued hd (not_le.1 hf)
    exact ⟨seg, by simp only [hp, afterPut, if_true], hq, hk⟩

/-- The segment has room for the longest datagram: no record is refused. -/
theorem put_admits {f : Shmfifo.Sys} {d : List UInt8} (h : Inv shm l c s₀ f q) (hc : 10008 < c)
    (hlen : d.length ≤ maxMsg) : shmfifoPut shm f.seg d = putRetry shm f.seg d := by
  have hfree := h.queued.free
  have hmax : maxMsg = 10000 := rfl
  rw [shmfifoPut, hfree, if_neg (by rw [sizeofShmbh]; omega)]

section Next
variable {p : Parent} {ch : Child} {rs ds : List (List UInt8)}

theorem Relays.putPass (h : Relays shm dumpflag l c s₀ p ch rs ds q s) {d : List UInt8}
    (hheld : s.held = [d]) (hd : d ∈ rs) {x : Shmfifo.Event × Shmfifo.Sys}
    (hx : afterPut s.fifo d (putRetry shm s.fifo.seg d) = x) {w : Waking}
    (hw : w.siReader = s.waking.siReader ∧ w.getWoken = s.waking.getWoken) :
    ∃ q', Relays shm dumpflag l c s₀ p ch rs ds q'
      { s with fifo := x.2, waking := w.heard x.1, pending := none } := by
  have hne := (h.small d hd).1
  have hrs := h.kept
  rw [hheld] at hrs
  rcases put_pass h.fifo hne with ⟨hwait, hfull⟩ | ⟨seg, hput, hq, hk⟩
  · rw [hwait] at hx
    subst hx
    refine ⟨q, ⟨h.fifo.queued, h.fifo.kept, ?_⟩, ?_, h.parent, h.child, h.small, ?_, h.getting,
      h.alive, ⟨?_, ?_⟩⟩
    · intro d' hd'
      exact Option.some.inj hd' ▸ hne
    · rw [hrs]
      rfl
    · intro n hn
      cases hn
    · change _ → q = [] ∨ w.siReader = true ∨ w.getWoken = true
      rw [hw.1, hw.2]
      exact h.roused.reader
    · intro d' hd'
      exact .inl (Option.some.inj hd' ▸ hfull)
  · rw [hput] at hx
    subst hx
    refine ⟨q ++ [d], ⟨hq, h.fifo.kept.trans hk, ?_⟩, ?_, h.parent, h.child, h.small, ?_,
      h.getting, h.alive, ⟨fun _ => .inr (.inl rfl), ?_⟩⟩
    · intro d' hd'
      cases hd'
    · rw [hrs]
      simp [Sys.held]
    · intro n hn
      cases hn
    · intro d' hd'
      cases hd'

/-- The state in which a pass of `shmfifo_get` begins. -/
def Sys.withWaking (s : Sys) (waking : Waking) : Sys := { s with waking }

theorem Relays.getWait (h : Relays shm dumpflag l c s₀ p ch rs ds [] s) {w : Waking}
    (hw : w.siWriter = s.waking.siWriter ∧ w.putWoken = s.waking.putWoken) :
    Relays shm dumpflag l c s₀ p ch rs ds [] ((s.withWaking w).afterGet dumpflag
      (Shmfifo.afterGet s.fifo maxMsg (shmfifoGet shm s.fifo.seg maxMsg))) := by
  simp only [get_empty h.fifo.queued, Shmfifo.afterGet]
  refine ⟨⟨h.fifo.queued, h.fifo.kept, h.fifo.putting⟩, h.kept, h.parent, h.child, h.small,
    h.pending, ?_, rfl, ⟨fun _ => .inl rfl, ?_⟩⟩
  · intro sz hs
    exact (Option.some.inj hs).symm
  · change ∀ d, _ → _ ∨ w.siWriter = true ∨ w.putWoken = true
    rw [hw.1, hw.2]
    exact h.roused.writer

theorem Relays.getTake {d : List UInt8} (h : Relays shm dumpflag l c s₀ p ch rs ds (d :: q) s)
    (hsz : shm.sz < 2 ^ 31) (w : Waking) :
    Relays shm dumpflag l c s₀ p ch rs (ds ++ [d]) q ((s.withWaking w).afterGet dumpflag
      (Shmfifo.afterGet s.fifo maxMsg (shmfifoGet shm s.fifo.seg maxMsg))) := by
  have hd : d ∈ rs := by
    rw [h.kept]
    simp
  have hlen : (d.length : Int) ≤ maxMsg := by exact_mod_cast (h.small d hd).2
  obtain ⟨seg, hg, hq, hk⟩ := get_head h.fifo.queued hsz hlen
  simp only [hg, Shmfifo.afterGet]
  refine ⟨⟨hq, h.fifo.kept.trans hk, h.fifo.putting⟩, ?_, h.parent, ?_, h.small, h.pending, ?_,
    h.alive, ⟨?_, fun _ _ => .inr (.inl rfl)⟩⟩
  · rw [h.kept]
    simp [Sys.held, Sys.afterGet, Sys.withWaking]
  · simp [Sys.afterGet, Sys.withWaking, taken, h.child]
  · intro sz hs
    cases hs
  · intro hs
    cases hs

theorem Relays.getPass (h : Relays shm dumpflag l c s₀ p ch rs ds q s) (hsz : shm.sz < 2 ^ 31)
    {w : Waking} (hw : w.siWriter = s.waking.siWriter ∧ w.putWoken = s.waking.putWoken) :
    ∃ ds' q', Relays shm dumpflag l c s₀ p ch rs ds' q' ((s.withWaking w).afterGet dumpflag
      (Shmfifo.afterGet s.fifo maxMsg (shmfifoGet shm s.fifo.seg maxMsg))) := by
  cases q with
  | nil => exact ⟨ds, [], h.getWait hw⟩
  | cons d q => exact ⟨ds ++ [d], q, h.getTake hsz w⟩

/-- The two passes that the child makes. -/
theorem step_get (hg : s.fifo.getting = none) :
    Shmfifo.step shm s.fifo (.get maxMsg) =
      Shmfifo.afterGet s.fifo maxMsg (shmfifoGet shm s.fifo.seg maxMsg) := by
  rw [Shmfifo.step, if_pos hg, if_neg (by decide)]

theorem step_getRetry (hg : s.fifo.getting = some (maxMsg : Int)) :
    Shmfifo.step shm s.fifo .getRetry =
      Shmfifo.afterGet s.fifo maxMsg (shmfifoGet shm s.fifo.seg maxMsg) := by
  simp only [Shmfifo.step, hg]

theorem Relays.recv_next (h : Relays shm dumpflag l c s₀ p ch rs ds q s) {data : List UInt8}
    (hs : Step shm dumpflag s (.recv data) t) : Relays shm dumpflag l c s₀ p ch (rs ++ [data]) ds q t := by
  simp only [Step, step] at hs
  split_ifs at hs with hg
  cases hs
  obtain ⟨hpend, hputting, hne, hlen⟩ := hg
  have hload : load (s.parent.receive data).msg 0 data.length = data := load_store _ 0 data
  have hrs := h.kept
  simp only [Sys.held, hpend, hputting, Option.toList_none, List.map_nil, List.append_nil] at hrs
  refine ⟨h.fifo, ?_, ?_, h.child, ?_, ?_, h.getting, h.alive, h.roused⟩
  · simp [Sys.held, hputting, hload, hrs]
  · simp [h.parent]
  · intro d hd
    rcases List.mem_append.1 hd with hold | hnew
    · exact h.small d hold
    · rw [List.mem_singleton.1 hnew]
      exact ⟨hne, hlen⟩
  · intro n hn
    cases hn
    exact ⟨hputting, by simp [hload]⟩

theorem Relays.put_next (h : Relays shm dumpflag l c s₀ p ch rs ds q s) (hc : 10008 < c)
    (hs : Step shm dumpflag s .put t) : ∃ q', Relays shm dumpflag l c s₀ p ch rs ds q' t := by
  simp only [Step, step] at hs
  cases hpend : s.pending with
  | none =>
    rw [hpend] at hs
    cases hs
  | some n =>
    obtain ⟨hputting, hmem⟩ := h.pending n hpend
    rw [hpend] at hs
    simp only [Shmfifo.step, hputting, true_and] at hs
    rw [if_pos (h.small _ hmem).1, put_admits h.fifo hc (h.small _ hmem).2] at hs
    cases hs
    exact h.putPass (by simp [Sys.held, hpend, hputting]) hmem rfl ⟨rfl, rfl⟩

theorem Relays.putWake_next (h : Relays shm dumpflag l c s₀ p ch rs ds q s)
    (hs : Step shm dumpflag s .putWake t) : Relays shm dumpflag l c s₀ p ch rs ds q t := by
  simp only [Step, step] at hs
  split_ifs at hs
  cases hs
  exact ⟨h.fifo, h.kept, h.parent, h.child, h.small, h.pending, h.getting, h.alive,
    h.roused.reader, fun _ _ => .inr (.inr rfl)⟩

theorem Relays.getWake_next (h : Relays shm dumpflag l c s₀ p ch rs ds q s)
    (hs : Step shm dumpflag s .getWake t) : Relays shm dumpflag l c s₀ p ch rs ds q t := by
  simp only [Step, step] at hs
  split_ifs at hs
  cases hs
  exact ⟨h.fifo, h.kept, h.parent, h.child, h.small, h.pending, h.getting, h.alive,
    fun _ => .inr (.inr rfl), h.roused.writer⟩

theorem Relays.putRetry_next (h : Relays shm dumpflag l c s₀ p ch rs ds q s)
    (hs : Step shm dumpflag s .putRetry t) : ∃ q', Relays shm dumpflag l c s₀ p ch rs ds q' t := by
  simp only [Step, step, Shmfifo.step] at hs
  split_ifs at hs
  cases hputting : s.fifo.putting with
  | none =>
    rw [hputting] at hs
    cases hs
  | some d =>
    rw [hputting] at hs
    cases hs
    have hpend : s.pending = none := by
      cases hpend : s.pending with
      | none => rfl
      | some n =>
        have hput := (h.pending n hpend).1
        rw [hputting] at hput
        cases hput
    have hheld : s.held = [d] := by simp [Sys.held, hpend, hputting]
    have hmem : d ∈ rs := by
      rw [h.kept, hheld]
      simp
    obtain ⟨q', hq'⟩ := h.putPass hheld hmem rfl (w := s.putLocks.waking) ⟨rfl, rfl⟩
    rw [← hpend] at hq'
    exact ⟨q', hq'⟩

theorem Relays.next (h : Relays shm dumpflag l c s₀ p ch rs ds q s) (hc : 10008 < c)
    (hsz : shm.sz < 2 ^ 31) {a : Act} (hs : Step shm dumpflag s a t) :
    ∃ ds' q', Relays shm dumpflag l c s₀ p ch (rs ++ a.received) ds' q' t := by
  cases a with
  | recv data => exact ⟨ds, q, h.recv_next hs⟩
  | put => exact ⟨ds, by simpa [Act.received] using h.put_next hc hs⟩
  | putWake => exact ⟨ds, q, by simpa [Act.received] using h.putWake_next hs⟩
  | putRetry => exact ⟨ds, by simpa [Act.received] using h.putRetry_next hs⟩
  | getWake => exact ⟨ds, q, by simpa [Act.received] using h.getWake_next hs⟩
  | poll =>
    simp only [Step, step] at hs
    split_ifs at hs
    cases hs
    exact ⟨ds, q, h.fifo, by simpa [Act.received, Sys.held] using h.kept,
      by simpa [Act.received] using h.parent, h.child, by simpa [Act.received] using h.small,
      by simpa [Act.received] using h.pending, h.getting, h.alive, h.roused⟩
  | get =>
    simp only [Step, step] at hs
    split_ifs at hs with hg
    cases hs
    obtain ⟨ds', q', h'⟩ := h.getPass hsz (w := s.waking) ⟨rfl, rfl⟩
    rw [step_get hg.2.2]
    exact ⟨ds', q', by simpa [Act.received, Sys.withWaking] using h'⟩
  | getRetry =>
    simp only [Step, step] at hs
    split_ifs at hs with hg
    cases hs
    obtain ⟨sz, hgetting⟩ := Option.isSome_iff_exists.1 hg.2.1
    obtain ⟨ds', q', h'⟩ := h.getPass hsz (w := s.getLocks.waking) ⟨rfl, rfl⟩
    rw [step_getRetry (by rw [hgetting, h.getting sz hgetting])]
    exact ⟨ds', q', by simpa [Act.received, Sys.withWaking, Sys.getLocks] using h'⟩

/-- The parent holds nothing, or a datagram that it has not begun to put, or one that waits. -/
theorem Relays.held_cases (h : Relays shm dumpflag l c s₀ p ch rs ds q s) :
    (s.held = [] ∧ s.pending = none ∧ s.fifo.putting = none) ∨
    (∃ n, s.held = [load s.parent.msg 0 n] ∧ s.pending = some n ∧ s.fifo.putting = none) ∨
    ∃ d, s.held = [d] ∧ s.pending = none ∧ s.fifo.putting = some d := by
  cases hpend : s.pending with
  | none =>
    cases hput : s.fifo.putting with
    | none => exact .inl ⟨by simp [Sys.held, hpend, hput], rfl, rfl⟩
    | some d => exact .inr (.inr ⟨d, by simp [Sys.held, hpend, hput], rfl, rfl⟩)
  | some n =>
    have hput := (h.pending n hpend).1
    exact .inr (.inl ⟨n, by simp [Sys.held, hpend, hput], rfl, hput⟩)

theorem Relays.start (mem : Mem UInt8) (counter : Int) (msg msg' : Buffer) (hlow : shm.low = l)
    (hlc : shm.sz = l + c) (hc : 0 < c) :
    Relays shm dumpflag l c (Sys.init shm mem counter msg msg').fifo.seg
      (Sys.init shm mem counter msg msg').parent (Sys.init shm mem counter msg msg').child [] [] []
      (Sys.init shm mem counter msg msg') where
  fifo := ⟨queued_create mem counter hlow hlc hc, .refl _, by simp [Sys.init, Shmfifo.Sys.init]⟩
  kept := rfl
  parent := rfl
  child := rfl
  small := by simp
  pending := by simp [Sys.init]
  getting := by simp [Sys.init, Shmfifo.Sys.init]
  alive := rfl
  roused := ⟨fun _ => .inl rfl, by simp [Sys.init, Shmfifo.Sys.init]⟩

theorem Relays.run {acts : List Act} (hc : 10008 < c) (hsz : shm.sz < 2 ^ 31)
    (h : Trace (Step shm dumpflag) s acts t) (hs : Relays shm dumpflag l c s₀ p ch rs ds q s) :
    ∃ ds' q', Relays shm dumpflag l c s₀ p ch (rs ++ received acts) ds' q' t := by
  induction h generalizing rs ds q with
  | nil =>
    refine ⟨ds, q, ?_⟩
    simpa [received] using hs
  | cons hstep _ ih =>
    obtain ⟨ds', q', h'⟩ := hs.next hc hsz hstep
    obtain ⟨ds'', q'', h''⟩ := ih h'
    refine ⟨ds'', q'', ?_⟩
    simpa [received, List.append_assoc] using h''

/-- With a record in the segment a child that waits has been notified, or can be. -/
theorem Relays.getWaked {d : List UInt8} (h : Relays shm dumpflag l c s₀ p ch rs ds (d :: q) s)
    (hg : s.fifo.getting.isSome) :
    s.waking.getWoken = true ∨ Step shm dumpflag s .getWake s.getWoken := by
  cases hw : s.waking.getWoken with
  | true => exact .inl rfl
  | false =>
    have hsem : s.waking.siReader = true := by
      rcases h.roused.reader hg with hnil | hsem | hwoken
      · cases hnil
      · exact hsem
      · exact absurd (hw.symm.trans hwoken) (by decide)
    exact .inr (if_pos ⟨h.alive, hg, hw, hsem⟩)

/-- It takes it, whatever it was about to do. -/
theorem Relays.takes {d : List UInt8} (h : Relays shm dumpflag l c s₀ p ch rs ds (d :: q) s)
    (hsz : shm.sz < 2 ^ 31) :
    ∃ acts t, received acts = [] ∧ Trace (Step shm dumpflag) s acts t ∧
      Relays shm dumpflag l c s₀ p ch rs (ds ++ [d]) q t := by
  cases hg : s.fifo.getting with
  | some sz =>
    have hretry {u : Sys} (hu : Relays shm dumpflag l c s₀ p ch rs ds (d :: q) u)
        (hgu : u.fifo.getting = some sz) (hw : u.waking.getWoken = true) :
        ∃ t, Step shm dumpflag u .getRetry t ∧ Relays shm dumpflag l c s₀ p ch rs (ds ++ [d]) q t := by
      have hstep := @step_getRetry shm u (by rw [hgu, hu.getting sz hgu])
      refine ⟨_, ?_, hu.getTake hsz u.getLocks.waking⟩
      rw [Step, step, if_pos ⟨hu.alive, by rw [hgu]; rfl, hw⟩, hstep]
      rfl
    obtain hw | hwake := h.getWaked (by rw [hg]; rfl)
    · obtain ⟨t, ht, h'⟩ := hretry h hg hw
      exact ⟨[.getRetry], t, rfl, .cons ht (.nil _), h'⟩
    · obtain ⟨t, ht, h'⟩ := hretry (h.getWake_next hwake) hg rfl
      exact ⟨[.getWake, .getRetry], t, rfl, .cons hwake (.cons ht (.nil _)), h'⟩
  | none =>
    have hfull : shmfifoEmpty s.fifo.seg = false := by
      have hused := h.fifo.queued.used
      rw [List.flatMap_cons, List.length_append, length_record] at hused
      rw [shmfifoEmpty, decide_eq_false_iff_not]
      intro heq
      simp only [shmfifoLlMemused, heq] at hused
      omega
    have hready : Relays shm dumpflag l c s₀ p ch rs ds (d :: q) { s with ready := true } :=
      ⟨h.fifo, h.kept, h.parent, h.child, h.small, h.pending, h.getting, h.alive, h.roused⟩
    refine ⟨[.poll, .get], _, rfl, .cons (t := { s with ready := true }) ?_
      (.cons ?_ (.nil _)), hready.getTake hsz s.waking⟩
    · rw [Step, step, if_pos ⟨h.alive, hg⟩, hfull]
      rfl
    · rw [Step, step, if_pos ⟨h.alive, rfl, hg⟩]
      exact congrArg (fun x => some (Sys.afterGet dumpflag _ x)) (step_get hg)

theorem Relays.takesAll (h : Relays shm dumpflag l c s₀ p ch rs ds q s) (hsz : shm.sz < 2 ^ 31) :
    ∃ acts t, received acts = [] ∧ Trace (Step shm dumpflag) s acts t ∧
      Relays shm dumpflag l c s₀ p ch rs (ds ++ q) [] t := by
  induction q generalizing s ds with
  | nil =>
    refine ⟨[], s, rfl, .nil s, ?_⟩
    simpa using h
  | cons d q ih =>
    obtain ⟨acts, t, hr, ht, h'⟩ := h.takes hsz
    obtain ⟨acts', u, hr', hu, h''⟩ := ih h'
    refine ⟨acts ++ acts', u, ?_, ht.append hu, by simpa using h''⟩
    rw [received, List.flatMap_append]
    exact List.append_eq_nil_iff.2 ⟨hr, hr'⟩

theorem Relays.free_of_empty (h : Relays shm dumpflag l c s₀ p ch rs ds [] s) :
    shmfifoLlMemfree shm s.fifo.seg = c := by
  have hused := h.fifo.queued.used
  have hsum := h.fifo.queued.free
  simp only [List.flatMap_nil, List.length_nil] at hused
  omega

/-- With nothing in the segment a parent that waits has been notified, or can be. -/
theorem Relays.putWaked (h : Relays shm dumpflag l c s₀ p ch rs ds [] s) (hc : 10008 < c) {d : List UInt8}
    (hp : s.fifo.putting = some d) (hd : d ∈ rs) :
    s.waking.putWoken = true ∨ Step shm dumpflag s .putWake s.putWoken := by
  have hlen := (h.small d hd).2
  have hmax : maxMsg = 10000 := rfl
  cases hw : s.waking.putWoken with
  | true => exact .inl rfl
  | false =>
    have hsem : s.waking.siWriter = true := by
      rcases h.roused.writer d hp with hfull | hsem | hwoken
      · rw [h.free_of_empty, sizeofShmbh] at hfull
        omega
      · exact hsem
      · exact absurd (hw.symm.trans hwoken) (by decide)
    exact .inr (if_pos ⟨by rw [hp]; rfl, hw, hsem⟩)

/-- The parent's datagram finds room there. -/
theorem Relays.puts (h : Relays shm dumpflag l c s₀ p ch rs ds [] s) (hc : 10008 < c) {d : List UInt8}
    (hheld : s.held = [d]) (hw : s.fifo.putting.isSome → s.waking.putWoken = true) :
    ∃ a t, (a = .put ∨ a = .putRetry) ∧ Step shm dumpflag s a t ∧
      Relays shm dumpflag l c s₀ p ch rs ds [d] t ∧ t.held = [] := by
  have hd : d ∈ rs := by
    rw [h.kept, hheld]
    simp
  obtain ⟨hne, hlen⟩ := h.small d hd
  have hmax : maxMsg = 10000 := rfl
  obtain ⟨seg, hp, hq, hk⟩ := put_append h.fifo.queued hne (by rw [h.free_of_empty, sizeofShmbh]; omega)
  have hput : afterPut s.fifo d (putRetry shm s.fifo.seg d) =
      (.put d, { s.fifo with seg, putting := none }) := by
    rw [hp]
    rfl
  have hrs := h.kept
  rw [hheld] at hrs
  have hafter (w : Waking) : Relays shm dumpflag l c s₀ p ch rs ds [d]
      { s with
        fifo := { s.fifo with seg, putting := none }
        waking := w.heard (.put d)
        pending := none } := by
    refine ⟨⟨hq, h.fifo.kept.trans hk, ?_⟩, ?_, h.parent, h.child, h.small, ?_, h.getting, h.alive,
      ⟨fun _ => .inr (.inl rfl), ?_⟩⟩
    · intro d' hd'
      cases hd'
    · rw [hrs]
      simp [Sys.held]
    · intro n hn
      cases hn
    · intro d' hd'
      cases hd'
  rcases h.held_cases with ⟨hnone, -, -⟩ | ⟨n, hn, hpend, hputting⟩ | ⟨d', hd', hpend, hputting⟩
  · rw [hnone] at hheld
    cases hheld
  · rw [hn] at hheld
    refine ⟨.put, _, .inl rfl, ?_, hafter s.waking, rfl⟩
    have hload : load s.parent.msg 0 n = d := List.cons.inj hheld |>.1
    simp only [Step, step, hpend, Shmfifo.step, hputting, hload]
    rw [if_pos ⟨trivial, hne⟩, put_admits h.fifo hc hlen, hput]
    rfl
  · rw [hd'] at hheld
    obtain rfl : d' = d := List.cons.inj hheld |>.1
    refine ⟨.putRetry, _, .inr rfl, ?_, hafter s.putLocks.waking, rfl⟩
    rw [Step, step, if_pos (hw (by rw [hputting]; rfl))]
    simp only [Shmfifo.step, hputting, hput, Option.map_some, Sys.putLocks, hpend]

/-- It puts it, notified or not. -/
theorem Relays.putsHeld (h : Relays shm dumpflag l c s₀ p ch rs ds [] s) (hc : 10008 < c) {d : List UInt8}
    (hheld : s.held = [d]) :
    ∃ acts t, (∀ a ∈ acts, a = .put ∨ a = .putWake ∨ a = .putRetry) ∧
      Trace (Step shm dumpflag) s acts t ∧ Relays shm dumpflag l c s₀ p ch rs ds [d] t ∧ t.held = [] := by
  have hone {u : Sys} (hu : Relays shm dumpflag l c s₀ p ch rs ds [] u) (hheldu : u.held = [d])
      (hw : u.fifo.putting.isSome → u.waking.putWoken = true) :
      ∃ a t, (a = .put ∨ a = .putWake ∨ a = .putRetry) ∧ Step shm dumpflag u a t ∧
        Relays shm dumpflag l c s₀ p ch rs ds [d] t ∧ t.held = [] := by
    obtain ⟨a, t, ha, ht, h', hnone⟩ := hu.puts hc hheldu hw
    exact ⟨a, t, ha.imp_right .inr, ht, h', hnone⟩
  have hd : d ∈ rs := by
    rw [h.kept, hheld]
    simp
  by_cases hw : s.fifo.putting.isSome → s.waking.putWoken = true
  · obtain ⟨a, t, ha, ht, h', hnone⟩ := hone h hheld hw
    exact ⟨[a], t, by simpa using ha, .cons ht (.nil _), h', hnone⟩
  · obtain ⟨hsome, hasleep⟩ := Classical.not_imp.1 hw
    obtain ⟨d', hp⟩ := Option.isSome_iff_exists.1 hsome
    have hd' : d' = d := by
      rcases h.held_cases with ⟨-, -, hnone⟩ | ⟨n, -, -, hnone⟩ | ⟨d'', hd'', -, hputting⟩
      · rw [hnone] at hp
        cases hp
      · rw [hnone] at hp
        cases hp
      · rw [hp] at hputting
        rw [hd''] at hheld
        exact (Option.some.inj hputting).trans (List.cons.inj hheld).1
    have hwake := (h.putWaked hc hp (hd' ▸ hd)).resolve_left hasleep
    obtain ⟨a, t, ha, ht, h', hnone⟩ := hone (h.putWake_next hwake) hheld fun _ => rfl
    exact ⟨[.putWake, a], t, by simpa using ha, .cons hwake (.cons ht (.nil _)), h', hnone⟩

/-- Neither of the steps that these make receives anything. -/
theorem received_parent {acts : List Act} (h : ∀ a ∈ acts, a = .put ∨ a = .putWake ∨ a = .putRetry) :
    received acts = [] := by
  refine List.flatMap_eq_nil_iff.2 fun a ha => ?_
  rcases h a ha with rfl | rfl | rfl <;> rfl

theorem Relays.drains (h : Relays shm dumpflag l c s₀ p ch rs ds q s) (hc : 10008 < c)
    (hsz : shm.sz < 2 ^ 31) :
    ∃ acts t, received acts = [] ∧ Trace (Step shm dumpflag) s acts t ∧ t.held = [] ∧
      Relays shm dumpflag l c s₀ p ch rs rs [] t := by
  obtain ⟨acts, t, hr, ht, h₁⟩ := h.takesAll hsz
  have hk₁ := h₁.kept
  by_cases he : t.held = []
  · rw [he, List.append_nil, List.append_nil] at hk₁
    rw [← hk₁] at h₁
    exact ⟨acts, t, hr, ht, he, h₁⟩
  · obtain ⟨d, he⟩ : ∃ d, t.held = [d] := by
      rcases h₁.held_cases with ⟨hnone, -, -⟩ | ⟨n, hn, -, -⟩ | ⟨d, hd, -, -⟩
      · exact absurd hnone he
      · exact ⟨_, hn⟩
      · exact ⟨d, hd⟩
    obtain ⟨acts', u, hacts, hu, h₂, -⟩ := h₁.putsHeld hc he
    have hr' := received_parent hacts
    obtain ⟨acts'', v, hr'', hv, h₃⟩ := h₂.takesAll hsz
    have hk₃ := h₃.kept
    rw [he, List.append_nil] at hk₁
    rw [hk₁, List.append_nil, List.self_eq_append_right] at hk₃
    rw [← hk₁] at h₃
    refine ⟨acts ++ (acts' ++ acts''), v, ?_, ht.append (hu.append hv), hk₃, h₃⟩
    simp only [received, List.flatMap_append] at hr hr' hr'' ⊢
    rw [hr, hr', hr'']
    rfl

end Next

/-- The number in bytes 8 to 11 of a datagram that has them. -/
def number (data : List UInt8) : UInt64 := sbnnum fun i => data.getD i 0

theorem store_getD {msg : Buffer} {data : List UInt8} {i : Nat} (h : i < data.length) :
    store msg 0 data i = data.getD i 0 := by
  have hi := store_inside msg 0 data i h
  rw [Nat.zero_add] at hi
  rw [hi, List.getD_eq_getElem data 0 h]

theorem sbnnum_store {data : List UInt8} (msg : Buffer) (h : 12 ≤ data.length) :
    sbnnum (store msg 0 data) = number data :=
  congrArg UInt64.ofInt (be32_congr fun i hi => store_getD (by omega))

/-- What is inserted of a datagram that is long enough to have a number. -/
def productOf (data : List UInt8) : Product where
  signature := (data.drop 8).take 4 ++ List.replicate 12 0
  seqno := (number data).toUInt32
  data := data

theorem load_store_mid {data : List UInt8} (msg : Buffer) (h : 12 ≤ data.length) :
    load (store msg 0 data) 8 4 = (data.drop 8).take 4 := by
  have hload := load_store msg 0 data
  have hlen : data.length = 8 + (data.length - 8) := by omega
  rw [hlen, load_add, Nat.zero_add] at hload
  have hdrop := congrArg (List.drop 8) hload
  rw [List.drop_left' (by simp)] at hdrop
  rw [← load_take _ _ (data.length - 8) 4 (by omega), hdrop]

theorem taken_out (ch : Child) (ds : List (List UInt8)) :
    (taken false ch ds).out = ch.out ++ ds.flatten ∧ (taken false ch ds).products = ch.products := by
  induction ds generalizing ch with
  | nil => simp [taken]
  | cons d ds ih =>
    have hstep := ih (ch.take false d)
    simpa [taken, Child.take, load_store] using hstep

theorem taken_products (ch : Child) {ds : List (List UInt8)} (h : ∀ d ∈ ds, 12 ≤ d.length) :
    (taken true ch ds).products = ch.products ++ ds.map productOf ∧
      (taken true ch ds).out = ch.out := by
  induction ds generalizing ch with
  | nil => simp [taken]
  | cons d ds ih =>
    have hd := h d (List.mem_cons_self ..)
    have hstep := ih (ch.take true d) fun d' hd' => h d' (List.mem_cons_of_mem _ hd')
    simpa [taken, Child.take, load_store, load_store_mid _ hd, sbnnum_store _ hd, productOf]
      using hstep

/-- The geometry that `dvbs_multicast` gives the segment. -/
theorem segment_room {b : Option Int} {pagesize : Int} (hpage : 32 ≤ pagesize) :
    10008 < (segmentOf (bufpag b) pagesize).capacity := by
  have hpages : 500 ≤ bufpag b := by
    cases b with
    | none => decide
    | some n =>
      simp only [bufpag]
      split_ifs <;> omega
  have hmul : 500 * 32 ≤ bufpag b * pagesize := Int.mul_le_mul hpages hpage (by decide) (by omega)
  simp only [Shmhandle.capacity, Shmhandle.low, segmentOf, sizeofShmprefix]
  omega

theorem segment_layout {b : Option Int} {pagesize : Int} (hpage : 32 ≤ pagesize) :
    ∃ c : Nat, 10008 < c ∧ (segmentOf (bufpag b) pagesize).capacity = c ∧
      (segmentOf (bufpag b) pagesize).low = (24 : Nat) ∧ (segmentOf (bufpag b) pagesize).sz = (24 : Nat) + c := by
  have hroom := segment_room (b := b) hpage
  obtain ⟨c, hc⟩ : ∃ c : Nat, (segmentOf (bufpag b) pagesize).capacity = c :=
    ⟨_, (Int.toNat_of_nonneg (by omega)).symm⟩
  have hlow : (segmentOf (bufpag b) pagesize).low = (24 : Nat) := rfl
  refine ⟨c, by omega, hc, hlow, ?_⟩
  simp only [Shmhandle.capacity] at hc
  omega

theorem reachable_relays {b : Option Int} {pagesize : Int} (hpage : 32 ≤ pagesize)
    (hint : bufpag b * pagesize < 2 ^ 31) (mem : Mem UInt8) (counter : Int) (msg msg' : Buffer)
    {acts : List Act}
    (h : Trace (Step (segmentOf (bufpag b) pagesize) dumpflag)
      (Sys.init (segmentOf (bufpag b) pagesize) mem counter msg msg') acts s) :
    ∃ c : Nat, 10008 < c ∧ (segmentOf (bufpag b) pagesize).capacity = c ∧
      ∃ delivered queued, Relays (segmentOf (bufpag b) pagesize) dumpflag 24 c
        (Sys.init (segmentOf (bufpag b) pagesize) mem counter msg msg').fifo.seg ⟨msg, 0, []⟩
        ⟨msg', 0, [], [], []⟩ (received acts) delivered queued s := by
  obtain ⟨c, hroom, hc, hlow, hlc⟩ := segment_layout (b := b) hpage
  have hstart := @Relays.start _ dumpflag 24 c mem counter msg msg' hlow hlc (by omega)
  obtain ⟨delivered, queued, hs⟩ := hstart.run (by omega) hint h
  exact ⟨c, hroom, hc, delivered, queued, hs⟩

/-- Whatever the order of their steps, the two processes lose, double and reorder no datagram, and
none is too big for the segment: what was received is what the child took, then what the segment
holds, then what the parent is putting. -/
theorem dvbs_relays {b : Option Int} {pagesize : Int} (hpage : 32 ≤ pagesize)
    (hint : bufpag b * pagesize < 2 ^ 31) (mem : Mem UInt8) (counter : Int) (msg msg' : Buffer)
    {acts : List Act}
    (h : Trace (Step (segmentOf (bufpag b) pagesize) dumpflag)
      (Sys.init (segmentOf (bufpag b) pagesize) mem counter msg msg') acts s) :
    ∃ delivered queued, received acts = delivered ++ queued ++ s.held ∧ s.held.length ≤ 1 ∧
      Queued (segmentOf (bufpag b) pagesize) (segmentOf (bufpag b) pagesize).low.toNat
        (segmentOf (bufpag b) pagesize).capacity.toNat s.fifo.seg queued ∧
      s.alive = true ∧
      s.parent = (received acts).foldl Parent.receive ⟨msg, 0, []⟩ ∧
      s.child = taken dumpflag ⟨msg', 0, [], [], []⟩ delivered ∧
      (dumpflag = false → s.child.out = delivered.flatten) ∧
      (dumpflag = true → (∀ d ∈ received acts, 12 ≤ d.length) →
        s.child.products = delivered.map productOf) := by
  obtain ⟨c, -, hcap, delivered, queued, hs⟩ := reachable_relays hpage hint mem counter msg msg' h
  refine ⟨delivered, queued, hs.kept, ?_, ?_, hs.alive, hs.parent, hs.child, ?_, ?_⟩
  · rcases hs.held_cases with ⟨he, -, -⟩ | ⟨n, he, -, -⟩ | ⟨d, he, -, -⟩ <;> simp [he]
  · rw [hcap]
    exact hs.fifo.queued
  · intro hd
    subst hd
    rw [hs.child, (taken_out _ _).1]
    rfl
  · intro hd hlong
    subst hd
    have hdel : ∀ d ∈ delivered, 12 ≤ d.length := by
      intro d hd
      apply hlong
      rw [hs.kept]
      simp [hd]
    rw [hs.child, (taken_products _ hdel).1]
    rfl

/-- A datagram of two bytes, received, put, found and taken, with the next one under way. -/
def relayActs : List Act := [.recv [1, 2], .put, .poll, .get, .recv [3]]

theorem relayActs_run : ∃ s, Trace (Step (segmentOf (bufpag none) 4096) false)
    (Sys.init (segmentOf (bufpag none) 4096) (fun _ => 0) 0 (fun _ => 0) fun _ => 0) relayActs s ∧
    s.child.out = [1, 2] ∧ s.held = [[3]] :=
  ⟨_, .cons rfl <| .cons rfl <| .cons rfl <| .cons rfl <| .cons rfl <| .nil _, rfl, rfl⟩

theorem dvbs_relays_run : ∃ s : Sys, s.child.out = [1, 2] ∧
    ∃ delivered queued, [[1, 2], [3]] = delivered ++ queued ++ s.held ∧
      s.child.out = delivered.flatten := by
  obtain ⟨s, h, hout, -⟩ := relayActs_run
  obtain ⟨delivered, queued, hkept, -, -, -, -, -, hflat, -⟩ :=
    dvbs_relays (b := none) (by decide : (32 : Int) ≤ 4096) (by decide) _ _ _ _ h
  exact ⟨s, hout, delivered, queued, hkept, hflat rfl⟩

/-- From every reachable state the processes can go on without another datagram until the child
has taken everything: neither waits for the other in vain. -/
theorem dvbs_drains {b : Option Int} {pagesize : Int} (hpage : 32 ≤ pagesize)
    (hint : bufpag b * pagesize < 2 ^ 31) (mem : Mem UInt8) (counter : Int) (msg msg' : Buffer)
    {acts : List Act}
    (h : Trace (Step (segmentOf (bufpag b) pagesize) dumpflag)
      (Sys.init (segmentOf (bufpag b) pagesize) mem counter msg msg') acts s) :
    ∃ acts' t, received acts' = [] ∧
      Trace (Step (segmentOf (bufpag b) pagesize) dumpflag) s acts' t ∧
      t.held = [] ∧ shmfifoLlMemused (segmentOf (bufpag b) pagesize) t.fifo.seg = 0 ∧
      t.child = taken dumpflag ⟨msg', 0, [], [], []⟩ (received acts) := by
  obtain ⟨c, hc, -, delivered, queued, hs⟩ := reachable_relays hpage hint mem counter msg msg' h
  obtain ⟨acts', t, hr, ht, he, hdrained⟩ := hs.drains hc hint
  exact ⟨acts', t, hr, ht, he, by simpa using hdrained.fifo.queued.used, hdrained.child⟩

theorem dvbs_drains_run : ∃ s t : Sys, s.held = [[3]] ∧ t.held = [] ∧
    t.child = taken false ⟨fun _ => 0, 0, [], [], []⟩ [[1, 2], [3]] := by
  obtain ⟨s, h, -, hheld⟩ := relayActs_run
  obtain ⟨acts, t, -, -, hdone, -, hchild⟩ :=
    dvbs_drains (b := none) (by decide : (32 : Int) ≤ 4096) (by decide) _ _ _ _ h
  exact ⟨s, t, hheld, hdone, hchild⟩

end Relay
end Noaaport.DvbsMulticast
