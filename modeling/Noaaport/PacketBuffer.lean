import Noaaport.Framing

/-! The packet buffer: every read that an iteration asks for, and where it ends. -/
namespace Noaaport
open Lib

/-- `buf` of `struct productMaker`, and what `prodmmap` points to. -/
def bufSize : Nat := 10000

/-- A read of `want` bytes to the offset `off` can be made. -/
def InBuffer (off : Nat) (want : Int) : Prop := 0 ≤ want ∧ off + want ≤ bufSize

/-- The reads inside `syncLoop`. -/
inductive Refills (p : Program) : Input → Nat → Int → Prop where
  | here (i : Input) (hsbn : (readsbn i.buf i.sbn).1 = false) (hscan : scan i.buf 1 ≤ 15) :
      Refills p i (16 - scan i.buf 1) (scan i.buf 1)
  | later (i j : Input) {off : Nat} {want : Int} (hsbn : (readsbn i.buf i.sbn).1 = false)
      (hscan : scan i.buf 1 ≤ 15)
      (hread : (i.setSbn.shift (scan i.buf 1)).read p (16 - scan i.buf 1) (scan i.buf 1)
        (.again .badSbn) = .go j)
      (h : Refills p j off want) : Refills p i off want

/-- An iteration up to the fields of the PDH. -/
def packet (p : Program) (s : State) : Flow := ((sync p s.inp).within s.setInp).bind (definition p)

/-- A header record up to its PSH, which is accepted. -/
def acceptPsh (p : Program) (s : State) : Flow :=
  (s.read p s.inp.pshOff s.inp.pdh.pshlen (.again .pshRead)).bind fun s =>
    if s.inp.sbn.command = 5 then .exit (.again .timing) s
    else
      let s := s.decodePsh
      if (s.asm.psh.olen : Int) ≠ s.inp.pdh.pshlen then .exit (.again .pshLen) s else .go s

/-- And from there on. -/
def startProduct (p : Program) (lib : Library) (s : State) : Flow :=
  match s.asm.abandon lib with
  | none => .exit .fault s
  | some asm =>
    ((s.begin lib asm).readBlock p (.again .blockRead)).bind fun s =>
      openProduct lib s.rerouteChannel4.resetHeap

/-- Where the data block is read: in a header record, whose PSH has been accepted, and in a
continuation record. -/
inductive BlockAt (p : Program) (lib : Library) (s : State) : State → Prop where
  | header (t u : State) (asm : Asm) (h : packet p s = .go t) (hpsh : t.inp.pdh.pshlen ≠ 0)
      (haccept : acceptPsh p t = .go u) (habandon : u.asm.abandon lib = some asm) :
      BlockAt p lib s (u.begin lib asm)
  | continuation (t : State) (h : packet p s = .go t) (hpsh : t.inp.pdh.pshlen = 0) :
      BlockAt p lib s t.rerouteChannel4.continued

/-- The reads of one iteration, in the order of the source. -/
inductive Reads (p : Program) (lib : Library) (s : State) : Nat → Int → Prop where
  | start : Reads p lib s 0 1
  | sbn (i : Input) (h : s.inp.read p 0 1 .stop = .go i) (h255 : i.buf 0 = 255) :
      Reads p lib s 1 15
  | refill (i j : Input) {off : Nat} {want : Int} (h : s.inp.read p 0 1 .stop = .go i)
      (h255 : i.buf 0 = 255) (hsbn : i.read p 1 15 (.again .shortSbn) = .go j)
      (hrefill : Refills p j off want) : Reads p lib s off want
  | pdh (i : Input) (h : sync p s.inp = .go i) : Reads p lib s 16 16
  | extra (i : Input) (t : State) (h : sync p s.inp = .go i)
      (hpdh : (s.setInp i).read p 16 16 (.again .pdhRead) = .go t)
      (hcommand : (t.inp.sbn.command = 3 ∨ t.inp.sbn.command = 5) ∧ t.inp.sbn.version = 1)
      (hchannel : isNwstg t.inp.sbn.datastream ∨ isGoes t.inp.sbn.datastream)
      (hlen : 16 < (readpdh t.inp.buf t.inp.sbn.len).len) :
      Reads p lib s (t.inp.sbn.len + 16) ((readpdh t.inp.buf t.inp.sbn.len).len - 16 : Nat)
  | psh (t : State) (h : packet p s = .go t) (hpsh : t.inp.pdh.pshlen ≠ 0) :
      Reads p lib s t.inp.pshOff t.inp.pdh.pshlen
  | block (t : State) (h : BlockAt p lib s t) : Reads p lib s t.inp.dataOff t.inp.pdh.dbsize

/-- The lengths in a packet's headers add up to the buffer's at most, where they are used: the PSH
is not shorter than nothing and ends inside, and so does the block. -/
structure PacketFits (p : Program) (lib : Library) (s : State) : Prop where
  psh : ∀ t, packet p s = .go t → t.inp.pdh.pshlen ≠ 0 →
    0 ≤ t.inp.pdh.pshlen ∧ t.inp.sbn.len + t.inp.pdh.len + t.inp.pdh.pshlen ≤ bufSize
  block : ∀ t, BlockAt p lib s t →
    t.inp.sbn.len + t.inp.pdh.len + t.inp.pdh.pshlen.toNat + t.inp.pdh.dbsize ≤ bufSize

section Headers
variable {p : Program} {lib : Library} {s : State} {i j : Input}

theorem readsbn_len {buf : Buffer} {sbn : Sbn} (h : (readsbn buf sbn).1 = true) :
    (readsbn buf sbn).2.len ≤ 60 := by
  unfold readsbn at h ⊢
  dsimp only at h ⊢
  split_ifs at h ⊢
  dsimp only
  omega

theorem readpdh_len (buf : Buffer) (a : Nat) : (readpdh buf a).len ≤ 60 := by
  rw [readpdh]
  dsimp only
  omega

theorem syncLoop_len {fuel : Nat} (h : syncLoop p fuel i = .go j) : j.sbn.len ≤ 60 := by
  induction fuel generalizing i with
  | zero => cases h
  | succ fuel ih =>
    simp only [syncLoop] at h
    split_ifs at h with hsbn
    · cases h
      exact readsbn_len hsbn
    · obtain ⟨k, -, hk⟩ := Flow.bind_eq_go.1 h
      exact ih hk

theorem sync_len (h : sync p i = .go j) : j.sbn.len ≤ 60 := by
  obtain ⟨i₁, -, h⟩ := Flow.bind_eq_go.1 h
  split_ifs at h
  obtain ⟨i₂, -, h⟩ := Flow.bind_eq_go.1 h
  exact syncLoop_len h

/-- A refill takes what is missing of 16 bytes. -/
theorem Refills.inBuffer {off : Nat} {want : Int} (h : Refills p i off want) : InBuffer off want := by
  induction h with
  | here i _ hscan =>
    have hpos := scan_le i.buf
    refine ⟨by omega, ?_⟩
    rw [bufSize]
    omega
  | later _ _ _ _ _ _ ih => exact ih

/-- The reads of the product definition header always end in the first 120 bytes. -/
theorem extra_inBuffer (h : sync p s.inp = .go i) {t : State}
    (hpdh : (s.setInp i).read p 16 16 (.again .pdhRead) = .go t) :
    InBuffer (t.inp.sbn.len + 16) ((readpdh t.inp.buf t.inp.sbn.len).len - 16 : Nat) := by
  obtain ⟨rfl, -, -⟩ := (State.read_ends ..).go hpdh
  have hsbn : i.sbn.len ≤ 60 := sync_len h
  have hlen := readpdh_len (i.take 16 16).buf i.sbn.len
  refine ⟨by omega, ?_⟩
  change ((i.sbn.len + 16 : Nat) : Int) + ((readpdh (i.take 16 16).buf i.sbn.len).len - 16 : Nat) ≤
    (10000 : Nat)
  omega

/-- Every read of an iteration is inside iff the PSH and the block end inside. -/
theorem packetFits_iff : (∀ off want, Reads p lib s off want → InBuffer off want) ↔
    PacketFits p lib s := by
  constructor
  · intro h
    refine ⟨fun t ht hpsh => ?_, fun t ht => ?_⟩
    · have hread := h _ _ (.psh t ht hpsh)
      simp only [InBuffer, Input.pshOff] at hread
      omega
    · have hread := h _ _ (.block t ht)
      simp only [InBuffer, Input.dataOff, Input.pshOff] at hread
      omega
  · intro h off want hread
    cases hread with
    | start => exact ⟨by decide, by decide⟩
    | sbn => exact ⟨by decide, by decide⟩
    | refill _ _ _ _ _ hrefill => exact hrefill.inBuffer
    | pdh => exact ⟨by decide, by decide⟩
    | extra _ _ hsync hpdh => exact extra_inBuffer hsync hpdh
    | psh t ht hpsh =>
      have := h.psh t ht hpsh
      simp only [InBuffer, Input.pshOff]
      omega
    | block t ht =>
      have := h.block t ht
      simp only [InBuffer, Input.dataOff, Input.pshOff]
      omega

theorem headerRecord_eq (p : Program) (lib : Library) (s : State) :
    headerRecord p lib s = (acceptPsh p s).bind (startProduct p lib) := by
  unfold headerRecord acceptPsh
  rw [Flow.bind_assoc]
  congr 1
  funext u
  dsimp only
  split_ifs <;> rfl

theorem front_eq (p : Program) (lib : Library) (s : State) :
    front p lib s = (packet p s).bind fun t =>
      if t.inp.pdh.pshlen ≠ 0 then (acceptPsh p t).bind (startProduct p lib)
      else continuationRecord p t := by
  simp only [← headerRecord_eq]
  rfl

/-- What the product header does not touch. -/
theorem openProduct_frame (lib : Library) (s : State) : (openProduct lib s).Ends
    (fun t => t.inp.rest = s.inp.rest ∧ t.asm.prod = s.asm.prod ∧
      t.asm.dataheap = s.asm.dataheap) fun _ _ => True := by
  refine Flow.Ends.bind (P := fun t => t.inp.rest = s.inp.rest ∧ t.asm.prod = s.asm.prod ∧
    t.asm.dataheap = s.asm.dataheap) ?_ fun t ht => ?_
  · refine Flow.ends_ite (fun _ => ?_) fun _ => ⟨rfl, rfl, rfl⟩
    exact Flow.ends_ite (fun _ => trivial) fun _ => ⟨rfl, rfl, rfl⟩
  · rw [Flow.ends_go]
    split_ifs
    · exact ht
    · exact ht

/-- In all executions of the loop every read is inside the packet buffer exactly when in each the
packets fit: from any start, and whatever the variables of the body hold. -/
theorem reads_inBuffer_iff (p : Program) (lib : Library) (s₀ : State) :
    (∀ es s, Trace (Step p lib) s₀ es s → ∀ off want, Reads p lib s off want → InBuffer off want) ↔
      ∀ es s, Trace (Step p lib) s₀ es s → PacketFits p lib s :=
  forall_congr' fun _ => forall_congr' fun _ => forall_congr' fun _ => packetFits_iff

end Headers

/-- A continuation record whose block is as long as its size field can say. -/
def longBlockStream : List UInt8 :=
  [255, 0, 20, 0, 3, 5, 0, 0, 0, 0, 0, 1, 0, 1, 1, 29] ++
    [20, 2, 0, 16, 0, 1, 0, 0, 255, 255, 1, 1, 0, 0, 0, 7]

/-- The PSH and the PDH together are shorter than the PDH. -/
def negativePshStream : List UInt8 :=
  [255, 0, 20, 0, 3, 5, 0, 0, 0, 0, 0, 1, 0, 1, 1, 29] ++
    [20, 0, 0, 15, 0, 0, 0, 0, 0, 1, 1, 1, 0, 0, 0, 7]

/-- The block at offset 32 is to be read with 65535 bytes, and the PSH with -1. -/
theorem packet_overruns :
    (¬ ∀ es s, Trace (Step (pmStart 65536 true) .plain) (State.fresh longBlockStream .blank) es s →
      ∀ off want, Reads (pmStart 65536 true) .plain s off want → InBuffer off want) ∧
    ¬ ∀ es s, Trace (Step readnoaaport .plain) (State.fresh negativePshStream .blank) es s →
      ∀ off want, Reads readnoaaport .plain s off want → InBuffer off want := by
  constructor
  · intro h
    have hev : (packet (pmStart 65536 true) (State.fresh longBlockStream .blank)).Ends
        (fun t => t.inp.pdh.pshlen = 0 ∧ t.inp.pdh.dbsize = 65535) (fun _ _ => False) := by
      decide +kernel
    obtain ⟨t, ht, hpsh, hsize⟩ | ⟨e, t, -, hno⟩ := hev.cases
    · obtain ⟨-, hend⟩ := h [] _ (.nil _) _ _ (.block _ (.continuation t ht hpsh))
      simp only [State.continued, rerouteChannel4_inp, hsize, bufSize] at hend
      omega
    · exact hno.elim
  · intro h
    have hev : (packet readnoaaport (State.fresh negativePshStream .blank)).Ends
        (fun t => t.inp.pdh.pshlen = -1) (fun _ _ => False) := by
      decide +kernel
    obtain ⟨t, ht, hpsh⟩ | ⟨e, t, -, hno⟩ := hev.cases
    · obtain ⟨hpos, -⟩ := h [] _ (.nil _) _ _ (.psh t ht (by rw [hpsh]; decide))
      rw [hpsh] at hpos
      exact absurd hpos (by decide)
    · exact hno.elim

end Noaaport
