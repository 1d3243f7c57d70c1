import Noaaport.Arrival

/-! Packet framing: when the bytes of the buffer that are taken for a packet are
the bytes of the stream. -/
namespace Noaaport
open Lib

/-- The length of the packet by its own header fields. -/
def Input.extent (i : Input) : Nat := i.dataOff + i.pdh.dbsize

/-- The buffer up to the end of the block, as it has been read, and then the rest
of the stream are the stream from the accepted header on; and the PDH is the one
that the 32 bytes of the two fixed reads hold, whatever the buffer held behind
them. -/
structure Framed (p : Program) (s t : State) : Prop where
  bytes : ∃ i b, sync p s.inp = .go i ∧ Octet43 t b ∧
    load i.buf 0 16 ++ i.rest = load b 0 t.inp.extent ++ t.inp.rest
  pdh : ∃ i, sync p s.inp = .go i ∧ ∀ m : Buffer, load m 0 32 = load i.buf 0 16 ++ i.rest.take 16 →
    readpdh m t.inp.sbn.len = t.inp.pdh

theorem load_extend (m : Mem UInt8) (n : Nat) (bs : List UInt8) :
    load (store m n bs) 0 (n + bs.length) = load m 0 n ++ bs := by
  have h := load_store_append m 0 n bs
  rwa [Nat.zero_add] at h

/-- The last octet of a PDH is one of its sequence number. -/
theorem readpdh_last (m : Buffer) (a : Nat) : readpdh (store m (a + 15) [m (a + 15) + 1]) a ≠ readpdh m a := by
  intro h
  have hlast : store m (a + 15) [m (a + 15) + 1] (a + 12 + 2 + 1) = m (a + 15) + 1 :=
    store_head _ _ _ _
  have hbefore : ∀ j < a + 15, store m (a + 15) [m (a + 15) + 1] j = m j := fun j hj => store_before _ _ _ _ hj
  have hseq := congrArg Pdh.seqno h
  have hne : (m (a + 15) + 1).toNat ≠ (m (a + 15)).toNat := by
    intro heq
    have := UInt8.toNat_inj.1 heq
    simp at this
  have hb := (m (a + 15)).toNat_lt
  have hb' := (m (a + 15) + 1).toNat_lt
  unfold readpdh be32 be16 at hseq
  simp only [hbefore (a + 12) (by omega), hbefore (a + 12 + 1) (by omega),
    hbefore (a + 12 + 2) (by omega), hlast, show a + 12 + 2 + 1 = a + 15 from rfl] at hseq
  split_ifs at hseq <;> omega

section Front
variable {p : Program} {lib : Library} {s t : State}

/-- What an iteration that reaches "Get the data" has read, in order. -/
structure Consumed (p : Program) (s t : State) (i : Input) (u : State) : Prop where
  sync : sync p s.inp = .go i
  defined : Defined (s.setInp i) u
  block : BlockRead u t

theorem FrontGo.consumed (h : FrontGo p lib s t) : ∃ i u, Consumed p s t i u := by
  cases h with
  | header i u hs _ hd _ h => exact ⟨i, u, hs, hd, h.block⟩
  | continuation i u hs _ hd _ h => exact ⟨i, u, hs, hd, h.block⟩

/-- The bytes read: sixteen more, the extra PDH bytes, the PSH and the block. -/
theorem Consumed.length {i : Input} {u : State} (h : Consumed p s t i u) :
    i.rest.length = t.inp.rest.length +
      (16 + (t.inp.pdh.len - 16) + t.inp.pdh.pshlen.toNat + t.inp.pdh.dbsize) := by
  have hu := congrArg List.length h.defined.rest
  have ht := congrArg List.length h.block.rest
  have h1 := h.defined.enough
  have h2 := h.block.enough
  simp only [State.setInp_inp, List.length_drop] at hu ht h1
  rw [h.block.pdh]
  omega

/-- The two reads of a packet whose headers are as long as what is read for them. -/
theorem Consumed.load {i : Input} {u : State} (h : Consumed p s t i u)
    (hlen : t.inp.sbn.len + min t.inp.pdh.len 16 = 32) :
    load (store (store u.inp.buf u.inp.pshOff (u.inp.rest.take u.inp.pdh.pshlen.toNat))
      u.inp.dataOff ((u.inp.rest.drop u.inp.pdh.pshlen.toNat).take u.inp.pdh.dbsize)) 0
        t.inp.extent =
      load i.buf 0 16 ++ i.rest.take (16 + (t.inp.pdh.len - 16) + t.inp.pdh.pshlen.toNat +
        t.inp.pdh.dbsize) := by
  have h1 := h.defined.enough
  have h2 := h.block.enough
  have hrest := h.defined.rest
  have hbuf := h.defined.buf
  simp only [State.setInp_inp] at h1 hrest hbuf
  have hsbn : u.inp.sbn = i.sbn := h.defined.sbn
  have hpsh : u.inp.pshOff = 32 + (u.inp.pdh.len - 16) := by
    rw [h.block.sbn, h.block.pdh] at hlen
    simp only [Input.pshOff]
    omega
  have hl16 : (i.rest.take 16).length = 16 := by
    rw [List.length_take]
    omega
  have h32 : Lib.load (store i.buf 16 (i.rest.take 16)) 0 32 =
      Lib.load i.buf 0 16 ++ i.rest.take 16 := by
    have := load_extend i.buf 16 (i.rest.take 16)
    rwa [hl16] at this
  -- a PDH of more than sixteen bytes stands behind an SBN header of sixteen
  have hx : Lib.load u.inp.buf 0 u.inp.pshOff =
      Lib.load i.buf 0 16 ++ i.rest.take (16 + (u.inp.pdh.len - 16)) := by
    rw [hbuf, hpsh]
    by_cases hlong : 16 < u.inp.pdh.len
    · have hoff : i.sbn.len + 16 = 32 := by
        rw [h.block.sbn, h.block.pdh, hsbn] at hlen
        omega
      have hlx : ((i.rest.drop 16).take (u.inp.pdh.len - 16)).length = u.inp.pdh.len - 16 := by
        rw [List.length_take, List.length_drop]
        omega
      have := load_extend (store i.buf 16 (i.rest.take 16)) 32
        ((i.rest.drop 16).take (u.inp.pdh.len - 16))
      rw [hlx] at this
      rw [hoff, this, h32, List.append_assoc, ← List.take_add]
    · have h0 : u.inp.pdh.len - 16 = 0 := by omega
      rw [h0, List.take_zero, store_nil]
      exact h32
  have hlp : (u.inp.rest.take u.inp.pdh.pshlen.toNat).length = u.inp.pdh.pshlen.toNat := by
    rw [List.length_take]
    omega
  have hlb : ((u.inp.rest.drop u.inp.pdh.pshlen.toNat).take u.inp.pdh.dbsize).length =
      u.inp.pdh.dbsize := by
    rw [List.length_take, List.length_drop]
    omega
  have hp := load_extend u.inp.buf u.inp.pshOff (u.inp.rest.take u.inp.pdh.pshlen.toNat)
  have hb := load_extend (store u.inp.buf u.inp.pshOff (u.inp.rest.take u.inp.pdh.pshlen.toNat))
    u.inp.dataOff ((u.inp.rest.drop u.inp.pdh.pshlen.toNat).take u.inp.pdh.dbsize)
  rw [hlp, hx] at hp
  rw [hlb, show u.inp.dataOff = u.inp.pshOff + u.inp.pdh.pshlen.toNat from rfl, hp] at hb
  have hext : t.inp.extent = u.inp.pshOff + u.inp.pdh.pshlen.toNat + u.inp.pdh.dbsize := by
    simp only [Input.extent, Input.dataOff, Input.pshOff, h.block.sbn, h.block.pdh]
  rw [hext, show u.inp.dataOff = u.inp.pshOff + u.inp.pdh.pshlen.toNat from rfl, hb, hrest,
    h.block.pdh, List.append_assoc, List.append_assoc, List.drop_drop, List.drop_drop]
  congr 1
  simp only [List.take_add, List.append_assoc]

/-- The fixed reads. -/
theorem load_fixed {i : Input} (h : 16 ≤ i.rest.length) :
    Lib.load (store i.buf 16 (i.rest.take 16)) 0 32 = Lib.load i.buf 0 16 ++ i.rest.take 16 := by
  have hl : (i.rest.take 16).length = 16 := by rw [List.length_take, Nat.min_eq_left h]
  have hload := load_extend i.buf 16 (i.rest.take 16)
  rwa [hl] at hload

theorem Consumed.enough {i : Input} {u : State} (h : Consumed p s t i u) : 16 ≤ i.rest.length := by
  have he := h.defined.enough
  simp only [State.setInp_inp] at he
  omega

theorem Consumed.readpdh {i : Input} {u : State} (h : Consumed p s t i u) :
    readpdh (store i.buf 16 (i.rest.take 16)) t.inp.sbn.len = t.inp.pdh := by
  rw [h.block.pdh, h.block.sbn, h.defined.sbn, h.defined.pdh]
  rfl

/-- The bytes are those of the stream where the two lengths add up to the fixed
reads. -/
theorem Consumed.bytes_iff {i : Input} {u : State} (h : Consumed p s t i u) :
    (∃ i b, Noaaport.sync p s.inp = .go i ∧ Octet43 t b ∧
      Lib.load i.buf 0 16 ++ i.rest = Lib.load b 0 t.inp.extent ++ t.inp.rest) ↔
      t.inp.sbn.len + min t.inp.pdh.len 16 = 32 := by
  have hl := h.length
  constructor
  · rintro ⟨i', b, hs, -, heq⟩
    cases Flow.go.inj (h.sync.symm.trans hs)
    have he := congrArg List.length heq
    simp only [List.length_append, length_load, Input.extent, Input.dataOff, Input.pshOff] at he
    omega
  · intro hlen
    refine ⟨i, _, h.sync, h.block.buf, ?_⟩
    rw [h.load hlen, h.block.rest, h.defined.rest, List.append_assoc]
    congr 1
    simp only [State.setInp_inp, List.drop_drop, ← h.block.pdh]
    exact (List.take_append_drop _ _).symm

/-- And the PDH is in them where it ends in the fixed reads. -/
theorem Consumed.pdh_iff {i : Input} {u : State} (h : Consumed p s t i u) :
    (∃ i, Noaaport.sync p s.inp = .go i ∧ ∀ m : Buffer, Lib.load m 0 32 = Lib.load i.buf 0 16 ++ i.rest.take 16 →
      Noaaport.readpdh m t.inp.sbn.len = t.inp.pdh) ↔ t.inp.sbn.len ≤ 16 := by
  have hfixed := load_fixed h.enough
  constructor
  · rintro ⟨i', hs, hall⟩
    cases Flow.go.inj (h.sync.symm.trans hs)
    by_contra hlong
    -- another last octet of the sequence number, behind the bytes that have been read
    have hother := readpdh_last (store i.buf 16 (i.rest.take 16)) t.inp.sbn.len
    refine hother ((hall _ ?_).trans h.readpdh.symm)
    rw [load_store_before _ _ _ _ _ (by omega), hfixed]
  · intro hshort
    refine ⟨i, h.sync, fun m hm => ?_⟩
    rw [← h.readpdh]
    refine readpdh_congr fun j hj => ?_
    rw [← hfixed] at hm
    have hcell := load_inj hm (t.inp.sbn.len + j) (by omega)
    rwa [Nat.zero_add] at hcell

theorem Consumed.framed_iff {i : Input} {u : State} (h : Consumed p s t i u) :
    Framed p s t ↔ t.inp.sbn.len = 16 ∧ 16 ≤ t.inp.pdh.len := by
  have hparts : Framed p s t ↔ t.inp.sbn.len + min t.inp.pdh.len 16 = 32 ∧ t.inp.sbn.len ≤ 16 := by
    rw [← h.bytes_iff, ← h.pdh_iff]
    exact ⟨fun hf => ⟨hf.bytes, hf.pdh⟩, fun hf => ⟨hf.1, hf.2⟩⟩
  rw [hparts]
  omega

end Front

/-- A PDH of twelve bytes, as its length nibble says. -/
def shortPdhPacket : List UInt8 :=
  [255, 0, 20, 0, 3, 5, 0, 0, 0, 0, 0, 1, 0, 1, 1, 29] ++
    [19, 0, 0, 48, 0, 0, 0, 0, 0, 1, 1, 1, 0, 0, 0, 7] ++
    [0, 0, 0, 36] ++ List.replicate 32 0 ++ [65]

/-- A sixteen-byte PDH. -/
def plainPacket : List UInt8 :=
  [255, 0, 20, 0, 3, 5, 0, 0, 0, 0, 0, 1, 0, 1, 1, 29] ++
    [20, 0, 0, 52, 0, 0, 0, 0, 0, 1, 1, 1, 0, 0, 0, 7] ++
    [0, 0, 0, 36] ++ List.replicate 32 0 ++ [65]

end Noaaport
