import Noaaport.Wire

/-! The three headers as they are encoded on the wire, and what the decoders make
of them. A field of 32 bits passes through an `int` on its way to a `long`. -/
namespace Noaaport
open Lib

section Fields
variable {m : Buffer} {a i : Nat} {bs : List UInt8}

def wire16 (n : UInt16) : List UInt8 := [UInt8.ofNat (n.toNat / 256), UInt8.ofNat n.toNat]

def wire32 (n : UInt32) : List UInt8 :=
  [UInt8.ofNat (n.toNat / 256 / 256 / 256), UInt8.ofNat (n.toNat / 256 / 256),
    UInt8.ofNat (n.toNat / 256), UInt8.ofNat n.toNat]

/-- A version and a length in words of four bytes. -/
def wireLen (version words : Fin 16) : UInt8 := UInt8.ofNat (version.val * 16 + words.val)

/-- The `int` that four bytes make. -/
def asInt (n : UInt32) : Int := if n.toNat < 2 ^ 31 then n.toNat else (n.toNat : Int) - 2 ^ 32

theorem asInt_eq_iff (n : UInt32) : asInt n = n.toNat ↔ n.toNat < 2 ^ 31 := by
  unfold asInt
  split_ifs with h
  · exact iff_of_true rfl h
  · exact iff_of_false (by omega) h

theorem store_field {b : UInt8} (h : bs[i]? = some b) : store m a bs (a + i) = b := by
  rw [store, if_pos (Nat.le_add_right _ _), Nat.add_sub_cancel_left, h]
  rfl

theorem be16_field {n : UInt16} (h0 : bs[i]? = some (UInt8.ofNat (n.toNat / 256)))
    (h1 : bs[i + 1]? = some (UInt8.ofNat n.toNat)) : be16 (store m a bs) (a + i) = n.toNat := by
  have hn := n.toNat_lt
  unfold be16
  rw [store_field h0, Nat.add_assoc, store_field h1, UInt8.toNat_ofNat', UInt8.toNat_ofNat']
  omega

theorem be32_field {n : UInt32} (h0 : bs[i]? = some (UInt8.ofNat (n.toNat / 256 / 256 / 256)))
    (h1 : bs[i + 1]? = some (UInt8.ofNat (n.toNat / 256 / 256)))
    (h2 : bs[i + 2]? = some (UInt8.ofNat (n.toNat / 256)))
    (h3 : bs[i + 3]? = some (UInt8.ofNat n.toNat)) : be32 (store m a bs) (a + i) = asInt n := by
  have hn := n.toNat_lt
  have hvalue : be16 (store m a bs) (a + i) * 65536 + be16 (store m a bs) (a + i + 2) = n.toNat := by
    unfold be16
    rw [store_field h0, Nat.add_assoc, store_field h1, Nat.add_assoc, store_field h2, Nat.add_assoc,
      store_field h3]
    simp only [UInt8.toNat_ofNat']
    omega
  simp only [be32, hvalue, asInt]

theorem wireLen_high (v w : Fin 16) : (wireLen v w).toNat / 16 = v.val := by
  rw [wireLen, UInt8.toNat_ofNat']
  omega

theorem wireLen_low (v w : Fin 16) : (wireLen v w).toNat % 16 = w.val := by
  rw [wireLen, UInt8.toNat_ofNat']
  omega

end Fields

section Sbn

/-- Fourteen octets add up to less than `2 ^ 16`. -/
theorem sum_octets_le (bs : List UInt8) : (bs.map UInt8.toNat).sum ≤ bs.length * 255 := by
  induction bs with
  | nil => exact Nat.le_refl 0
  | cons b bs ih =>
    have hb := b.toNat_lt
    rw [List.map_cons, List.sum_cons, List.length_cons]
    omega

/-- The octets that `readsbn` does not look at are free. -/
structure SbnWire where
  control : UInt8
  version : Fin 16
  words : Fin 16
  flags : UInt8
  command : UInt8
  isCommand : command = 3 ∨ command = 5 ∨ command = 10
  datastream : UInt8
  source : UInt8
  destination : UInt8
  seqno : UInt32
  runno : UInt16

namespace SbnWire
variable (w : SbnWire)

def summed : List UInt8 :=
  [255, w.control, wireLen w.version w.words, w.flags, w.command, w.datastream, w.source,
    w.destination] ++ wire32 w.seqno ++ wire16 w.runno

def checksum : UInt16 := UInt16.ofNat (w.summed.map UInt8.toNat).sum

def bytes : List UInt8 := w.summed ++ wire16 w.checksum

def fields : Sbn where
  version := w.version.val
  len := w.words.val * 4
  datastream := w.datastream.toNat
  seqno := UInt64.ofNat w.seqno.toNat
  runno := w.runno.toNat
  command := w.command.toNat
  checksum := w.checksum.toNat

theorem checksum_toNat : w.checksum.toNat = (w.summed.map UInt8.toNat).sum := by
  have hle := sum_octets_le w.summed
  have hlen : w.summed.length = 14 := rfl
  rw [checksum, UInt16.toNat_ofNat', Nat.mod_eq_of_lt (by omega)]

/-- What the decoder makes of an encoded SBN header. -/
theorem readsbn_bytes (buf : Buffer) (old : Sbn) :
    readsbn (store buf 0 w.bytes) old =
      (true, { w.fields with seqno := UInt64.ofInt (asInt w.seqno) }) := by
  have hload : load (store buf 0 w.bytes) 0 14 = w.summed := by
    have h := load_store buf 0 w.bytes
    rw [← load_take _ _ 16 _ (by decide)]
    exact congrArg (List.take 14) h
  have hsum : csum (store buf 0 w.bytes) = w.checksum.toNat := by
    rw [csum, hload, w.checksum_toNat]
  have hlval : be16 (store buf 0 w.bytes) 14 = w.checksum.toNat :=
    be16_field (a := 0) (i := 14) rfl rfl
  have h0 : store buf 0 w.bytes 0 = 255 := store_field (a := 0) (i := 0) rfl
  have h2 : store buf 0 w.bytes 2 = wireLen w.version w.words :=
    store_field (a := 0) (i := 2) rfl
  have h4 : store buf 0 w.bytes 4 = w.command := store_field (a := 0) (i := 4) rfl
  have h5 : store buf 0 w.bytes 5 = w.datastream := store_field (a := 0) (i := 5) rfl
  have h8 : be32 (store buf 0 w.bytes) 8 = asInt w.seqno :=
    be32_field (a := 0) (i := 8) rfl rfl rfl rfl
  have h12 : be16 (store buf 0 w.bytes) 12 = w.runno.toNat :=
    be16_field (a := 0) (i := 12) rfl rfl
  have hcmd : ¬ (w.command.toNat ≠ 3 ∧ w.command.toNat ≠ 5 ∧ w.command.toNat ≠ 10) := by
    rcases w.isCommand with h | h | h <;> rw [h] <;> decide
  unfold readsbn
  simp only [hsum, hlval, h0, h2, h4, h5, h8, h12, wireLen_high, wireLen_low, ne_eq, not_true_eq_false,
    ↓reduceIte]
  rw [if_neg hcmd]
  rfl

theorem readsbn_eq_iff (buf : Buffer) (old : Sbn) :
    readsbn (store buf 0 w.bytes) old = (true, w.fields) ↔ w.seqno.toNat < 2 ^ 31 := by
  have hn := w.seqno.toNat_lt
  have hiff : UInt64.ofInt (asInt w.seqno) = UInt64.ofNat w.seqno.toNat ↔ w.seqno.toNat < 2 ^ 31 := by
    constructor
    · intro h
      by_contra hlarge
      have hint : asInt w.seqno = (w.seqno.toNat : Int) - 2 ^ 32 := if_neg hlarge
      have hval := congrArg UInt64.toNat h
      rw [hint, UInt64.ofInt, UInt64.toNat_ofNat', UInt64.toNat_ofNat'] at hval
      omega
    · intro h
      rw [(asInt_eq_iff _).2 h, UInt64.ofInt]
      congr 1
      omega
  rw [readsbn_bytes, ← hiff]
  constructor
  · intro h
    exact congrArg (fun r => r.2.seqno) h
  · intro h
    rw [h]
    rfl

end SbnWire
end Sbn

section Pdh

structure PdhWire where
  version : Fin 16
  words : Fin 16
  transtype : UInt8
  psize : UInt16
  dbno : UInt16
  dboff : UInt16
  dbsize : UInt16
  recordsPerBlock : UInt8
  blocksPerRecord : UInt8
  seqno : UInt32

namespace PdhWire
variable (w : PdhWire)

def bytes : List UInt8 :=
  [wireLen w.version w.words, w.transtype] ++ wire16 w.psize ++ wire16 w.dbno ++ wire16 w.dboff ++
    wire16 w.dbsize ++ [w.recordsPerBlock, w.blocksPerRecord] ++ wire32 w.seqno

/-- The total header length is stored less the length of the PDH. -/
def fields : Pdh where
  version := w.version.val
  len := w.words.val * 4
  transtype := w.transtype.toNat
  pshlen := (w.psize.toNat : Int) - (w.words.val * 4 : Nat)
  dbno := w.dbno.toNat
  dboff := w.dboff.toNat
  dbsize := w.dbsize.toNat
  recordsPerBlock := w.recordsPerBlock.toNat
  blocksPerRecord := w.blocksPerRecord.toNat
  seqno := w.seqno.toNat

/-- What the decoder makes of an encoded PDH. -/
theorem readpdh_bytes (buf : Buffer) (a : Nat) :
    readpdh (store buf a w.bytes) a = { w.fields with seqno := asInt w.seqno } := by
  have h0 : store buf a w.bytes a = wireLen w.version w.words := store_field (i := 0) rfl
  have h1 : store buf a w.bytes (a + 1) = w.transtype := store_field rfl
  have h2 : be16 (store buf a w.bytes) (a + 2) = w.psize.toNat := be16_field rfl rfl
  have h4 : be16 (store buf a w.bytes) (a + 4) = w.dbno.toNat := be16_field rfl rfl
  have h6 : be16 (store buf a w.bytes) (a + 6) = w.dboff.toNat := be16_field rfl rfl
  have h8 : be16 (store buf a w.bytes) (a + 8) = w.dbsize.toNat := be16_field rfl rfl
  have h10 : store buf a w.bytes (a + 10) = w.recordsPerBlock := store_field rfl
  have h11 : store buf a w.bytes (a + 11) = w.blocksPerRecord := store_field rfl
  have h12 : be32 (store buf a w.bytes) (a + 12) = asInt w.seqno := be32_field rfl rfl rfl rfl
  unfold readpdh
  simp only [h0, h1, h2, h4, h6, h8, h10, h11, h12, wireLen_high, wireLen_low, fields]

theorem readpdh_eq_iff (buf : Buffer) (a : Nat) :
    readpdh (store buf a w.bytes) a = w.fields ↔ w.seqno.toNat < 2 ^ 31 := by
  rw [readpdh_bytes, ← asInt_eq_iff]
  constructor
  · intro h
    exact congrArg Pdh.seqno h
  · intro h
    rw [h]
    rfl

end PdhWire
end Pdh

section Psh

/-- Octet 18 is not looked at. -/
structure PshWire where
  onum : UInt8
  otype : UInt8
  olen : UInt16
  version : UInt8
  hflag : UInt8
  psdl : UInt16
  bytesPerRecord : UInt16
  ptype : UInt8
  pcat : UInt8
  pcode : UInt16
  frags : UInt16
  nhoff : UInt16
  reserved : UInt8
  source : UInt8
  seqno : UInt32
  rectime : UInt32
  transtime : UInt32
  runid : UInt16
  origrunid : UInt16

namespace PshWire
variable (w : PshWire)

def bytes : List UInt8 :=
  w.onum :: w.otype :: (wire16 w.olen ++ w.version :: w.hflag :: (wire16 w.psdl ++
    (wire16 w.bytesPerRecord ++ w.ptype :: w.pcat :: (wire16 w.pcode ++ (wire16 w.frags ++
    (wire16 w.nhoff ++ w.reserved :: w.source :: (wire32 w.seqno ++ (wire32 w.rectime ++
    (wire32 w.transtime ++ (wire16 w.runid ++ wire16 w.origrunid))))))))))

/-- The fields that are not on the wire: `old` keeps two of them. -/
def fields (old : Psh) : Psh where
  version := w.version.toNat
  onum := w.onum.toNat
  otype := w.otype.toNat
  olen := w.olen.toNat
  hflag := w.hflag.toNat
  psdl := w.psdl.toNat
  bytesPerRecord := w.bytesPerRecord.toNat
  ptype := w.ptype.toNat
  pcat := w.pcat.toNat
  pcode := w.pcode.toNat
  frags := w.frags.toNat
  nhoff := w.nhoff.toNat
  source := w.source.toNat
  seqno := w.seqno.toNat
  rectime := w.rectime.toNat
  transtime := w.transtime.toNat
  runid := w.runid.toNat
  origrunid := w.origrunid.toNat
  pname := old.pname
  hasccb := 0
  ccbmode := 0
  ccbsubmode := 0
  ccbdtype := old.ccbdtype
  metadata := []
  metaoff := -1

/-- What the decoder makes of an encoded PSH. -/
theorem readpsh_bytes (buf : Buffer) (a : Nat) (old : Psh) :
    readpsh (store buf a w.bytes) a old =
      { w.fields old with
        seqno := asInt w.seqno, rectime := asInt w.rectime, transtime := asInt w.transtime } := by
  have h0 : store buf a w.bytes a = w.onum := store_field (i := 0) rfl
  have h1 : store buf a w.bytes (a + 1) = w.otype := store_field rfl
  have h2 : be16 (store buf a w.bytes) (a + 2) = w.olen.toNat := be16_field rfl rfl
  have h4 : store buf a w.bytes (a + 4) = w.version := store_field rfl
  have h5 : store buf a w.bytes (a + 5) = w.hflag := store_field rfl
  have h6 : be16 (store buf a w.bytes) (a + 6) = w.psdl.toNat := be16_field rfl rfl
  have h8 : be16 (store buf a w.bytes) (a + 8) = w.bytesPerRecord.toNat := be16_field rfl rfl
  have h10 : store buf a w.bytes (a + 10) = w.ptype := store_field rfl
  have h11 : store buf a w.bytes (a + 11) = w.pcat := store_field rfl
  have h12 : be16 (store buf a w.bytes) (a + 12) = w.pcode.toNat := be16_field rfl rfl
  have h14 : be16 (store buf a w.bytes) (a + 14) = w.frags.toNat := be16_field rfl rfl
  have h16 : be16 (store buf a w.bytes) (a + 16) = w.nhoff.toNat := be16_field rfl rfl
  have h19 : store buf a w.bytes (a + 19) = w.source := store_field rfl
  have h20 : be32 (store buf a w.bytes) (a + 20) = asInt w.seqno := be32_field rfl rfl rfl rfl
  have h24 : be32 (store buf a w.bytes) (a + 24) = asInt w.rectime := be32_field rfl rfl rfl rfl
  have h28 : be32 (store buf a w.bytes) (a + 28) = asInt w.transtime := be32_field rfl rfl rfl rfl
  have h32 : be16 (store buf a w.bytes) (a + 32) = w.runid.toNat := be16_field rfl rfl
  have h34 : be16 (store buf a w.bytes) (a + 34) = w.origrunid.toNat := be16_field rfl rfl
  unfold readpsh
  simp only [h0, h1, h2, h4, h5, h6, h8, h10, h11, h12, h14, h16, h19, h20, h24, h28, h32, h34,
    fields]

theorem readpsh_eq_iff (buf : Buffer) (a : Nat) (old : Psh) :
    readpsh (store buf a w.bytes) a old = w.fields old ↔
      w.seqno.toNat < 2 ^ 31 ∧ w.rectime.toNat < 2 ^ 31 ∧ w.transtime.toNat < 2 ^ 31 := by
  rw [readpsh_bytes, ← asInt_eq_iff, ← asInt_eq_iff, ← asInt_eq_iff]
  constructor
  · intro h
    exact ⟨congrArg Psh.seqno h, congrArg Psh.rectime h, congrArg Psh.transtime h⟩
  · rintro ⟨hs, hr, ht⟩
    rw [hs, hr, ht]
    rfl

end PshWire
end Psh

/-- Each decoder undoes its encoding if and only if the 32-bit fields of its header
are less than `2 ^ 31`. -/
theorem decoding_iff_positive (s : SbnWire) (d : PdhWire) (h : PshWire) (buf : Buffer) (a b : Nat)
    (sbn : Sbn) (psh : Psh) :
    (readsbn (store buf 0 s.bytes) sbn = (true, s.fields) ↔ s.seqno.toNat < 2 ^ 31) ∧
      (readpdh (store buf a d.bytes) a = d.fields ↔ d.seqno.toNat < 2 ^ 31) ∧
      (readpsh (store buf b h.bytes) b psh = h.fields psh ↔
        h.seqno.toNat < 2 ^ 31 ∧ h.rectime.toNat < 2 ^ 31 ∧ h.transtime.toNat < 2 ^ 31) :=
  ⟨s.readsbn_eq_iff buf sbn, d.readpdh_eq_iff buf a, h.readpsh_eq_iff buf b psh⟩

/-- A sequence number with the top bit set. -/
def lateSbn : SbnWire where
  control := 0
  version := 1
  words := 4
  flags := 0
  command := 3
  isCommand := .inl rfl
  datastream := 5
  source := 0
  destination := 0
  seqno := 0x80000000
  runno := 1

theorem late_seqno_not_decoded :
    readsbn (store (fun _ => 0) 0 lateSbn.bytes) default ≠ (true, lateSbn.fields) := by
  decide +kernel

end Noaaport
