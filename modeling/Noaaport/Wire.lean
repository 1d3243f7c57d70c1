import Noaaport.Lib.Memory

/-! The three binary headers: `readsbn.c`, `readpdh.c` and `readpsh` of
`readpsh.c`, on the packet buffer. -/
namespace Noaaport
open Lib

abbrev Buffer := Mem UInt8

def be16 (buf : Buffer) (a : Nat) : Nat := (buf a).toNat * 256 + (buf (a + 1)).toNat

/-- `(((((b1 << 8) + b2) << 8) + b3) << 8) + b4`, which is an `int`. -/
def be32 (buf : Buffer) (a : Nat) : Int :=
  let lval := be16 buf a * 65536 + be16 buf (a + 2)
  if lval < 2 ^ 31 then lval else (lval : Int) - 2 ^ 32

structure Sbn where
  version : Nat
  len : Nat
  datastream : Nat
  seqno : UInt64
  runno : Nat
  command : Nat
  checksum : Nat
  deriving DecidableEq, Inhabited

def csum (buf : Buffer) : Nat := ((load buf 0 14).map UInt8.toNat).sum

/-- The fields in the order they are set: a failure leaves the later ones alone. -/
@[irreducible] def readsbn (buf : Buffer) (sbn : Sbn) : Bool × Sbn :=
  let lval := be16 buf 14
  if csum buf ≠ lval then (false, sbn)
  else
    let sbn := { sbn with checksum := lval }
    if buf 0 ≠ 255 then (false, sbn)
    else
      let sbn :=
        { sbn with
          version := (buf 2).toNat / 16
          len := (buf 2).toNat % 16 * 4
          command := (buf 4).toNat }
      if sbn.command ≠ 3 ∧ sbn.command ≠ 5 ∧ sbn.command ≠ 10 then (false, sbn)
      else
        -- an `unsigned long` from a sign-extended `int`
        (true, { sbn with
          datastream := (buf 5).toNat
          seqno := UInt64.ofInt (be32 buf 8)
          runno := be16 buf 12 })

structure Pdh where
  version : Nat
  len : Nat
  transtype : Nat
  pshlen : Int
  dbno : Nat
  dboff : Nat
  dbsize : Nat
  recordsPerBlock : Nat
  blocksPerRecord : Nat
  seqno : Int
  deriving DecidableEq, Inhabited

@[irreducible] def readpdh (buf : Buffer) (a : Nat) : Pdh where
  len := (buf a).toNat % 16 * 4
  version := (buf a).toNat / 16
  transtype := (buf (a + 1)).toNat
  pshlen := (be16 buf (a + 2) : Int) - ((buf a).toNat % 16 * 4 : Nat)
  dbno := be16 buf (a + 4)
  dboff := be16 buf (a + 6)
  dbsize := be16 buf (a + 8)
  recordsPerBlock := (buf (a + 10)).toNat
  blocksPerRecord := (buf (a + 11)).toNat
  seqno := be32 buf (a + 12)

/-- `char` arrays are the bytes before their first NUL. -/
abbrev Text := List UInt8

structure Psh where
  version : Nat
  onum : Nat
  otype : Nat
  olen : Nat
  hflag : Nat
  psdl : Nat
  bytesPerRecord : Nat
  ptype : Nat
  pcat : Nat
  pcode : Nat
  frags : Nat
  nhoff : Nat
  source : Nat
  seqno : Int
  rectime : Int
  transtime : Int
  runid : Nat
  origrunid : Nat
  pname : Text
  hasccb : Nat
  ccbmode : Nat
  ccbsubmode : Nat
  ccbdtype : Text
  metadata : Text
  metaoff : Int
  deriving DecidableEq, Inhabited

/-- Only `pname` and `ccbdtype` are not written. -/
@[irreducible] def readpsh (buf : Buffer) (a : Nat) (psh : Psh) : Psh :=
  { psh with
    hasccb := 0
    ccbmode := 0
    ccbsubmode := 0
    metadata := []
    metaoff := -1
    onum := (buf a).toNat
    otype := (buf (a + 1)).toNat
    olen := be16 buf (a + 2)
    version := (buf (a + 4)).toNat
    hflag := (buf (a + 5)).toNat
    psdl := be16 buf (a + 6)
    bytesPerRecord := be16 buf (a + 8)
    ptype := (buf (a + 10)).toNat
    pcat := (buf (a + 11)).toNat
    pcode := be16 buf (a + 12)
    frags := be16 buf (a + 14)
    nhoff := be16 buf (a + 16)
    source := (buf (a + 19)).toNat
    seqno := be32 buf (a + 20)
    rectime := be32 buf (a + 24)
    transtime := be32 buf (a + 28)
    runid := be16 buf (a + 32)
    origrunid := be16 buf (a + 34) }

section Congr
variable {buf buf' : Buffer} {a a' : Nat}

theorem be16_congr (h : ∀ i, i < 2 → buf (a + i) = buf' (a' + i)) : be16 buf a = be16 buf' a' := by
  simp only [be16, h 1 (by decide)]
  rw [show buf a = buf' a' from h 0 (by decide)]

theorem be16_lt (buf : Buffer) (a : Nat) : be16 buf a < 65536 := by
  have h1 := (buf a).toNat_lt
  have h2 := (buf (a + 1)).toNat_lt
  unfold be16
  omega

end Congr
end Noaaport
