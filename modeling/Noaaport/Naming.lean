import Noaaport.Wire

/-! Names of products: `readccb` of `readpsh.c` and `readpdb.c`, and what they
call. The text routines, zlib and libpng are functions of their arguments. -/
namespace Noaaport
open Lib

def ascii (s : String) : Text := s.toList.map fun c => UInt8.ofNat c.toNat

/-- `%d` of a number that is not negative. -/
def decimal (n : Nat) : Text := (Nat.toDigits 10 n).map fun c => UInt8.ofNat c.toNat

theorem length_decimal_le_iff {n k : Nat} : (decimal n).length ≤ k + 1 ↔ n < 10 ^ (k + 1) := by
  rw [decimal, List.length_map]
  exact Nat.length_toDigits_le_iff (by decide) (Nat.succ_pos k)

theorem length_decimal_byte {n : Nat} (h : n < 256) : (decimal n).length ≤ 3 :=
  length_decimal_le_iff.2 (Nat.lt_trans h (by decide : 256 < 10 ^ (2 + 1)))

structure Ccb where
  b1 : Nat
  len : Nat
  user1 : Nat
  user2 : Nat
  deriving DecidableEq, Inhabited

structure Pdb where
  len : Int
  source : Nat
  year : Nat
  month : Nat
  day : Nat
  hour : Nat
  minute : Nat
  second : Nat
  sechunds : Nat
  platform : Nat
  sector : Nat
  channel : Nat
  nrec : Nat
  recsize : Nat
  nx : Nat
  ny : Nat
  res : Nat
  deriving DecidableEq, Inhabited

/-- What `wmo_header` returns and leaves in its arguments. -/
structure WmoHeader where
  ok : Bool
  wmohead : Text
  wmometa : Text
  metaoff : Int

/-- A `png_struct` as the calls made on it. -/
structure PngStruct where
  width : Nat
  height : Nat
  rows : List (List UInt8)
  deriving DecidableEq

/-- `satName` is the text of `readpdb`'s `sprintf`s with the labels of `gribid.c`.
`inflate` yields whether the stream ended and what was put out; a libpng call
yields the bytes it writes, or nothing when it jumps to its error handler.
The last two say which `realloc`s move their block, by its new size. -/
structure Library where
  wmoHeader : Buffer → Nat → Nat → WmoHeader
  redbookHeader : Buffer → Nat → Nat → Text
  satName : Text → Nat → Pdb → Text → Text
  grib2name : Mem UInt8 → Nat → Nat → Text → Text → Text × Text
  inflate : List UInt8 → Bool × List UInt8
  pngWriteInfo : Nat → Nat → List UInt8
  pngWriteRow : PngStruct → List UInt8 → Option (List UInt8)
  pngWriteEnd : PngStruct → Option (List UInt8)
  haveIdat : PngStruct → Bool
  heapMoves : Nat → Bool
  fragsMove : Nat → Bool

/-- Names without any text, images of the scan lines alone, blocks that stay. -/
def Library.plain : Library where
  wmoHeader _ _ _ := { ok := true, wmohead := ascii "X", wmometa := [], metaoff := -1 }
  redbookHeader _ _ _ := []
  satName _ _ _ pname := pname
  grib2name _ _ _ prodName ident := (prodName, ident)
  inflate _ := (false, [])
  pngWriteInfo _ _ := []
  pngWriteRow _ row := some row
  pngWriteEnd _ := some []
  haveIdat p := p.rows ≠ []
  heapMoves _ := false
  fragsMove _ := false

section Ccb
variable (lib : Library) (buf : Buffer) (a : Nat)

/-- The characters from 32 on; `char` is signed. -/
def printable : Text := (load buf a 256).takeWhile fun b => 32 ≤ b ∧ b < 128

def defaultName (pname : Text) : Text :=
  if printable buf a = [] then ascii "Unidentifiable product" else pname ++ printable buf a

def isNids : Bool :=
  [ascii "SDUS5", ascii "SDUS2", ascii "SDUS3", ascii "SDUS7", ascii "SDUS8"].contains (load buf a 5)

def ccbLen : Nat := 2 * ((buf a).toNat % 64 * 256 + (buf (a + 1)).toNat)

/-- The product name; `a` is the address behind the CCB. -/
def wmoName (wmo : WmoHeader) (psh : Psh) : Psh :=
  if wmo.ok then
    if wmo.wmohead ≠ [] then
      { psh with
        pname := psh.pname ++ wmo.wmohead
        metaoff := if wmo.metaoff > 0 then wmo.metaoff else psh.metaoff }
    else { psh with pname := psh.pname ++ printable buf a }
  else { psh with pname := defaultName buf a psh.pname }

def isNexrad (psh : Psh) : Bool := psh.ccbmode = 2 ∧ psh.ccbsubmode = 0

def redbookTitle (blen : Nat) (psh : Psh) : Text :=
  if ¬ isNexrad psh ∧ psh.pcat = 2 then lib.redbookHeader buf a blen else []

def dataType (user1 user2 : Nat) (title : Text) (psh : Psh) : Psh :=
  if isNexrad psh then
    if isNids buf a then
      { psh with pcat := 99, ccbdtype := if user1 ≠ 70 then ascii "nids/" else psh.ccbdtype }
    else psh
  else if psh.pcat = 2 then
    { psh with
      ccbdtype :=
        ascii (if title ≠ [] then "redbook " else "graph ") ++ decimal user1 ++ ascii "_" ++
          decimal user2 ++ ascii "/" }
  else psh

def createMetadata (title wmometa : Text) (psh : Psh) : Psh :=
  let text := psh.ccbdtype ++ title ++ wmometa
  { psh with metadata := if text = [] then [] else ascii " !" ++ text }

def ccbPsh (blen : Nat) (psh : Psh) : Psh :=
  let psh := { psh with
    ccbmode := (buf (a + 10)).toNat
    ccbsubmode := (buf (a + 11)).toNat
    hasccb := 1
    ccbdtype := [] }
  let data := a + ccbLen buf a
  let dlen := blen - ccbLen buf a
  let wmo := lib.wmoHeader buf data dlen
  let psh := wmoName buf data wmo psh
  let title := redbookTitle lib buf data dlen psh
  createMetadata title wmo.wmometa
    (dataType buf data (buf (a + 12)).toNat (buf (a + 12)).toNat title psh)

/-- Both users are byte 12 in the source. -/
@[irreducible] def readccb (ccb : Ccb) (psh : Psh) (blen : Nat) : Bool × Ccb × Psh :=
  if ccbLen buf a > blen then
    (false, { ccb with b1 := (buf a).toNat, len := 0 },
      { psh with pname := defaultName buf a psh.pname })
  else
    (true,
      { b1 := (buf a).toNat
        len := ccbLen buf a
        user1 := (buf (a + 12)).toNat
        user2 := (buf (a + 12)).toNat },
      ccbPsh lib buf a blen psh)

end Ccb

section Pdb
variable (lib : Library) (buf : Buffer) (a : Nat)

/-- `uncompr` is static: what is not overwritten is left from earlier calls. -/
def npunz (uncompr : Mem UInt8) : Option Nat × Mem UInt8 :=
  let out := lib.inflate (load buf a 540)
  let uncompr := store uncompr 0 out.2
  let i := (out.2.takeWhile (· ≠ 10)).length
  if out.1 = false ∨ i = out.2.length then (none, uncompr) else (some (i + 1), uncompr)

def pdbFields (wbuf : Mem UInt8) (w : Nat) (pdb : Pdb) : Pdb :=
  let b := fun i => (wbuf (w + i)).toNat
  { pdb with
    source := b 0
    platform := b 1
    sector := b 2
    channel := b 3
    nrec := be16 wbuf (w + 4)
    recsize := be16 wbuf (w + 6)
    year := if b 8 > 70 then b 8 + 1900 else b 8 + 2000
    month := b 9
    day := b 10
    hour := b 11
    minute := b 12
    second := b 13
    sechunds := b 14
    nx := be16 wbuf (w + 16)
    ny := be16 wbuf (w + 18)
    res := b 41 }

structure PdbResult where
  ok : Bool
  buf : Buffer
  psh : Psh
  pdb : Pdb
  uncompr : Mem UInt8

@[irreducible] def readpdb (psh : Psh) (pdb : Pdb) (uncompr : Mem UInt8) (zflag : Bool) : PdbResult :=
  let line := (load buf a 512).takeWhile (· ≠ 10)
  let wmocnt := line.length
  let pname := line.filter (32 ≤ ·)
  let w := a + wmocnt + 1
  if zflag then
    match npunz lib buf w uncompr with
    | (none, uncompr) =>
      let pdb := { pdb with
        platform := 0, channel := 0, year := 0, month := 0, day := 0, hour := 0, minute := 0
        sector := 0, res := 0, len := -1 }
      let psh := { psh with pname := lib.satName (ascii "satz") psh.ptype pdb pname }
      { ok := false, buf, psh, pdb, uncompr }
    | (some ioff, uncompr) =>
      let pdb := { pdbFields uncompr ioff pdb with len := 512 + wmocnt }
      let psh := { psh with pname := lib.satName (ascii "satz") psh.ptype pdb pname }
      { ok := pdb.nx ≥ 1 ∧ pdb.ny ≥ 1, buf, psh, pdb, uncompr }
  else
    let pdb := { pdbFields buf w pdb with len := 512 + wmocnt }
    let psh := { psh with pname := lib.satName (ascii "sat") psh.ptype pdb pname }
    -- octet 43 announces the PNG encoding
    { ok := pdb.nx ≥ 1 ∧ pdb.ny ≥ 1, buf := store buf (w + 42) [128], psh, pdb, uncompr }

end Pdb

end Noaaport
