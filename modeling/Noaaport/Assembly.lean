import Noaaport.Lib.Flow
import Noaaport.Lib.Trace
import Noaaport.Storage

/-! The assembly loop, the same in `pmStart` of `productMaker.c` and in `main` of
`readnoaaport.c`: one iteration over the rest of the byte stream. -/
namespace Noaaport
open Lib

/-- Answer of the program's read function; only `ok` takes bytes. -/
inductive Got where
  | ok
  | status (n : Int)
  | blocked
  deriving DecidableEq

structure Reader where
  read : Int → List UInt8 → Got
  ok_le : ∀ want rest, read want rest = .ok → 0 ≤ want ∧ want.toNat ≤ rest.length

/-- `fifoRead` on the bytes still to come. A negative size is a huge `size_t`. -/
def fifoReader (size : Nat) (closed : Bool) : Reader where
  read want rest :=
    if want < 0 ∨ size < want then .status 1
    else if closed ∧ rest = [] then .status 3
    else if want.toNat ≤ rest.length then .ok
    else .blocked
  ok_le want rest h := by
    split_ifs at h
    omega

def shmBufread : Reader where
  read want rest :=
    if want < 0 then .status (-1)
    else if want.toNat ≤ rest.length then .ok
    else .blocked
  ok_le want rest h := by
    split_ifs at h
    omega

structure Stats where
  lastSeqno : UInt64
  lastRunno : UInt64
  npackets : UInt64
  nmissed : UInt64

/-- A program that ignores the result of a read has a reader that cannot fail. -/
structure Program where
  reader : Reader
  account : Stats → Sbn → Stats
  checksExtra : Bool
  unchecked : checksExtra = false → ∀ want rest n, 0 ≤ want → reader.read want rest ≠ .status n
  keepsVars : Bool

def pmAccount (st : Stats) (sbn : Sbn) : Stats :=
  let st :=
    if st.lastRunno ≠ UInt64.ofNat sbn.runno then { st with lastRunno := UInt64.ofNat sbn.runno }
    else
      let delta := sbn.seqno - st.lastSeqno
      if delta = 0 ∨ 0x7FFFFFFF < delta then st
      else { st with nmissed := st.nmissed + (delta - 1), npackets := st.npackets + 1 }
  { st with lastSeqno := sbn.seqno }

/-- `last_sbn_seqno` starts as `-1`. -/
def rnAccount (st : Stats) (sbn : Sbn) : Stats :=
  let st :=
    if st.lastSeqno ≠ UInt64.ofInt (-1) ∧ sbn.seqno ≠ st.lastSeqno + 1 ∧
        sbn.seqno > st.lastSeqno then
      { st with nmissed := st.nmissed + (sbn.seqno - st.lastSeqno - 1) }
    else st
  { st with lastSeqno := sbn.seqno }

/-- The variables are declared inside `pmStart`'s loop and outside the loop of
`readnoaaport`. -/
def pmStart (size : Nat) (closed : Bool) : Program where
  reader := fifoReader size closed
  account := pmAccount
  checksExtra := true
  unchecked := nofun
  keepsVars := false

def readnoaaport : Program where
  reader := shmBufread
  account := rnAccount
  checksExtra := false
  unchecked _ want rest n h0 := by
    simp only [shmBufread]
    split_ifs <;> first | omega | nofun
  keepsVars := true

structure Input where
  rest : List UInt8
  buf : Buffer
  sbn : Sbn
  pdh : Pdh
  stats : Stats

structure LoopVars where
  nwstg : Bool
  goes : Bool
  prodCompressed : Bool
  heapcount : Nat
  heapsize : Nat
  prodName : Text
  dataoff : Nat
  datalen : Nat
  deflen : Nat

/-- What outlives an iteration in both programs. -/
structure Asm where
  psh : Psh
  ccb : Ccb
  pdb : Pdb
  uncompr : Mem UInt8
  prod : Prodstore
  dataheap : Dataheap
  out : Output
  pnginit : Bool
  calls : List Call
  inserts : List Product

structure State where
  inp : Input
  v : LoopVars
  asm : Asm

def LoopVars.blank : LoopVars where
  nwstg := false
  goes := false
  prodCompressed := false
  heapcount := 0
  heapsize := 0
  prodName := []
  dataoff := 0
  datalen := 0
  deflen := 0

/-- A program that has just started, its memory zeroed. -/
def State.fresh (rest : List UInt8) (v : LoopVars) : State where
  inp :=
    { rest, buf := fun _ => 0, sbn := default, pdh := default
      stats := { lastSeqno := 0, lastRunno := UInt64.ofInt (-1), npackets := 0, nmissed := 0 } }
  v := v
  asm :=
    { psh := default, ccb := default, pdb := default, uncompr := fun _ => 0
      prod := { seqno := 0, nfrag := 0, frags := [] }
      dataheap := { allocated := false, gen := 0, nextfrag := 0, maxfrags := 1000 }
      out :=
        { memheap := { allocated := false, id := 0, largestsiz := 0, mem := fun _ => 0 }
          md5 := [], png := { ptr := none, prodmap := 0, prodoff := 0 }
          product := 0, image := false, opened := 0, mapped := 0, pngLog := [] }
      pnginit := false, calls := [], inserts := [] }

/-- The `continue` statements, in the order of the source. -/
inductive Reason where
  | notSync | shortSbn | badSbn | pdhRead | badCommand | badChannel | pdhExtra | badVersion
  | noPsh | pshRead | timing | pshLen | blockRead | pdb | contRead | noHeader
  | goesSeq | pngInit | nwstgSeq | punt
  deriving DecidableEq

/-- `hang`: a loop that does not end; `fault`: undefined behaviour. -/
inductive Exit where
  | again (r : Reason)
  | stop
  | blocked
  | hang
  | fault
  deriving DecidableEq

abbrev Flow := Lib.Flow Exit State

section Headers
variable (p : Program)

def Input.take (i : Input) (off n : Nat) : Input :=
  { i with buf := store i.buf off (i.rest.take n), rest := i.rest.drop n }

def Input.read (off : Nat) (want : Int) (onFail : Exit) (i : Input) : Lib.Flow Exit Input :=
  match p.reader.read want i.rest with
  | .ok => .go (i.take off want.toNat)
  | .status _ => .exit onFail i
  | .blocked => .exit .blocked i

/-- The first 255 from `ioff` on, or 16. -/
def scan (buf : Buffer) (ioff : Nat) : Nat := ioff + ((load buf ioff (16 - ioff)).takeWhile (· ≠ 255)).length

def Input.setSbn (i : Input) : Input := { i with sbn := (readsbn i.buf i.sbn).2 }
def Input.shift (i : Input) (ioff : Nat) : Input :=
  { i with buf := store i.buf 0 (load i.buf ioff (16 - ioff)) }

@[simp] theorem Input.take_buf (i : Input) (off n : Nat) :
    (i.take off n).buf = store i.buf off (i.rest.take n) := rfl
@[simp] theorem Input.take_rest (i : Input) (off n : Nat) :
    (i.take off n).rest = i.rest.drop n := rfl
@[simp] theorem Input.setSbn_buf (i : Input) : i.setSbn.buf = i.buf := rfl
@[simp] theorem Input.setSbn_rest (i : Input) : i.setSbn.rest = i.rest := rfl
@[simp] theorem Input.shift_buf (i : Input) (n : Nat) :
    (i.shift n).buf = store i.buf 0 (load i.buf n (16 - n)) := rfl
@[simp] theorem Input.shift_rest (i : Input) (n : Nat) : (i.shift n).rest = i.rest := rfl

/-- The `while` loop around `readsbn`; a refill takes at least one byte. -/
def syncLoop : Nat → Input → Lib.Flow Exit Input
  | 0, i => .exit .hang i
  | fuel + 1, i =>
    if (readsbn i.buf i.sbn).1 then .go i.setSbn
    else
      let ioff := scan i.buf 1
      if ioff > 15 then .exit (.again .badSbn) i.setSbn
      else ((i.setSbn.shift ioff).read p (16 - ioff) ioff (.again .badSbn)).bind (syncLoop fuel)

def sync (i : Input) : Lib.Flow Exit Input :=
  (i.read p 0 1 .stop).bind fun i =>
    if i.buf 0 ≠ 255 then .exit (.again .notSync) i
    else (i.read p 1 15 (.again .shortSbn)).bind fun i => syncLoop p (i.rest.length + 1) i

def isNwstg (datastream : Nat) : Bool := datastream = 7 ∨ datastream = 6 ∨ datastream = 5
def isGoes (datastream : Nat) : Bool := datastream = 1 ∨ datastream = 2 ∨ datastream = 4

end Headers

section Packet
variable (p : Program) (lib : Library)

def State.setInp (s : State) (inp : Input) : State := { s with inp }

def State.read (s : State) (off : Nat) (want : Int) (onFail : Exit) : Flow :=
  (s.inp.read p off want onFail).within s.setInp

def State.setChannel (s : State) : State :=
  { s with v := { s.v with
      nwstg := isNwstg s.inp.sbn.datastream
      goes := isGoes s.inp.sbn.datastream } }

def State.setCompressed (s : State) : State :=
  { s with v := { s.v with prodCompressed := s.inp.pdh.transtype &&& 16 > 0 } }

/-- A failed read of the extra bytes goes unnoticed in `readnoaaport`. -/
def readExtra (s : State) : Flow :=
  if s.inp.pdh.len > 16 then
    match s.read p (s.inp.sbn.len + 16) (s.inp.pdh.len - 16 : Nat) (.again .pdhExtra) with
    | .exit (.again r) s => if p.checksExtra then .exit (.again r) s else .go s
    | x => x
  else .go s

/-- `readpdh` never fails. -/
def definition (s : State) : Flow :=
  (s.read p 16 16 (.again .pdhRead)).bind fun s =>
    let s := s.setInp { s.inp with stats := p.account s.inp.stats s.inp.sbn }
    if (s.inp.sbn.command ≠ 3 ∧ s.inp.sbn.command ≠ 5) ∨ s.inp.sbn.version ≠ 1 then
      .exit (.again .badCommand) s
    else if ¬ isNwstg s.inp.sbn.datastream ∧ ¬ isGoes s.inp.sbn.datastream then
      .exit (.again .badChannel) s
    else
      let s := s.setChannel.setInp { s.inp with pdh := readpdh s.inp.buf s.inp.sbn.len }
      (readExtra p s).bind fun s =>
        if s.inp.pdh.version ≠ 1 then .exit (.again .badVersion) s
        else
          let s := s.setCompressed
          if s.inp.pdh.pshlen = 0 ∧ s.inp.pdh.transtype = 0 then .exit (.again .noPsh) s
          else .go s

def Input.pshOff (i : Input) : Nat := i.sbn.len + i.pdh.len
def Input.dataOff (i : Input) : Nat := i.pshOff + i.pdh.pshlen.toNat

def State.readBlock (s : State) (onFail : Exit) : Flow :=
  s.read p s.inp.dataOff s.inp.pdh.dbsize onFail

/-- Channel 4 carries GOES images only in category 3. -/
def State.rerouteChannel4 (s : State) : State :=
  if s.inp.sbn.datastream = 4 ∧ s.asm.psh.pcat ≠ 3 then
    { s with v := { s.v with goes := false, nwstg := true } }
  else s

def Asm.unlink (a : Asm) : Asm :=
  { a with dataheap := dsFree a.dataheap, prod := { a.prod with frags := [] } }

/-- "OOPS, start of new product with unfinished product". -/
def Asm.abandon (a : Asm) : Option Asm :=
  if a.prod.frags = [] then some a
  else if a.pnginit then
    (pngoutEnd lib a.out).map fun out => { a.unlink with out, pnginit := false }
  else some a.unlink

def Asm.start (a : Asm) (seqno : Int) : Asm :=
  { a with
    prod := { seqno, nfrag := a.psh.frags, frags := a.prod.frags }
    dataheap := dsInit lib a.dataheap a.psh.frags
    out := { a.out with product := a.out.product + 1 } }

def State.resetHeap (s : State) : State :=
  { s with
    v := { s.v with heapcount := 0 }
    asm := { s.asm with out := { s.asm.out with md5 := [] } } }

def State.alloc (s : State) (dbsize : Nat) : State :=
  let r := prodalloc lib s.asm.psh.frags dbsize s.asm.out.memheap
  { s with
    v := { s.v with heapsize := r.1 }
    asm := { s.asm with out := { s.asm.out with memheap := r.2 } } }

/-- The GOES half of a header record. -/
def goesHeader (s : State) : Flow :=
  let r := readpdb lib s.inp.buf s.inp.dataOff s.asm.psh s.asm.pdb s.asm.uncompr s.v.prodCompressed
  let s := { s with
    inp := { s.inp with buf := r.buf }
    asm := { s.asm with psh := r.psh, pdb := r.pdb, uncompr := r.uncompr } }
  if r.ok = false then .exit (.again .pdb) s
  else
    let s := { s with
      v := { s.v with prodName := r.psh.pname }
      asm := { s.asm with ccb := { s.asm.ccb with len := 0 } } }
    .go (s.alloc lib 5152)

/-- `"%03d"`, whose field also holds the sign. -/
def fmt03 (n : Int) : Text :=
  let sign := if n < 0 then [45] else []
  let digits := decimal n.natAbs
  sign ++ List.replicate (3 - sign.length - digits.length) 48 ++ digits

def fosHeader (seqno : Int) : List UInt8 :=
  [1, 13, 13, 10] ++ fmt03 (seqno.tmod 1000) ++ [32, 13, 13, 10]

def fosTrailer : List UInt8 := [13, 13, 10, 3]

/-- `sprintf` into `memheap`, with the NUL it ends in. -/
def State.storeFosHeader (s : State) : State :=
  let text := fosHeader s.inp.pdh.seqno ++ [0]
  let memheap :=
    { s.asm.out.memheap with mem := store s.asm.out.memheap.mem 0 text }
  let metaoff := s.asm.psh.metaoff
  { s with
    v := { s.v with heapcount := s.v.heapcount + 11 }
    asm := { s.asm with
      out := { s.asm.out with memheap }
      psh := { s.asm.psh with metaoff := if metaoff > 0 then metaoff + 11 else metaoff } } }

/-- The NWSTG half. A CCB that does not fit is only reported. -/
def nwstgHeader (s : State) : State :=
  let r := readccb lib s.inp.buf s.inp.dataOff s.asm.ccb { s.asm.psh with pname := [] }
    s.inp.pdh.dbsize
  let s := { s with
    v := { s.v with prodName := r.2.2.pname }
    asm := { s.asm with ccb := r.2.1, psh := r.2.2 } }
  (s.alloc lib 4015).storeFosHeader

def State.markImage (s : State) : State :=
  { s with asm := { s.asm with
      out := { s.asm.out with image := s.v.goes && !s.v.prodCompressed } } }

def openProduct (s : State) : Flow :=
  (if s.v.goes then goesHeader lib s.markImage else .go s.markImage).bind fun s =>
    .go (if s.v.nwstg then nwstgHeader lib s else s)

def State.begin (s : State) (asm : Asm) : State :=
  { s with asm := asm.start lib s.inp.pdh.seqno }

def State.decodePsh (s : State) : State :=
  { s with asm := { s.asm with psh := readpsh s.inp.buf s.inp.pshOff s.asm.psh } }

/-- A record with a PSH. -/
def headerRecord (s : State) : Flow :=
  (s.read p s.inp.pshOff s.inp.pdh.pshlen (.again .pshRead)).bind fun s =>
    if s.inp.sbn.command = 5 then .exit (.again .timing) s
    else
      let s := s.decodePsh
      if (s.asm.psh.olen : Int) ≠ s.inp.pdh.pshlen then .exit (.again .pshLen) s
      else
        match s.asm.abandon lib with
        | none => .exit .fault s
        | some asm =>
          ((s.begin lib asm).readBlock p (.again .blockRead)).bind fun s =>
            openProduct lib s.rerouteChannel4.resetHeap

/-- A continuation record has no CCB; its transfer type may end the product. -/
def State.continued (s : State) : State :=
  { s with asm := { s.asm with
      ccb := { s.asm.ccb with len := 0 }
      psh :=
        if s.inp.pdh.transtype &&& 4 > 0 then { s.asm.psh with frags := 0 } else s.asm.psh } }

/-- A continuation record. -/
def continuationRecord (s : State) : Flow :=
  (s.rerouteChannel4.continued.readBlock p (.again .contRead)).bind fun s =>
    if s.asm.prod.frags = [] then .exit (.again .noHeader) s else .go s

/-- Everything before "Get the data". -/
def front (s : State) : Flow :=
  (((sync p s.inp).within s.setInp).bind (definition p)).bind fun s =>
    if s.inp.pdh.pshlen ≠ 0 then headerRecord p lib s else continuationRecord p s

end Packet

section Data
variable (lib : Library)

def State.newFrag (s : State) : Datastore where
  gen := (dsAlloc lib s.asm.dataheap).2.gen
  slot := (dsAlloc lib s.asm.dataheap).1
  seqno := s.inp.pdh.seqno
  fragnum := s.inp.pdh.dbno
  offset := s.v.heapcount
  recsiz := s.inp.pdh.dbsize - s.asm.ccb.len

/-- "Get the data", to the allocation of the fragment. -/
def State.getData (s : State) : State :=
  { s with
    v := { s.v with
      dataoff := s.inp.dataOff + s.asm.ccb.len
      datalen := s.inp.pdh.dbsize - s.asm.ccb.len }
    asm := { s.asm with dataheap := (dsAlloc lib s.asm.dataheap).2 } }

/-- Does the fragment not follow the tail? -/
def Prodstore.missing (prod : Prodstore) (tail pfrag : Datastore) : Bool :=
  pfrag.fragnum ≠ tail.fragnum + 1 ∨ pfrag.seqno ≠ prod.seqno

/-- A tail in an array that has moved cannot be read. -/
def Asm.tailLives (a : Asm) (tail : Datastore) : Bool := tail.gen = a.dataheap.gen

def State.reset (s : State) : State := { s with asm := s.asm.unlink }

def State.block (s : State) : List UInt8 := load s.inp.buf s.v.dataoff s.v.datalen

/-- `memcpy` to the heap and `MD5Update` over what has been copied. -/
def Output.append (o : Output) (at_ : Nat) (bs : List UInt8) : Output :=
  { o with
    memheap := { o.memheap with mem := store o.memheap.mem at_ bs }
    md5 := o.md5 ++ bs }

def State.setOut (s : State) (out : Output) : State := { s with asm := { s.asm with out } }

/-- A compressed GOES block goes to the heap as it is. -/
def State.copyCompressed (s : State) : State :=
  { s.setOut (s.asm.out.append s.v.heapcount s.block) with
    v := { s.v with heapcount := s.v.heapcount + s.v.datalen } }

def goesFirst (s : State) : Flow :=
  if s.v.prodCompressed then .go s.copyCompressed
  else
    match (pngHeader (pngSetMemheap s.asm.out) s.block).bind
        fun o => pngoutInit lib o s.asm.pdb.nx (s.asm.pdb.ny + 1) with
    | none => .exit .fault s
    | some out => .go { s.setOut out with asm := { s.asm with out, pnginit := true } }

/-- The scan lines of a block that are written. -/
def scanlines (nx dbsize recordsPerBlock : Nat) : List Nat :=
  (List.range dbsize).filter fun nscan => nscan * nx < dbsize ∧ nscan < recordsPerBlock

def writeScanlines (buf : Buffer) (dataoff nx : Nat) : List Nat → Output → Option Output
  | [], o => some o
  | nscan :: rows, o =>
    (pngwrite lib o buf (dataoff + nscan * nx)).bind (writeScanlines buf dataoff nx rows)

/-- The loop over scan lines has no end for an image of width 0. -/
def goesNext (s : State) : Flow :=
  if s.v.prodCompressed then .go s.copyCompressed
  else if s.asm.pdb.nx = 0 ∧ s.inp.pdh.dbsize > 0 then .exit .hang s
  else
    match writeScanlines lib s.inp.buf s.v.dataoff s.asm.pdb.nx
        (scanlines s.asm.pdb.nx s.inp.pdh.dbsize s.inp.pdh.recordsPerBlock) s.asm.out with
    | none => .exit .fault s
    | some out => .go (s.setOut out)

def goesData (pfrag : Datastore) (s : State) : Flow :=
  (if pfrag.fragnum > 0 then
    match s.asm.prod.frags.getLast? with
    | none => .exit .fault s
    | some tail =>
      if s.asm.tailLives tail = false then .exit .fault s
      else if s.asm.prod.missing tail pfrag then .exit (.again .goesSeq) s.reset
      else if s.asm.pnginit = false ∧ s.v.prodCompressed = false then .exit (.again .pngInit) s
      else goesNext lib s
  else goesFirst lib s).bind fun s => .go { s with v := { s.v with deflen := 0 } }

/-- The `while (datalen > 4)` loop. -/
def stripTrailers (buf : Buffer) (dataoff : Nat) : Nat → Nat
  | n + 5 =>
    if load buf (dataoff + (n + 1)) 4 = fosTrailer then stripTrailers buf dataoff (n + 1) else n + 5
  | n => n

def Prodstore.completedBy (prod : Prodstore) (pfrag : Datastore) : Bool :=
  prod.nfrag = 0 ∨ prod.nfrag = pfrag.fragnum + 1

/-- Only the last block loses its FOS trailers. -/
def State.strippedLen (s : State) (pfrag : Datastore) : Nat :=
  if s.asm.prod.completedBy pfrag then stripTrailers s.inp.buf s.v.dataoff s.v.datalen
  else s.v.datalen

def State.setDatalen (s : State) (datalen : Nat) : State := { s with v := { s.v with datalen } }

def nwstgCopy (pfrag : Datastore) (s : State) : Flow :=
  let s := s.setDatalen (s.strippedLen pfrag)
  if s.v.heapcount + s.v.datalen > s.v.heapsize then .exit (.again .punt) s
  else
    .go { s.setOut (s.asm.out.append s.v.heapcount s.block) with
      v := { s.v with deflen := s.v.datalen } }

def nwstgData (pfrag : Datastore) (s : State) : Flow :=
  match s.asm.prod.frags.getLast? with
  | none => nwstgCopy pfrag s
  | some tail =>
    if s.asm.prod.nfrag = 0 then nwstgCopy pfrag s
    else if s.asm.tailLives tail = false then .exit .fault s
    else if s.asm.prod.missing tail pfrag then .exit (.again .nwstgSeq) s.reset
    else nwstgCopy pfrag s

/-- `prod.tail->next = pfrag`. -/
def link (pfrag : Datastore) (s : State) : Flow :=
  let frags := s.asm.prod.frags ++ [{ pfrag with recsiz := s.v.deflen }]
  let linked := { s with
    v := { s.v with heapcount := s.v.heapcount + s.v.deflen }
    asm := { s.asm with prod := { s.asm.prod with frags } } }
  match s.asm.prod.frags.getLast? with
  | none => .go linked
  | some tail => if s.asm.tailLives tail then .go linked else .exit .fault s

/-- A GOES product is as long as what `png_io.c` has put out. -/
def goesEnd (s : State) : Flow :=
  if s.asm.pnginit then
    match pngoutEnd lib s.asm.out with
    | none => .exit .fault s
    | some out =>
      let r := pngGetProdlen out
      .go { s.setOut r.2 with v := { s.v with heapcount := r.1 } }
  else .go s

/-- Text that is not ASCII becomes HDS. -/
def hdsCheck (mem : Mem UInt8) (heapcount : Nat) (sbn : Sbn) (psh : Psh) : Psh :=
  if sbn.datastream = 5 ∧ (psh.pcat = 1 ∨ psh.pcat = 7) ∧ prodIsascii mem heapcount = false then
    { psh with pcat := psh.pcat + 100 }
  else psh

def nwstgEnd (s : State) : State :=
  if s.v.heapcount > 4 then
    let psh := hdsCheck s.asm.out.memheap.mem s.v.heapcount s.inp.sbn s.asm.psh
    { s with
      v := { s.v with heapcount := s.v.heapcount + 4 }
      asm := { s.asm with psh, out := s.asm.out.append s.v.heapcount fosTrailer } }
  else s

def State.call (s : State) : Call where
  prod := s.asm.prod
  prodName := s.v.prodName
  heap := load s.asm.out.memheap.mem 0 s.v.heapcount
  md5 := s.asm.out.md5
  psh := s.asm.psh
  sbn := s.inp.sbn

/-- `process_prod` and what follows it. -/
def State.process (s : State) : State :=
  let r := processProd lib s.asm.prod s.v.prodName s.asm.out.memheap.mem s.v.heapcount
    s.asm.out.md5 s.asm.psh s.inp.sbn
  { s with
    v := { s.v with prodName := r.prodName }
    asm := { s.asm.unlink with
      psh := r.psh
      pnginit := false
      calls := s.asm.calls ++ [s.call]
      inserts := s.asm.inserts ++ r.inserted.toList } }

def finish (pfrag : Datastore) (s : State) : Flow :=
  if s.asm.prod.completedBy pfrag then
    (if s.v.goes then goesEnd lib s else .go s).bind fun s =>
      .go ((if s.v.nwstg then nwstgEnd s else s).process lib)
  else .go s

/-- From "Get the data" to the end of the body. -/
def data (s : State) : Flow :=
  let pfrag := s.newFrag lib
  let s := s.getData lib
  (if s.v.goes then goesData lib pfrag s else nwstgData pfrag s).bind fun s =>
    (link pfrag s).bind (finish lib pfrag)

end Data

section Loop
variable (p : Program) (lib : Library)

def iteration (s : State) : Flow := (front p lib s).bind (data lib)

/-- How an iteration ended after which the loop goes on. -/
inductive Event where
  | taken
  | skipped (r : Reason)
  deriving DecidableEq

/-- Variables declared in the body hold anything when the next iteration begins. -/
def Step (s : State) (e : Event) (t : State) : Prop :=
  ∃ s', (iteration p lib s = .go s' ∧ e = .taken ∨
      ∃ r, iteration p lib s = .exit (.again r) s' ∧ e = .skipped r) ∧
    t = { s' with v := t.v } ∧ (p.keepsVars → t.v = s'.v)

/-- Up to `n` iterations with all variables kept; what does not go on stays. -/
def iterate : Nat → State → State
  | 0, s => s
  | n + 1, s =>
    match iteration p lib s with
    | .go t => iterate n t
    | .exit (.again _) t => iterate n t
    | .exit _ _ => s

theorem iterate_guarded {C : State → Prop} {n : Nat} {s : State} (hc : ∀ k < n, C (iterate p lib k s)) :
    ∃ es, Trace (Guarded C (Step p lib)) s es (iterate p lib n s) := by
  induction n generalizing s with
  | zero => exact ⟨[], .nil s⟩
  | succ n ih =>
    have hfirst : C s := hc 0 n.succ_pos
    have hrest (k : Nat) (hk : k < n) := hc (k + 1) (Nat.succ_lt_succ hk)
    simp only [iterate] at hrest ⊢
    split at hrest
    · next t ht =>
      obtain ⟨es, h⟩ := ih hrest
      exact ⟨_, .cons ⟨hfirst, t, .inl ⟨ht, rfl⟩, rfl, fun _ => rfl⟩ h⟩
    · next r t ht =>
      obtain ⟨es, h⟩ := ih hrest
      exact ⟨_, .cons ⟨hfirst, t, .inr ⟨r, ht, rfl⟩, rfl, fun _ => rfl⟩ h⟩
    · exact ⟨[], .nil s⟩

theorem iterate_trace (n : Nat) (s : State) : ∃ es, Trace (Step p lib) s es (iterate p lib n s) := by
  obtain ⟨es, h⟩ := iterate_guarded (C := fun _ => True) (n := n) (s := s) p lib fun _ _ => trivial
  exact ⟨es, h.unguarded⟩

/-- Where the variables are kept the next state is the one of `iterate`. -/
theorem Step.eq_iterate {s t : State} {e : Event} (hk : p.keepsVars = true) (h : Step p lib s e t) :
    t = iterate p lib 1 s := by
  obtain ⟨s', hs, ht, hvars⟩ := h
  rw [hvars hk] at ht
  subst ht
  obtain ⟨hit, -⟩ | ⟨r, hit, -⟩ := hs <;> simp only [iterate, hit]

theorem iterate_succ (n : Nat) (s : State) :
    iterate p lib (n + 1) s = iterate p lib 1 (iterate p lib n s) := by
  induction n generalizing s with
  | zero => rfl
  | succ n ih =>
    have hgo (t : State) (h : ∀ m, iterate p lib (m + 1) s = iterate p lib m t) :
        iterate p lib (n + 1 + 1) s = iterate p lib 1 (iterate p lib (n + 1) s) := by
      rw [h, h, ih]
    cases hit : iteration p lib s with
    | go t => exact hgo t fun m => by simp only [iterate, hit]
    | exit e t =>
      cases e with
      | again r => exact hgo t fun m => by simp only [iterate, hit]
      | _ => simp only [iterate, hit]

/-- Before the first iteration: no product, no heap; the rest is indeterminate. -/
structure Initial (s : State) : Prop where
  frags : s.asm.prod.frags = []
  pnginit : s.asm.pnginit = false
  pool : s.asm.dataheap = { allocated := false, gen := 0, nextfrag := 0, maxfrags := 1000 }
  heap : s.asm.out.memheap.allocated = false ∧ s.asm.out.memheap.largestsiz = 0
  writer : s.asm.out.png.ptr = none
  calls : s.asm.calls = [] ∧ s.asm.inserts = [] ∧ s.asm.out.pngLog = []

theorem State.fresh_initial (rest : List UInt8) (v : LoopVars) : Initial (State.fresh rest v) :=
  ⟨rfl, rfl, rfl, ⟨rfl, rfl⟩, rfl, ⟨rfl, rfl, rfl⟩⟩

end Loop
end Noaaport
