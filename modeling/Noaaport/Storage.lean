import Noaaport.Naming

/-! Where a product is put together: the fragment pool and `prodalloc` of
`process_prod.c`, `png_io.c`, and what `process_prod` makes of the result. -/
namespace Noaaport
open Lib

/-- The array `dataheap`; `gen` counts the times it has moved. -/
structure Dataheap where
  allocated : Bool
  gen : Nat
  nextfrag : Nat
  maxfrags : Nat
  deriving DecidableEq

/-- A `datastore`, with the array and the index its address is made of. -/
structure Datastore where
  gen : Nat
  slot : Nat
  seqno : Int
  fragnum : Nat
  offset : Nat
  recsiz : Nat
  deriving DecidableEq

/-- `frags` is the list from `head` to `tail`. -/
structure Prodstore where
  seqno : Int
  nfrag : Nat
  frags : List Datastore
  deriving DecidableEq

section Pool
variable (lib : Library) (d : Dataheap)

def Dataheap.grow (maxfrags : Nat) : Dataheap :=
  { d with maxfrags, gen := if lib.fragsMove maxfrags then d.gen + 1 else d.gen }

def dsInit (nfrags : Nat) : Dataheap :=
  let d := { d with allocated := true }
  let d := if nfrags ≥ d.maxfrags then d.grow lib (nfrags + 1) else d
  { d with nextfrag := 0 }

/-- The slot handed out and the pool after it. -/
def dsAlloc : Nat × Dataheap :=
  let d := if d.allocated then d else dsInit lib d d.maxfrags
  let d := if d.nextfrag ≥ d.maxfrags then d.grow lib (d.maxfrags + 1000) else d
  (d.nextfrag, { d with nextfrag := d.nextfrag + 1 })

def dsFree : Dataheap := { d with nextfrag := 0 }

end Pool

/-- `memheap` and `largestsiz`; `id` counts the times the block has moved. What
`malloc` hands out holds whatever it holds. -/
structure Memheap where
  allocated : Bool
  id : Nat
  largestsiz : Nat
  mem : Mem UInt8

def prodalloc (lib : Library) (nfrags dbsize : Nat) (h : Memheap) : Nat × Memheap :=
  let nfrags := if nfrags = 0 then 1 else nfrags
  let bsize := nfrags * dbsize + 32
  if h.allocated = false then (bsize, { h with allocated := true, largestsiz := bsize })
  else if bsize > h.largestsiz then
    (bsize, { h with
      largestsiz := bsize
      id := if lib.heapMoves bsize then h.id + 1 else h.id })
  else (bsize, h)

theorem prodalloc_fst (lib : Library) (nfrags dbsize : Nat) (h : Memheap) :
    (prodalloc lib nfrags dbsize h).1 = (if nfrags = 0 then 1 else nfrags) * dbsize + 32 := by
  unfold prodalloc
  simp only
  split_ifs <;> rfl

/-- The globals of `png_io.c`. -/
structure Png where
  ptr : Option PngStruct
  prodmap : Nat
  prodoff : Nat
  deriving DecidableEq

/-- What a call of `png_io.c` did to which product: by number, the product under
way, and the one the writer was opened for or `prodmap` was set for; whether
the product under way is an image to be encoded. -/
inductive PngEvent where
  | init (product : Nat) (wasOpen : Bool)
  | finish (product opened : Nat)
  | prodlen (product mapped : Nat) (image : Bool)
  deriving DecidableEq

/-- Everything the bytes of a product go to. From `product` on it is for the
record: no code reads it. -/
structure Output where
  memheap : Memheap
  md5 : List UInt8
  png : Png
  product : Nat
  image : Bool
  opened : Nat
  mapped : Nat
  pngLog : List PngEvent

section PngIo
variable (lib : Library) (o : Output)

/-- `none`: a store into a block that `realloc` has moved. -/
def pngHeader (bs : List UInt8) : Option Output :=
  if o.png.prodmap = o.memheap.id then
    some { o with
      memheap := { o.memheap with mem := store o.memheap.mem o.png.prodoff bs }
      md5 := o.md5 ++ bs
      png := { o.png with prodoff := o.png.prodoff + bs.length } }
  else none

def pngSetMemheap : Output :=
  { o with png := { o.png with prodmap := o.memheap.id, prodoff := 0 }, mapped := o.product }

def pngoutInit (width height : Nat) : Option Output :=
  pngHeader
    { o with
      png := { o.png with ptr := some { width, height, rows := [] } }
      opened := o.product
      pngLog := o.pngLog ++ [.init o.product o.png.ptr.isSome] }
    (lib.pngWriteInfo width height)

/-- `none`: no writer, or libpng gave up. -/
def pngwrite (buf : Buffer) (a : Nat) : Option Output :=
  match o.png.ptr with
  | none => none
  | some p =>
    let row := load buf a p.width
    match lib.pngWriteRow p row with
    | none => none
    | some bs =>
      pngHeader
        { o with png := { o.png with ptr := some { p with rows := p.rows ++ [row] } } } bs

def Output.destroyWriter : Output :=
  { o with
    png := { o.png with ptr := none }
    pngLog := o.pngLog ++ [.finish o.product o.opened] }

def pngoutEnd : Option Output :=
  match o.png.ptr with
  | none => none
  | some p =>
    if lib.haveIdat p then
      match lib.pngWriteEnd p with
      | none => none
      | some bs => (pngHeader o bs).map Output.destroyWriter
    else some o.destroyWriter

def pngGetProdlen : Nat × Output :=
  (o.png.prodoff, { o with pngLog := o.pngLog ++ [.prodlen o.product o.mapped o.image] })

end PngIo

/-- `size_t` subtraction. -/
def sub64 (m n : Nat) : Nat := (m + 2 ^ 64 - n) % 2 ^ 64

/-- `prod_isascii`: one character, then the step that leaves out the middle. -/
def asciiAt (prod : Mem UInt8) (psize i : Nat) : Bool :=
  let c := (prod i).toNat
  if c < 32 ∨ 127 < c then
    if c = 3 ∧ i < sub64 psize 9 then false
    else if c ≠ 0 ∧ c ≠ 30 ∧ c ≠ 10 ∧ c ≠ 13 then false
    else true
  else true

def asciiFrom (prod : Mem UInt8) (psize : Nat) : Nat → Nat → Bool
  | 0, _ => true
  | fuel + 1, i =>
    if i < sub64 psize 1 then
      if asciiAt prod psize i then
        let i := i + 1
        asciiFrom prod psize fuel (if i > 100 ∧ i < sub64 psize 101 then sub64 psize 101 else i)
      else false
    else true

def prodIsascii (prod : Mem UInt8) (psize : Nat) : Bool := asciiFrom prod psize psize 1

inductive Feedtype where
  | text | hds | ngrid | nother | nexrad | nimage
  deriving DecidableEq

/-- What goes to `lpqInsert`; the signature is the MD5 of `md5`. -/
structure Product where
  feedtype : Feedtype
  seqno : Int
  ident : Text
  data : List UInt8
  md5 : List UInt8
  deriving DecidableEq

/-- The arguments of a call of `process_prod`. -/
structure Call where
  prod : Prodstore
  prodName : Text
  heap : List UInt8
  md5 : List UInt8
  psh : Psh
  sbn : Sbn
  deriving DecidableEq

def feedtype (psh : Psh) (sbn : Sbn) : Feedtype :=
  if sbn.datastream = 6 then
    if psh.ptype = 1 ∨ psh.ptype = 2 ∨ psh.ptype = 3 then .nimage
    else if psh.ptype = 4 then .ngrid
    else .nother
  else if psh.ptype < 4 then .nimage
  else if psh.pcat = 1 ∨ psh.pcat = 7 then .text
  else if psh.pcat = 101 ∨ psh.pcat = 107 then .hds
  else if psh.pcat = 2 ∨ psh.pcat = 4 ∨ psh.pcat = 5 then .hds
  else if psh.pcat = 99 then .nexrad
  else .nother

def isGrib2 (mem : Mem UInt8) (heapsize : Nat) (psh : Psh) : Bool :=
  psh.metadata = ascii " !grib2/" ∧ psh.metaoff > 0 ∧
    psh.metaoff.toNat < sub64 heapsize 16 ∧
    load mem psh.metaoff.toNat 4 = ascii "GRIB"

def gribName (lib : Library) (mem : Mem UInt8) (heapsize : Nat) (prodName : Text) (psh : Psh) :
    Text × Psh :=
  if isGrib2 mem heapsize psh then
    let lengrib := (be32 mem (psh.metaoff.toNat + 12) % 2 ^ 64).toNat
    let r := lib.grib2name mem psh.metaoff.toNat lengrib prodName (psh.metadata.drop 2)
    (r.1, { psh with metadata := psh.metadata.take 2 ++ r.2 })
  else (prodName, psh)

structure Processed where
  prodName : Text
  psh : Psh
  inserted : Option Product

def processProd (lib : Library) (nprod : Prodstore) (prodName : Text) (mem : Mem UInt8)
    (heapsize : Nat) (md5 : List UInt8) (psh : Psh) (sbn : Sbn) : Processed :=
  let named := gribName lib mem heapsize prodName psh
  let ident := named.1 ++ named.2.metadata
  { prodName := named.1
    psh := named.2
    inserted :=
      if heapsize = 0 then none
      else some
        { feedtype := feedtype named.2 sbn
          seqno := nprod.seqno
          ident := if ident = [] then ascii "_NOHEAD" else ident
          data := load mem 0 heapsize
          md5 } }

end Noaaport
