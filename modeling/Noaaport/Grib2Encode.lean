import Noaaport.Grib2Fields

/-! The functions of the GRIB2 library that put a message together: `g2_create`, `g2_addlocal`,
`g2_addgrid`, `g2_addfield` and `g2_gribend`. A call that does not return is `none`. -/
namespace Noaaport.G2
open Lib

def packMap (cgrib : Cgrib) (iofst : Nat) : List Nat → List Int → Cgrib
  | octets :: rest, v :: vs => packMap (sbit cgrib v iofst (octets * 8)) (iofst + octets * 8) rest vs
  | _, _ => cgrib

/-- The total length, in Section 0. -/
def setLength (cgrib : Cgrib) (len : Nat) : Cgrib := sbit cgrib len 96 32
def lencurr (cgrib : Cgrib) : Nat := (gbit cgrib 96 32).toNat

/-- The number of a section that begins at a bit, and its length once its end is known. -/
def beginSection (cgrib : Cgrib) (ibeg : Nat) (num : Int) : Cgrib := sbit cgrib num (ibeg + 32) 8
def endSection (cgrib : Cgrib) (ibeg iofst : Nat) : Cgrib := sbit cgrib ((iofst - ibeg) / 8 : Nat) ibeg 32

def g2_create (cgrib : Cgrib) (listsec0 listsec1 : List Int) : Cgrib × Int :=
  if listsec0.getD 1 0 ≠ 2 then (cgrib, -1)
  else
    let cgrib := store cgrib 0 [71, 82, 73, 66]
    let cgrib := sbit cgrib 0 32 16
    let cgrib := sbit cgrib (listsec0.getD 0 0) 48 8
    let cgrib := sbit cgrib (listsec0.getD 1 0) 56 8
    let ibeg := 16 * 8
    let cgrib := beginSection cgrib ibeg 1
    let cgrib := packMap cgrib (ibeg + 40) mapsec1 listsec1
    let iofst := ibeg + 40 + mapsec1.sum * 8
    let cgrib := endSection cgrib ibeg iofst
    let cgrib := sbit cgrib 0 64 32
    let len := 16 + (iofst - ibeg) / 8
    (setLength cgrib len, len)

/-- What the loop over the sections there are remembers for `g2_addfield`: a grid, and a bitmap that
is in the message or predefined. -/
structure Seen where
  issec3 : Bool
  isprevbmap : Bool
deriving DecidableEq, Repr

def Seen.see (seen : Seen) (cgrib : Cgrib) (len : Nat) : Seen :=
  if isecnum cgrib len = 3 then { seen with issec3 := true }
  else if isecnum cgrib len = 6 ∧ gbit cgrib (len * 8 + 40) 8 ≤ 253 then { seen with isprevbmap := true }
  else seen

def sumTurn (cgrib : Cgrib) (lencurr len : Nat) (seen : Seen) : Turn Seen (Except Int (Nat × Seen)) :=
  let seen := seen.see cgrib len
  if len + lensec cgrib len = lencurr then .out (.ok (isecnum cgrib len, seen))
  else if len + lensec cgrib len > lencurr then .out (.error (-3))
  else .on (lensec cgrib len) seen

/-- The number of the last section. -/
def lastSection (fuel : Nat) (cgrib : Cgrib) : Option (Except Int (Nat × Seen)) :=
  walk (sumTurn cgrib (lencurr cgrib)) fuel 16 ⟨false, false⟩

/-- The checks that `g2_addlocal`, `g2_addgrid` and `g2_addfield` begin with. -/
def openMessage (fuel : Nat) (cgrib : Cgrib) : Option (Except Int (Nat × Seen)) :=
  if isGrib cgrib 0 = false then some (.error (-1))
  else if sevens cgrib (lencurr cgrib - 4) then some (.error (-2))
  else lastSection fuel cgrib

def g2_addlocal (fuel : Nat) (cgrib : Cgrib) (csec2 : List UInt8) : Option (Cgrib × Int) :=
  match openMessage fuel cgrib with
  | none => none
  | some (.error ierr) => some (cgrib, ierr)
  | some (.ok last) =>
    if last.1 ≠ 1 ∧ last.1 ≠ 7 then some (cgrib, -4)
    else
      let len := lencurr cgrib
      let ibeg := len * 8
      let cgrib := beginSection cgrib ibeg 2
      let cgrib := store cgrib (len + 5) csec2
      let iofst := ibeg + 40 + csec2.length * 8
      let cgrib := endSection cgrib ibeg iofst
      let newlen := len + (iofst - ibeg) / 8
      some (setLength cgrib newlen, newlen)

/-- Section 3 up to its template; `igds`, `igdstmpl` and `ideflist` are a grid. -/
def gridHead (cgrib : Cgrib) (ibeg : Nat) (g : Grid) : Cgrib :=
  let cgrib := beginSection cgrib ibeg 3
  let cgrib := sbit cgrib g.griddef (ibeg + 40) 8
  let cgrib := sbit cgrib g.ngrdpts (ibeg + 48) 32
  let cgrib := sbit cgrib g.numoct_opt (ibeg + 80) 8
  let cgrib := sbit cgrib g.interp_opt (ibeg + 88) 8
  sbit cgrib (if g.griddef = 0 then g.igdtnum else 65535) (ibeg + 96) 16

/-- The template of a grid that has none of its own is taken through a null pointer. -/
def g2_addgrid (fuel : Nat) (cgrib : Cgrib) (g : Grid) : Option (Cgrib × Int) :=
  match openMessage fuel cgrib with
  | none => none
  | some (.error ierr) => some (cgrib, ierr)
  | some (.ok last) =>
    if last.1 ≠ 1 ∧ last.1 ≠ 2 ∧ last.1 ≠ 7 then some (cgrib, -4)
    else
      let len := lencurr cgrib
      let ibeg := len * 8
      let cgrib := gridHead cgrib ibeg g
      if g.griddef ≠ 0 then none
      else
        match getgridtemplate g.igdtnum with
        | none => some (cgrib, -5)
        | some mapgrid =>
          let map := mapOf extgridtemplate mapgrid g.igdtmpl
          let cgrib := packEntries cgrib (ibeg + 112) map g.igdtmpl
          let iofst := ibeg + 112 + octets map * 8
          let nbits := (g.numoct_opt * 8).toNat
          let cgrib := if g.numoct_opt ≠ 0 then sbits cgrib iofst nbits 0 g.list_opt else cgrib
          let iofst := if g.numoct_opt ≠ 0 then iofst + nbits * g.list_opt.length else iofst
          let cgrib := endSection cgrib ibeg iofst
          let newlen := len + (iofst - ibeg) / 8
          some (setLength cgrib newlen, newlen)

/-- What `g2_addfield` is given. The coordinates are the words of `mkieee`; `packed` is what the packing
of `idrsnum` makes of the data: its template and its bytes, or the code it fails with. -/
structure FieldSpec where
  ipdsnum : Int
  ipdstmpl : List Int
  coordlist : List Int
  idrsnum : Int
  ngrdpts : Nat
  ibmap : Int
  bmap : List Int
  packed : Except Int (List Int × List UInt8)

/-- The points that are packed. -/
def FieldSpec.ndpts (f : FieldSpec) : Nat :=
  if f.ibmap = 0 ∨ f.ibmap = 254 then (f.bmap.take f.ngrdpts).countP (fun b => b = 1) else f.ngrdpts

/-- Section 4 up to its template. -/
def productHead (cgrib : Cgrib) (ibeg : Nat) (f : FieldSpec) : Cgrib :=
  let cgrib := beginSection cgrib ibeg 4
  let cgrib := sbit cgrib f.coordlist.length (ibeg + 40) 16
  sbit cgrib f.ipdsnum (ibeg + 56) 16

/-- The Sections 4 to 7 at bit `ibeg`, each with the bit behind it. -/
def section4 (cgrib : Cgrib) (ibeg : Nat) (f : FieldSpec) (mappds : Gtemplate) : Cgrib × Nat :=
  let cgrib := productHead cgrib ibeg f
  let map := mapOf extpdstemplate mappds f.ipdstmpl
  let cgrib := packEntries cgrib (ibeg + 72) map f.ipdstmpl
  let iofst := ibeg + 72 + octets map * 8
  let cgrib := sbits cgrib iofst 32 0 f.coordlist
  let iofst := iofst + 32 * f.coordlist.length
  (endSection cgrib ibeg iofst, iofst)

def section5 (cgrib : Cgrib) (ibeg : Nat) (f : FieldSpec) (mapdrs : Gtemplate) (idrstmpl : List Int) :
    Cgrib × Nat :=
  let cgrib := beginSection cgrib ibeg 5
  let cgrib := sbit cgrib f.ndpts (ibeg + 40) 32
  let cgrib := sbit cgrib f.idrsnum (ibeg + 72) 16
  let cgrib := packEntries cgrib (ibeg + 88) mapdrs.map idrstmpl
  let iofst := ibeg + 88 + octets mapdrs.map * 8
  (endSection cgrib ibeg iofst, iofst)

/-- Section 6 before its last byte is filled up. -/
def bitmap (cgrib : Cgrib) (ibeg : Nat) (f : FieldSpec) : Cgrib :=
  let cgrib := beginSection cgrib ibeg 6
  let cgrib := sbit cgrib f.ibmap (ibeg + 40) 8
  if f.ibmap = 0 then sbits cgrib (ibeg + 48) 1 0 (f.bmap.take f.ngrdpts) else cgrib

def section6 (cgrib : Cgrib) (ibeg : Nat) (f : FieldSpec) : Cgrib × Nat :=
  let cgrib := bitmap cgrib ibeg f
  let iofst := if f.ibmap = 0 then ibeg + 48 + f.ngrdpts else ibeg + 48
  let left := 8 - iofst % 8
  let cgrib := if left ≠ 8 then sbit cgrib 0 iofst left else cgrib
  let iofst := if left ≠ 8 then iofst + left else iofst
  (endSection cgrib ibeg iofst, iofst)

def section7 (cgrib : Cgrib) (ibeg : Nat) (cpack : List UInt8) : Cgrib × Nat :=
  let cgrib := beginSection cgrib ibeg 7
  let cgrib := store cgrib ((ibeg + 40) / 8) cpack
  let iofst := ibeg + 40 + 8 * cpack.length
  (endSection cgrib ibeg iofst, iofst)

/-- None also where the extension of the template is not stored inside its block. -/
def g2_addfield (fuel : Nat) (cgrib : Cgrib) (f : FieldSpec) : Option (Cgrib × Int) :=
  match openMessage fuel cgrib with
  | none => none
  | some (.error ierr) => some (cgrib, ierr)
  | some (.ok last) =>
    if last.1 ≠ 3 ∧ last.1 ≠ 7 then some (cgrib, -4)
    else if last.2.issec3 = false then some (cgrib, -6)
    else
      let len := lencurr cgrib
      match getpdstemplate f.ipdsnum with
      | none => some (productHead cgrib (len * 8) f, -5)
      | some mappds =>
        if mappds.faults f.ipdstmpl then none
        else
          let four := section4 cgrib (len * 8) f mappds
          match getdrstemplate f.idrsnum with
          | none => some (four.1, -5)
          | some mapdrs =>
            match f.packed with
            | .error ierr => some (four.1, ierr)
            | .ok packed =>
              let five := section5 four.1 four.2 f mapdrs packed.1
              if f.ibmap = 254 ∧ last.2.isprevbmap = false then some (bitmap five.1 five.2 f, -8)
              else
                let six := section6 five.1 five.2 f
                let seven := section7 six.1 six.2 packed.2
                let newlen := len + (four.2 - len * 8) / 8 + (five.2 - four.2) / 8 + (six.2 - five.2) / 8 +
                  (seven.2 - six.2) / 8
                some (setLength seven.1 newlen, newlen)

def g2_gribend (fuel : Nat) (cgrib : Cgrib) : Option (Cgrib × Int) :=
  if isGrib cgrib 0 = false then some (cgrib, -1)
  else
    match lastSection fuel cgrib with
    | none => none
    | some (.error ierr) => some (cgrib, ierr)
    | some (.ok last) =>
      if last.1 ≠ 7 then some (cgrib, -4)
      else
        let len := lencurr cgrib
        let cgrib := store cgrib len [55, 55, 55, 55]
        some (setLength cgrib (len + 4), len + 4)

end Noaaport.G2
