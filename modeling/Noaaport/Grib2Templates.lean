import Mathlib.Data.List.Forall2
import Noaaport.Grib2Info

/-! `gridtemplates.c`, `pdstemplates.c` and `drstemplates.c` of the GRIB2 library: the tables of
templates, how a template is extended by its own entries, and how entries are packed. -/
namespace Noaaport.G2
open Lib

/-- A row of a table. A map entry is a number of octets, negative where the value has a sign. -/
structure TemplateRow where
  template_num : Nat
  maplen : Nat
  needext : Bool
  map : List Int
deriving DecidableEq, Repr

def templatesgrid : List TemplateRow := [
  ⟨0, 19, false, [1, 1, 4, 1, 4, 1, 4, 4, 4, 4, 4, -4, 4, 1, -4, 4, 4, 4, 1]⟩,
  ⟨1, 22, false, [1, 1, 4, 1, 4, 1, 4, 4, 4, 4, 4, -4, 4, 1, -4, 4, 4, 4, 1, -4, 4, 4]⟩,
  ⟨2, 22, false, [1, 1, 4, 1, 4, 1, 4, 4, 4, 4, 4, -4, 4, 1, -4, 4, 4, 4, 1, -4, 4, -4]⟩,
  ⟨3, 25, false, [1, 1, 4, 1, 4, 1, 4, 4, 4, 4, 4, -4, 4, 1, -4, 4, 4, 4, 1, -4, 4, 4, -4, 4, -4]⟩,
  ⟨10, 19, false, [1, 1, 4, 1, 4, 1, 4, 4, 4, -4, 4, 1, -4, -4, 4, 1, 4, 4, 4]⟩,
  ⟨20, 18, false, [1, 1, 4, 1, 4, 1, 4, 4, 4, -4, 4, 1, -4, 4, 4, 4, 1, 1]⟩,
  ⟨30, 22, false, [1, 1, 4, 1, 4, 1, 4, 4, 4, -4, 4, 1, -4, 4, 4, 4, 1, 1, -4, -4, -4, 4]⟩,
  ⟨31, 22, false, [1, 1, 4, 1, 4, 1, 4, 4, 4, -4, 4, 1, -4, 4, 4, 4, 1, 1, -4, -4, -4, 4]⟩,
  ⟨40, 19, false, [1, 1, 4, 1, 4, 1, 4, 4, 4, 4, 4, -4, 4, 1, -4, 4, 4, 4, 1]⟩,
  ⟨41, 22, false, [1, 1, 4, 1, 4, 1, 4, 4, 4, 4, 4, -4, 4, 1, -4, 4, 4, 4, 1, -4, 4, 4]⟩,
  ⟨42, 22, false, [1, 1, 4, 1, 4, 1, 4, 4, 4, 4, 4, -4, 4, 1, -4, 4, 4, 4, 1, -4, 4, -4]⟩,
  ⟨43, 25, false, [1, 1, 4, 1, 4, 1, 4, 4, 4, 4, 4, -4, 4, 1, -4, 4, 4, 4, 1, -4, 4, 4, -4, 4, -4]⟩,
  ⟨50, 5, false, [4, 4, 4, 1, 1]⟩,
  ⟨51, 8, false, [4, 4, 4, 1, 1, -4, 4, 4]⟩,
  ⟨52, 8, false, [4, 4, 4, 1, 1, -4, 4, -4]⟩,
  ⟨53, 11, false, [4, 4, 4, 1, 1, -4, 4, 4, -4, 4, -4]⟩,
  ⟨90, 21, false, [1, 1, 4, 1, 4, 1, 4, 4, 4, -4, 4, 1, 4, 4, 4, 4, 1, 4, 4, 4, 4]⟩,
  ⟨100, 11, false, [1, 1, 2, 1, -4, 4, 4, 1, 1, 1, 4]⟩,
  ⟨110, 16, false, [1, 1, 4, 1, 4, 1, 4, 4, 4, -4, 4, 1, 4, 4, 1, 1]⟩,
  ⟨120, 7, true, [4, 4, -4, 4, 4, 4, 1]⟩,
  ⟨204, 19, false, [1, 1, 4, 1, 4, 1, 4, 4, 4, 4, 4, -4, 4, 1, -4, 4, 4, 4, 1]⟩,
  ⟨32768, 19, false, [1, 1, 4, 1, 4, 1, 4, 4, 4, 4, 4, -4, 4, 1, -4, 4, 4, 4, 1]⟩,
  ⟨1000, 20, true, [1, 1, 4, 1, 4, 1, 4, 4, 4, 4, -4, 4, 1, 4, 4, 1, 2, 1, 1, 2]⟩,
  ⟨1100, 28, false, [1, 1, 4, 1, 4, 1, 4, 4, 4, 4, -4, 4, 1, -4, 4, 1, 4, 1, -4, 1, 1, -4, 2, 1, 1, 1, 1, 1]⟩,
  ⟨1200, 16, true, [4, 1, -4, 1, 1, -4, 2, 1, 1, 1, 1, 1, 2, 1, 1, 2]⟩]

def templatespds : List TemplateRow := [
  ⟨0, 15, false, [1, 1, 1, 1, 1, 2, 1, 1, 4, 1, -1, -4, 1, -1, -4]⟩,
  ⟨1, 18, false, [1, 1, 1, 1, 1, 2, 1, 1, 4, 1, -1, -4, 1, -1, -4, 1, 1, 1]⟩,
  ⟨2, 17, false, [1, 1, 1, 1, 1, 2, 1, 1, 4, 1, -1, -4, 1, -1, -4, 1, 1]⟩,
  ⟨3, 31, true, [1, 1, 1, 1, 1, 2, 1, 1, 4, 1, -1, -4, 1, -1, -4, 1, 1, 1, 1, 1, 1, 1, -4, -4, 4,
      4, 1, -1, 4, -1, 4]⟩,
  ⟨4, 30, true, [1, 1, 1, 1, 1, 2, 1, 1, 4, 1, -1, -4, 1, -1, -4, 1, 1, 1, 1, 1, 1, 1, -4, 4, 4, 1,
      -1, 4, -1, 4]⟩,
  ⟨5, 22, false, [1, 1, 1, 1, 1, 2, 1, 1, 4, 1, -1, -4, 1, -1, -4, 1, 1, 1, -1, -4, -1, -4]⟩,
  ⟨6, 16, false, [1, 1, 1, 1, 1, 2, 1, 1, 4, 1, -1, -4, 1, -1, -4, 1]⟩,
  ⟨7, 15, false, [1, 1, 1, 1, 1, 2, 1, 1, 4, 1, -1, -4, 1, -1, -4]⟩,
  ⟨8, 29, true, [1, 1, 1, 1, 1, 2, 1, 1, 4, 1, -1, -4, 1, -1, -4, 2, 1, 1, 1, 1, 1, 1, 4, 1, 1, 1, 4, 1, 4]⟩,
  ⟨9, 36, true, [1, 1, 1, 1, 1, 2, 1, 1, 4, 1, -1, -4, 1, -1, -4, 1, 1, 1, -1, -4, -1, -4, 2, 1, 1,
      1, 1, 1, 1, 4, 1, 1, 1, 4, 1, 4]⟩,
  ⟨10, 30, true, [1, 1, 1, 1, 1, 2, 1, 1, 4, 1, -1, -4, 1, -1, -4, 1, 2, 1, 1, 1, 1, 1, 1, 4, 1, 1, 1, 4, 1, 4]⟩,
  ⟨11, 32, true, [1, 1, 1, 1, 1, 2, 1, 1, 4, 1, -1, -4, 1, -1, -4, 1, 1, 1, 2, 1, 1, 1, 1, 1, 1, 4,
      1, 1, 1, 4, 1, 4]⟩,
  ⟨12, 31, true, [1, 1, 1, 1, 1, 2, 1, 1, 4, 1, -1, -4, 1, -1, -4, 1, 1, 2, 1, 1, 1, 1, 1, 1, 4, 1,
      1, 1, 4, 1, 4]⟩,
  ⟨13, 45, true, [1, 1, 1, 1, 1, 2, 1, 1, 4, 1, -1, -4, 1, -1, -4, 1, 1, 1, 1, 1, 1, 1, -4, -4, 4,
      4, 1, -1, 4, -1, 4, 2, 1, 1, 1, 1, 1, 1, 4, 1, 1, 1, 4, 1, 4]⟩,
  ⟨14, 44, true, [1, 1, 1, 1, 1, 2, 1, 1, 4, 1, -1, -4, 1, -1, -4, 1, 1, 1, 1, 1, 1, 1, -4, 4, 4,
      1, -1, 4, -1, 4, 2, 1, 1, 1, 1, 1, 1, 4, 1, 1, 1, 4, 1, 4]⟩,
  ⟨15, 18, false, [1, 1, 1, 1, 1, 2, 1, 1, 4, 1, -1, -4, 1, -1, -4, 1, 1, 1]⟩,
  ⟨20, 19, false, [1, 1, 1, 1, 1, -4, 4, 2, 4, 2, 1, 1, 1, 1, 1, 2, 1, 3, 2]⟩,
  ⟨30, 5, true, [1, 1, 1, 1, 1]⟩,
  ⟨31, 5, true, [1, 1, 1, 1, 1]⟩,
  ⟨254, 3, false, [1, 1, 4]⟩,
  ⟨1000, 9, false, [1, 1, 1, 1, 1, 2, 1, 1, 4]⟩,
  ⟨1001, 16, false, [1, 1, 1, 1, 1, 2, 1, 1, 4, 4, 1, 1, 1, 4, 1, 4]⟩,
  ⟨1002, 15, false, [1, 1, 1, 1, 1, 2, 1, 1, 4, 1, 1, 1, 4, 4, 2]⟩,
  ⟨1100, 15, false, [1, 1, 1, 1, 1, 2, 1, 1, 4, 1, -1, -4, 1, -1, -4]⟩,
  ⟨1101, 22, false, [1, 1, 1, 1, 1, 2, 1, 1, 4, 1, -1, -4, 1, -1, -4, 4, 1, 1, 1, 4, 1, 4]⟩]

def templatesdrs : List TemplateRow := [
  ⟨0, 5, false, [4, -2, -2, 1, 1]⟩,
  ⟨2, 16, false, [4, -2, -2, 1, 1, 1, 1, 4, 4, 4, 1, 1, 4, 1, 4, 1]⟩,
  ⟨3, 18, false, [4, -2, -2, 1, 1, 1, 1, 4, 4, 4, 1, 1, 4, 1, 4, 1, 1, 1]⟩,
  ⟨50, 5, false, [4, -2, -2, 1, 4]⟩,
  ⟨51, 10, false, [4, -2, -2, 1, -4, 2, 2, 2, 4, 1]⟩,
  ⟨40, 7, false, [4, -2, -2, 1, 1, 1, 1]⟩,
  ⟨41, 5, false, [4, -2, -2, 1, 1]⟩,
  ⟨40000, 7, false, [4, -2, -2, 1, 1, 1, 1]⟩,
  ⟨40010, 5, false, [4, -2, -2, 1, 1]⟩]

structure Gtemplate where
  num : Nat
  map : List Int
  needext : Bool
  extlen : Int
  ext : List Int
deriving DecidableEq, Repr

/-- `getgridtemplate`, `getpdstemplate` and `getdrstemplate` over their tables. -/
def gettemplate (table : List TemplateRow) (number : Int) : Option Gtemplate :=
  (table.find? (fun row => (row.template_num : Int) = number)).map
    (fun row => ⟨row.template_num, row.map.take row.maplen, row.needext, 0, []⟩)

def getgridtemplate (number : Int) : Option Gtemplate := gettemplate templatesgrid number
def getpdstemplate (number : Int) : Option Gtemplate := gettemplate templatespds number
def getdrstemplate (number : Int) : Option Gtemplate := gettemplate templatesdrs number

/-- So many copies of some map entries; none for a count that is not positive. -/
def copies (count : Int) (entries : List Int) : List Int := (List.replicate count.toNat entries).flatten

def extgridtemplate (t : Gtemplate) (list : List Int) : Gtemplate :=
  if t.num = 120 then
    { t with extlen := list.getD 1 0 * 2, ext := copies (list.getD 1 0) [2, -2] }
  else if t.num = 1000 then { t with extlen := list.getD 19 0, ext := copies (list.getD 19 0) [4] }
  else if t.num = 1200 then { t with extlen := list.getD 15 0, ext := copies (list.getD 15 0) [4] }
  else t

/-- The last six entries once more for each time range after the first; their count is entry `n`. -/
def extranges (t : Gtemplate) (list : List Int) (n start : Nat) : Gtemplate :=
  if list.getD n 0 > 1 then
    { t with
      extlen := (list.getD n 0 - 1) * 6
      ext := copies (list.getD n 0 - 1) ((t.map.drop start).take 6) }
  else t

/-- The same with a list of ensemble members behind it; the length that is allocated counts the
ranges even where there are none. -/
def extcluster (t : Gtemplate) (list : List Int) (n start members : Nat) : Gtemplate :=
  { t with
    extlen := (list.getD n 0 - 1) * 6 + list.getD members 0
    ext := copies (list.getD n 0 - 1) ((t.map.drop start).take 6) ++ copies (list.getD members 0) [1] }

def extpdstemplate (t : Gtemplate) (list : List Int) : Gtemplate :=
  if t.num = 3 then { t with extlen := list.getD 26 0, ext := copies (list.getD 26 0) [1] }
  else if t.num = 4 then { t with extlen := list.getD 25 0, ext := copies (list.getD 25 0) [1] }
  else if t.num = 8 then extranges t list 21 23
  else if t.num = 9 then extranges t list 28 30
  else if t.num = 10 then extranges t list 22 24
  else if t.num = 11 then extranges t list 24 26
  else if t.num = 12 then extranges t list 23 25
  else if t.num = 13 then extcluster t list 37 39 26
  else if t.num = 14 then extcluster t list 36 38 25
  else if t.num = 30 ∨ t.num = 31 then
    { t with extlen := list.getD 4 0 * 5, ext := copies (list.getD 4 0) [2, 2, 1, 1, 4] }
  else t

/-- The block that `malloc` returns for so many entries: none for a negative number, whose size as a
`size_t` is larger than any block. -/
def malloc (entries : Int) : Option Nat := if entries < 0 then none else some entries.toNat

/-- Where the entries of an extension are stored: in their block, through the null pointer, or so many
of them behind the block. -/
inductive Stored where
  | inside
  | null
  | behind (entries : Nat)
deriving DecidableEq, Repr

def Gtemplate.stored (t : Gtemplate) : Stored :=
  match malloc t.extlen with
  | none => if t.ext = [] then .inside else .null
  | some room => if t.ext.length ≤ room then .inside else .behind (t.ext.length - room)

/-- The octets of some entries. -/
def octets (map : List Int) : Nat := (map.map Int.natAbs).sum

def unpackEntry (cgrib : Cgrib) (iofst : Nat) (m : Int) : Int :=
  if m ≥ 0 then gbit cgrib iofst (m.natAbs * 8)
  else if gbit cgrib iofst 1 = 1 then -gbit cgrib (iofst + 1) (m.natAbs * 8 - 1)
  else gbit cgrib (iofst + 1) (m.natAbs * 8 - 1)

def unpackEntries (cgrib : Cgrib) (iofst : Nat) : List Int → List Int
  | [] => []
  | m :: map => unpackEntry cgrib iofst m :: unpackEntries cgrib (iofst + m.natAbs * 8) map

def packEntry (cgrib : Cgrib) (iofst : Nat) (m v : Int) : Cgrib :=
  if m ≥ 0 ∨ v ≥ 0 then sbit cgrib v iofst (m.natAbs * 8)
  else sbit (sbit cgrib 1 iofst 1) v.natAbs (iofst + 1) (m.natAbs * 8 - 1)

def packEntries (cgrib : Cgrib) (iofst : Nat) : List Int → List Int → Cgrib
  | m :: map, v :: vs => packEntries (packEntry cgrib iofst m v) (iofst + m.natAbs * 8) map vs
  | _, _ => cgrib

/-- A template as it is read, the static entries and then what they say is to follow, and how many
octets that takes. -/
def unpackTemplate (extend : Gtemplate → List Int → Gtemplate) (cgrib : Cgrib) (iofst : Nat)
    (t : Gtemplate) : List Int × Nat :=
  let list := unpackEntries cgrib iofst t.map
  if t.needext then
    let t := extend t list
    let ext := t.ext.take t.extlen.toNat
    ((list ++ unpackEntries cgrib (iofst + octets t.map * 8) ext).take (t.map.length + t.extlen).toNat,
      octets t.map + octets ext)
  else (list, octets t.map)

/-- A template as it is written, extended by the values themselves. -/
def mapOf (extend : Gtemplate → List Int → Gtemplate) (t : Gtemplate) (values : List Int) : List Int :=
  if t.needext then t.map ++ (extend t values).ext.take (extend t values).extlen.toNat else t.map

/-- A value that its entry can hold. -/
def Fits (m v : Int) : Prop :=
  (0 ≤ m → 0 ≤ v ∧ v < 2 ^ (m.natAbs * 8)) ∧ (m < 0 → v.natAbs < 2 ^ (m.natAbs * 8 - 1))

instance (m v : Int) : Decidable (Fits m v) :=
  inferInstanceAs (Decidable ((0 ≤ m → _) ∧ (m < 0 → _)))

/-- An entry of a whole number of octets that a `g2int` has room for. -/
def Entry (m : Int) : Prop := m ≠ 0 ∧ m.natAbs ≤ 7

instance (m : Int) : Decidable (Entry m) := inferInstanceAs (Decidable (_ ∧ _))

section Entries
variable {c c' : Cgrib} {p : Nat} {m v : Int} {map map' vs vs' : List Int}

theorem octets_cons (m : Int) (map : List Int) : octets (m :: map) = m.natAbs + octets map := rfl

theorem octets_append (map map' : List Int) : octets (map ++ map') = octets map + octets map' := by
  simp [octets]

theorem gbit_same {a b n : Nat} (h : SameBits c c' a b) (hp : a ≤ p) (hn : p + n ≤ b) :
    gbit c p n = gbit c' p n := by
  rw [gbit_field, gbit_field, h.field hp hn]

theorem sbit_kept (c : Cgrib) (x : Int) (p : Nat) {n : Nat} (hn : 0 < n) :
    Kept c (sbit c x p n) p (p + n) := (sbit_overwrites c x p hn).kept

theorem unpackEntry_same (h : SameBits c c' p (p + m.natAbs * 8)) :
    unpackEntry c p m = unpackEntry c' p m := by
  rw [unpackEntry, unpackEntry, gbit_same h (Nat.le_refl p) (Nat.le_refl _)]
  by_cases hm : m ≥ 0
  · rw [if_pos hm, if_pos hm]
  · rw [if_neg hm, if_neg hm, gbit_same h (Nat.le_refl p) (by omega),
      gbit_same h (Nat.le_succ p) (by omega)]

theorem unpackEntries_append (c : Cgrib) (p : Nat) (map map' : List Int) :
    unpackEntries c p (map ++ map') =
      unpackEntries c p map ++ unpackEntries c (p + octets map * 8) map' := by
  induction map generalizing p with
  | nil => rfl
  | cons m map ih =>
    rw [List.cons_append, unpackEntries, unpackEntries, ih, List.cons_append, octets_cons,
      Nat.add_mul, Nat.add_assoc]

theorem length_unpackEntries (c : Cgrib) (p : Nat) (map : List Int) :
    (unpackEntries c p map).length = map.length := by
  induction map generalizing p with
  | nil => rfl
  | cons m map ih => rw [unpackEntries, List.length_cons, ih, List.length_cons]

theorem packEntry_kept (c : Cgrib) (p : Nat) (v : Int) (hm : m ≠ 0) :
    Kept c (packEntry c p m v) p (p + m.natAbs * 8) := by
  rw [packEntry]
  split_ifs
  · exact sbit_kept c v p (by omega)
  · have hsign := sbit_kept c 1 p (n := 1) (by decide)
    have hvalue := sbit_kept (sbit c 1 p 1) (v.natAbs : Int) (p + 1) (n := m.natAbs * 8 - 1) (by omega)
    exact (hsign.append hvalue (by omega) (by omega)).mono (Nat.le_refl p) (by omega)

theorem packEntries_kept (c : Cgrib) (p : Nat) (vs : List Int) (hmap : ∀ m ∈ map, m ≠ 0) :
    Kept c (packEntries c p map vs) p (p + octets map * 8) := by
  induction map generalizing c p vs with
  | nil => exact Kept.refl c _ _
  | cons m map ih =>
    cases vs with
    | nil => exact Kept.refl c _ _
    | cons v vs =>
      have hfirst := packEntry_kept c p v (hmap m List.mem_cons_self)
      have hrest := ih (packEntry c p m v) (p + m.natAbs * 8) vs
        (fun m' hm' => hmap m' (List.mem_cons_of_mem _ hm'))
      rw [packEntries, octets_cons]
      exact (hfirst.append hrest (by omega) (by omega)).mono (Nat.le_refl p) (by omega)

/-- An entry is read as it was packed, the sign bit included. -/
theorem unpackEntry_packEntry (c : Cgrib) (p : Nat) (hm : Entry m) (hv : Fits m v) :
    unpackEntry (packEntry c p m v) p m = v := by
  obtain ⟨hm0, hm7⟩ := hm
  by_cases hpos : m ≥ 0
  · obtain ⟨h0, hlt⟩ := hv.1 hpos
    rw [packEntry, if_pos (.inl hpos), unpackEntry, if_pos hpos]
    exact gbit_sbit c p (by omega) (by omega) h0 hlt
  · have hlt := hv.2 (by omega)
    have hwidth : m.natAbs * 8 = 1 + (m.natAbs * 8 - 1) := by omega
    by_cases hv0 : v ≥ 0
    · rw [packEntry, if_pos (Or.inr hv0), unpackEntry, if_neg hpos]
      have hnat : (v.natAbs : Int) = v := Int.natAbs_of_nonneg hv0
      have hfield : field (sbit c v p (m.natAbs * 8)) p (m.natAbs * 8) = v.natAbs := by
        have hself := (sbit_overwrites c v p (show 0 < m.natAbs * 8 by omega)).field_self
        have hbig : v.natAbs < 2 ^ (m.natAbs * 8) :=
          Nat.lt_of_lt_of_le hlt (Nat.pow_le_pow_right (by decide) (by omega))
        rw [low_mod v (Nat.le_refl _)] at hself
        rw [hself, ← hnat, low_of_lt hbig, Int.natAbs_natCast]
      -- the value is too small for the bit that would be its sign
      have hsplit := field_add (sbit c v p (m.natAbs * 8)) p 1 (m.natAbs * 8 - 1)
      rw [← hwidth, hfield] at hsplit
      have hsign : field (sbit c v p (m.natAbs * 8)) p 1 = 0 := by
        by_contra hne
        have hge := Nat.le_mul_of_pos_left (2 ^ (m.natAbs * 8 - 1)) (Nat.pos_of_ne_zero hne)
        omega
      have hvalue : field (sbit c v p (m.natAbs * 8)) (p + 1) (m.natAbs * 8 - 1) = v.natAbs := by
        rw [hsign, Nat.zero_mul, Nat.zero_add] at hsplit
        exact hsplit.symm
      rw [gbit_of_le _ p (n := 1) (by decide), hsign, if_neg (by decide), gbit_of_le _ _ (by omega),
        hvalue, hnat]
    · rw [packEntry, if_neg (by omega), unpackEntry, if_neg hpos]
      have hsign : gbit (sbit (sbit c 1 p 1) v.natAbs (p + 1) (m.natAbs * 8 - 1)) p 1 = 1 := by
        rw [gbit_sbit_other _ _ (by omega) (by omega)]
        exact gbit_sbit c p (by decide) (by decide) (by decide) (by decide)
      have hvalue : gbit (sbit (sbit c 1 p 1) v.natAbs (p + 1) (m.natAbs * 8 - 1)) (p + 1)
          (m.natAbs * 8 - 1) = v.natAbs :=
        gbit_sbit _ _ (by omega) (by omega) (Int.natCast_nonneg _) (by exact_mod_cast hlt)
      rw [hsign, if_pos rfl, hvalue]
      omega

/-- Entries are read as they were packed, whatever is written elsewhere afterwards. -/
theorem unpackEntries_packEntries (c : Cgrib) (p : Nat) (hmap : ∀ m ∈ map, Entry m)
    (hvs : List.Forall₂ Fits map vs)
    (h : SameBits (packEntries c p map vs) c' p (p + octets map * 8)) :
    unpackEntries c' p map = vs := by
  induction hvs generalizing c p with
  | nil => rfl
  | @cons m v map vs hv _ ih =>
    have hm := hmap m List.mem_cons_self
    have hmaps : ∀ m ∈ map, Entry m := fun m' hm' => hmap m' (List.mem_cons_of_mem _ hm')
    rw [packEntries, octets_cons] at h
    have hrest := packEntries_kept (packEntry c p m v) (p + m.natAbs * 8) vs
      (fun m' hm' => (hmaps m' hm').1)
    have hfirst : SameBits (packEntry c p m v) c' p (p + m.natAbs * 8) :=
      (hrest.same (.inl (Nat.le_refl _))).trans (h.mono (Nat.le_refl p) (by omega))
    rw [unpackEntries, ← unpackEntry_same hfirst, unpackEntry_packEntry c p hm hv,
      ih _ _ hmaps (h.mono (by omega) (by omega))]

end Entries

section Tables
variable {table : List TemplateRow} {number : Int} {t : Gtemplate} {list : List Int}

/-- Every row has the length it declares, and entries of 1 to 4 octets. -/
def Sound (table : List TemplateRow) : Prop :=
  ∀ row ∈ table, row.map.length = row.maplen ∧ ∀ m ∈ row.map, Entry m ∧ m.natAbs ≤ 4

theorem templatesgrid_sound : Sound templatesgrid := by
  unfold Sound
  decide

theorem templatespds_sound : Sound templatespds := by
  unfold Sound
  decide

theorem templatesdrs_sound : Sound templatesdrs := by
  unfold Sound
  decide

theorem gettemplate_row (hs : Sound table) (h : gettemplate table number = some t) :
    ∃ row ∈ table, t = ⟨row.template_num, row.map, row.needext, 0, []⟩ ∧ (row.template_num : Int) = number := by
  rw [gettemplate, Option.map_eq_some_iff] at h
  obtain ⟨row, hfind, rfl⟩ := h
  have hrow := List.mem_of_find?_eq_some hfind
  refine ⟨row, hrow, ?_, by simpa using List.find?_some hfind⟩
  rw [← (hs row hrow).1, List.take_length]

theorem mem_copies {count : Int} {entries : List Int} {m : Int} (h : m ∈ copies count entries) :
    m ∈ entries := by
  simp only [copies, List.mem_flatten, List.mem_replicate] at h
  obtain ⟨l, ⟨_, rfl⟩, hm⟩ := h
  exact hm

theorem length_copies (count : Int) (entries : List Int) :
    (copies count entries).length = count.toNat * entries.length := by
  simp [copies]

theorem getD_take {n i : Nat} (h : i < n) (list : List Int) : (list.take n).getD i 0 = list.getD i 0 := by
  rw [List.getD_eq_getElem?_getD, List.getD_eq_getElem?_getD, List.getElem?_take_of_lt h]

/-- What the extensions of a table's templates have in common: the map stays, the new entries are
as the old ones, and only static entries are looked at. -/
structure Extension (table : List TemplateRow) (extend : Gtemplate → List Int → Gtemplate) : Prop where
  map : ∀ t list, (extend t list).map = t.map
  entries : ∀ number t, gettemplate table number = some t →
    ∀ list, ∀ m ∈ (extend t list).ext, Entry m
  static : ∀ number t, gettemplate table number = some t →
    ∀ list, extend t (list.take t.map.length) = extend t list

theorem extgridtemplate_extension : Extension templatesgrid extgridtemplate := by
  constructor
  · intro t list
    unfold extgridtemplate
    split_ifs <;> rfl
  · intro number t ht list m hm
    obtain ⟨row, _, rfl, _⟩ := gettemplate_row templatesgrid_sound ht
    unfold extgridtemplate at hm
    split_ifs at hm
    · have hmem := mem_copies hm
      simp only [List.mem_cons, List.not_mem_nil, or_false] at hmem
      rcases hmem with rfl | rfl <;> decide
    · obtain rfl := List.mem_singleton.1 (mem_copies hm)
      decide
    · obtain rfl := List.mem_singleton.1 (mem_copies hm)
      decide
    · simp at hm
  · intro number t ht list
    obtain ⟨row, hrow, rfl, _⟩ := gettemplate_row templatesgrid_sound ht
    have hlen : ∀ row ∈ templatesgrid, (row.template_num = 120 → 1 < row.map.length) ∧
        (row.template_num = 1000 → 19 < row.map.length) ∧
        (row.template_num = 1200 → 15 < row.map.length) := by decide
    obtain ⟨h120, h1000, h1200⟩ := hlen row hrow
    unfold extgridtemplate
    split_ifs with h h h
    · rw [getD_take (h120 h)]
    · rw [getD_take (h1000 h)]
    · rw [getD_take (h1200 h)]
    · rfl

theorem extdrstemplate_extension : Extension templatesdrs (fun t _ => t) := by
  constructor
  · intro t list
    rfl
  · intro number t ht list m hm
    obtain ⟨row, _, rfl, _⟩ := gettemplate_row templatesdrs_sound ht
    simp at hm
  · intro number t ht list
    rfl

/-- A template with its time ranges, and with a list of members where it has one. -/
theorem extpdstemplate_cases {P : Gtemplate → Prop} (t : Gtemplate) (list : List Int)
    (hones : ∀ n, (t.num = 3 ∧ n = 26) ∨ (t.num = 4 ∧ n = 25) →
      P { t with extlen := list.getD n 0, ext := copies (list.getD n 0) [1] })
    (hranges : ∀ n start, (t.num = 8 ∧ n = 21 ∧ start = 23) ∨ (t.num = 9 ∧ n = 28 ∧ start = 30) ∨
      (t.num = 10 ∧ n = 22 ∧ start = 24) ∨ (t.num = 11 ∧ n = 24 ∧ start = 26) ∨
      (t.num = 12 ∧ n = 23 ∧ start = 25) → P (extranges t list n start))
    (hcluster : ∀ n start members, (t.num = 13 ∧ n = 37 ∧ start = 39 ∧ members = 26) ∨
      (t.num = 14 ∧ n = 36 ∧ start = 38 ∧ members = 25) → P (extcluster t list n start members))
    (hfives : t.num = 30 ∨ t.num = 31 →
      P { t with extlen := list.getD 4 0 * 5, ext := copies (list.getD 4 0) [2, 2, 1, 1, 4] })
    (hself : t.num ≠ 13 → t.num ≠ 14 → P t) : P (extpdstemplate t list) := by
  unfold extpdstemplate
  split_ifs with h3 h4 h8 h9 h10 h11 h12 h13 h14 h30
  · exact hones 26 (by simp [h3])
  · exact hones 25 (by simp [h4])
  · exact hranges 21 23 (by simp [h8])
  · exact hranges 28 30 (by simp [h9])
  · exact hranges 22 24 (by simp [h10])
  · exact hranges 24 26 (by simp [h11])
  · exact hranges 23 25 (by simp [h12])
  · exact hcluster 37 39 26 (by simp [h13])
  · exact hcluster 36 38 25 (by simp [h14])
  · exact hfives h30
  · exact hself h13 h14

theorem extpdstemplate_extension : Extension templatespds extpdstemplate := by
  constructor
  · intro t list
    apply extpdstemplate_cases (P := fun t' => t'.map = t.map)
    · simp
    · intro n start _
      unfold extranges
      split_ifs <;> rfl
    · intro n start members _
      rfl
    · simp
    · simp
  · intro number t ht list
    obtain ⟨row, hrow, rfl, _⟩ := gettemplate_row templatespds_sound ht
    have hrange : ∀ {start m}, m ∈ (row.map.drop start).take 6 → Entry m := by
      intro start m hm
      exact ((templatespds_sound row hrow).2 m (List.mem_of_mem_drop (List.mem_of_mem_take hm))).1
    apply extpdstemplate_cases (P := fun t' => ∀ m ∈ t'.ext, Entry m)
    · intro n _ m hm
      obtain rfl := List.mem_singleton.1 (mem_copies hm)
      decide
    · intro n start _ m hm
      unfold extranges at hm
      split_ifs at hm
      · exact hrange (mem_copies hm)
      · simp at hm
    · intro n start members _ m hm
      cases List.mem_append.1 hm with
      | inl hm => exact hrange (mem_copies hm)
      | inr hm =>
        obtain rfl := List.mem_singleton.1 (mem_copies hm)
        decide
    · intro _ m hm
      have hfive := mem_copies hm
      simp only [List.mem_cons, List.not_mem_nil, or_false] at hfive
      rcases hfive with rfl | rfl | rfl | rfl | rfl <;> decide
    · simp
  · intro number t ht list
    obtain ⟨row, hrow, rfl, _⟩ := gettemplate_row templatespds_sound ht
    have hlen : ∀ row ∈ templatespds, (row.template_num = 3 → 26 < row.map.length) ∧
        (row.template_num = 4 → 25 < row.map.length) ∧ (row.template_num = 8 → 21 < row.map.length) ∧
        (row.template_num = 9 → 28 < row.map.length) ∧ (row.template_num = 10 → 22 < row.map.length) ∧
        (row.template_num = 11 → 24 < row.map.length) ∧ (row.template_num = 12 → 23 < row.map.length) ∧
        (row.template_num = 13 → 37 < row.map.length) ∧ (row.template_num = 14 → 36 < row.map.length) ∧
        (row.template_num = 30 ∨ row.template_num = 31 → 4 < row.map.length) := by decide
    obtain ⟨h3, h4, h8, h9, h10, h11, h12, h13, h14, h30⟩ := hlen row hrow
    unfold extpdstemplate extranges extcluster
    refine ite_congr rfl (fun h => by rw [getD_take (h3 h)]) fun _ => ?_
    refine ite_congr rfl (fun h => by rw [getD_take (h4 h)]) fun _ => ?_
    refine ite_congr rfl (fun h => by rw [getD_take (h8 h)]) fun _ => ?_
    refine ite_congr rfl (fun h => by rw [getD_take (h9 h)]) fun _ => ?_
    refine ite_congr rfl (fun h => by rw [getD_take (h10 h)]) fun _ => ?_
    refine ite_congr rfl (fun h => by rw [getD_take (h11 h)]) fun _ => ?_
    refine ite_congr rfl (fun h => by rw [getD_take (h12 h)]) fun _ => ?_
    refine ite_congr rfl (fun h => by
      rw [getD_take (h13 h), getD_take (Nat.lt_of_le_of_lt (by decide) (h13 h))]) fun _ => ?_
    refine ite_congr rfl (fun h => by
      rw [getD_take (h14 h), getD_take (Nat.lt_of_le_of_lt (by decide) (h14 h))]) fun _ => ?_
    exact ite_congr rfl (fun h => by rw [getD_take (h30 h)]) fun _ => rfl

end Tables

section Template
variable {table : List TemplateRow} {extend : Gtemplate → List Int → Gtemplate} {number : Int}
  {t : Gtemplate} {c c' : Cgrib} {p : Nat} {vs : List Int}

/-- The values of a template: each one fits its entry, and there are as many as they say. -/
structure Suits (extend : Gtemplate → List Int → Gtemplate) (t : Gtemplate) (vs : List Int) : Prop where
  fits : List.Forall₂ Fits (mapOf extend t vs) vs
  length : t.needext = true → (extend t vs).extlen = (extend t vs).ext.length

theorem mapOf_entries (hx : Extension table extend) (hs : Sound table)
    (ht : gettemplate table number = some t) (vs : List Int) : ∀ m ∈ mapOf extend t vs, Entry m := by
  have hstatic : ∀ m ∈ t.map, Entry m := by
    obtain ⟨row, hrow, rfl, _⟩ := gettemplate_row hs ht
    exact fun m hm => ((hs row hrow).2 m hm).1
  intro m hm
  unfold mapOf at hm
  split_ifs at hm
  · cases List.mem_append.1 hm with
    | inl hm => exact hstatic m hm
    | inr hm => exact hx.entries number t ht vs m (List.mem_of_mem_take hm)
  · exact hstatic m hm

theorem mapOf_extended (hvs : Suits extend t vs) (hext : t.needext = true) :
    mapOf extend t vs = t.map ++ (extend t vs).ext := by
  rw [mapOf, if_pos hext, hvs.length hext, Int.toNat_natCast, List.take_length]

/-- The extension of a packed template is found again from the values in front of it. -/
theorem extend_packed (hx : Extension table extend) (hs : Sound table)
    (ht : gettemplate table number = some t) (hvs : Suits extend t vs)
    (h : SameBits (packEntries c p (mapOf extend t vs) vs) c' p (p + octets (mapOf extend t vs) * 8))
    (hext : t.needext = true) : extend t (unpackEntries c' p t.map) = extend t vs := by
  have hall := unpackEntries_packEntries c p (mapOf_entries hx hs ht vs) hvs.fits h
  rw [mapOf_extended hvs hext, unpackEntries_append] at hall
  have hlist : unpackEntries c' p t.map = vs.take t.map.length := by
    rw [← hall, List.take_left' (length_unpackEntries c' p t.map)]
  rw [hlist, hx.static number t ht]

/-- A template is read as it was packed. -/
theorem unpackTemplate_packed (hx : Extension table extend) (hs : Sound table)
    (ht : gettemplate table number = some t) (hvs : Suits extend t vs)
    (h : SameBits (packEntries c p (mapOf extend t vs) vs) c' p (p + octets (mapOf extend t vs) * 8)) :
    unpackTemplate extend c' p t = (vs, octets (mapOf extend t vs)) := by
  have hall := unpackEntries_packEntries c p (mapOf_entries hx hs ht vs) hvs.fits h
  by_cases hext : t.needext = true
  · have htake : (extend t vs).ext.take (extend t vs).extlen.toNat = (extend t vs).ext := by
      rw [hvs.length hext, Int.toNat_natCast, List.take_length]
    have hmap := mapOf_extended hvs hext
    have hsame := extend_packed hx hs ht hvs h hext
    rw [hmap, unpackEntries_append] at hall
    have hlen : (t.map.length + (extend t vs).extlen).toNat = vs.length := by
      have hfits := hvs.fits.length_eq
      rw [hmap, List.length_append] at hfits
      rw [hvs.length hext]
      omega
    rw [unpackTemplate]
    simp only [hext, if_true, hsame, htake, hx.map, hall, hlen, List.take_length, hmap, octets_append]
  · have hmap : mapOf extend t vs = t.map := by rw [mapOf, if_neg hext]
    rw [hmap] at hall
    rw [unpackTemplate]
    simp only [hext, hall, hmap]
    rfl

/-- No time range, where the list of members would be behind the last of them. -/
def NoRanges (t : Gtemplate) (list : List Int) : Prop :=
  (t.num = 13 ∧ list.getD 37 0 = 0) ∨ (t.num = 14 ∧ list.getD 36 0 = 0)

theorem unpackEntries_nonneg {map : List Int} (i : Nat) (hm : 0 ≤ map.getD i 0) (hm7 : map.getD i 0 ≤ 7) :
    0 ≤ (unpackEntries c p map).getD i 0 := by
  induction map generalizing p i with
  | nil => simp [unpackEntries]
  | cons m map ih =>
    cases i with
    | zero =>
      simp only [List.getD_cons_zero] at hm hm7
      rw [unpackEntries, List.getD_cons_zero, unpackEntry, if_pos hm, gbit_of_le _ _ (by omega)]
      exact Int.natCast_nonneg _
    | succ i =>
      rw [List.getD_cons_succ] at hm hm7
      rw [unpackEntries, List.getD_cons_succ]
      exact ih i hm hm7

/-- The static entries that are the counts of others, and the time ranges that are repeated. -/
def counters : List (Nat × Nat) := [(3, 26), (4, 25), (13, 37), (13, 26), (14, 36), (14, 25), (30, 4), (31, 4)]

def ranges : List (Nat × Nat) := [(8, 23), (9, 30), (10, 24), (11, 26), (12, 25), (13, 39), (14, 38)]

theorem counters_nonneg (ht : getpdstemplate number = some t) (c : Cgrib) (p : Nat) {i : Nat}
    (hi : (t.num, i) ∈ counters) : 0 ≤ (unpackEntries c p t.map).getD i 0 := by
  obtain ⟨row, hrow, rfl, _⟩ := gettemplate_row templatespds_sound ht
  have hmaps : ∀ row ∈ templatespds, ∀ n ∈ counters, row.template_num = n.1 →
      0 ≤ row.map.getD n.2 0 ∧ row.map.getD n.2 0 ≤ 7 := by decide
  have hentry := hmaps row hrow _ hi rfl
  exact unpackEntries_nonneg i hentry.1 hentry.2

theorem length_range (ht : getpdstemplate number = some t) {start : Nat} (hi : (t.num, start) ∈ ranges) :
    ((t.map.drop start).take 6).length = 6 := by
  obtain ⟨row, hrow, rfl, _⟩ := gettemplate_row templatespds_sound ht
  have hmaps : ∀ row ∈ templatespds, ∀ n ∈ ranges, row.template_num = n.1 →
      ((row.map.drop n.2).take 6).length = 6 := by decide
  exact hmaps row hrow _ hi rfl

/-- The ensemble members of such a template, of which each is one entry. -/
def members (t : Gtemplate) (list : List Int) : Int := if t.num = 13 then list.getD 26 0 else list.getD 25 0

theorem stored_inside {t : Gtemplate} (h : (t.ext.length : Int) = t.extlen) : t.stored = .inside := by
  have hroom : malloc t.extlen = some t.ext.length := by
    rw [malloc, if_neg (by omega), ← h, Int.toNat_natCast]
  rw [Gtemplate.stored, hroom]
  exact if_pos (Nat.le_refl _)

/-- An extension that is six entries longer than its block. -/
theorem stored_six {t : Gtemplate} (h : (t.ext.length : Int) = t.extlen + 6) :
    t.stored = if t.ext.length = 0 then .inside else if t.ext.length < 6 then .null else .behind 6 := by
  rw [Gtemplate.stored, malloc]
  by_cases hneg : t.extlen < 0
  · rw [if_pos hneg]
    by_cases hnil : t.ext = []
    · simp [hnil]
    · have hpos := List.length_pos_of_ne_nil hnil
      simp only [if_neg hnil]
      rw [if_neg (by omega), if_pos (by omega)]
  · rw [if_neg hneg]
    simp only
    rw [if_neg (by omega), if_neg (by omega), if_neg (by omega)]
    congr 1
    omega

/-- The extension of a product template is as long as its block, but for the templates 13 and 14
without a time range, where it is the members, and six entries longer. -/
theorem length_extpdstemplate (ht : getpdstemplate number = some t) (c : Cgrib) (p : Nat) :
    (NoRanges t (unpackEntries c p t.map) →
      ((extpdstemplate t (unpackEntries c p t.map)).ext.length : Int) = members t (unpackEntries c p t.map) ∧
      ((extpdstemplate t (unpackEntries c p t.map)).ext.length : Int) =
        (extpdstemplate t (unpackEntries c p t.map)).extlen + 6) ∧
    (¬ NoRanges t (unpackEntries c p t.map) →
      ((extpdstemplate t (unpackEntries c p t.map)).ext.length : Int) =
        (extpdstemplate t (unpackEntries c p t.map)).extlen) := by
  have hcount := fun i => counters_nonneg (i := i) ht c p
  have hsix := fun start => @length_range number t ht start
  have hself : t.ext = [] ∧ t.extlen = 0 := by
    obtain ⟨row, _, rfl, _⟩ := gettemplate_row templatespds_sound ht
    exact ⟨rfl, rfl⟩
  generalize unpackEntries c p t.map = list at hcount ⊢
  have hno : t.num ≠ 13 → t.num ≠ 14 → ¬ NoRanges t list := by
    intro h13 h14 h
    simp [NoRanges, h13, h14] at h
  apply extpdstemplate_cases (P := fun t' =>
    (NoRanges t list → (t'.ext.length : Int) = members t list ∧ (t'.ext.length : Int) = t'.extlen + 6) ∧
    (¬ NoRanges t list → (t'.ext.length : Int) = t'.extlen))
  · intro n hn
    have hpos : 0 ≤ list.getD n 0 := hcount n (by rcases hn with ⟨h, rfl⟩ | ⟨h, rfl⟩ <;> simp [h, counters])
    have hnone := hno (by omega) (by omega)
    refine ⟨fun h => absurd h hnone, fun _ => ?_⟩
    simp only [length_copies, List.length_singleton]
    omega
  · intro n start hn
    have hsix := hsix start (by rcases hn with h | h | h | h | h <;> simp [h, ranges])
    have hnone := hno (by omega) (by omega)
    unfold extranges
    split_ifs with hmore
    · refine ⟨fun h => absurd h hnone, fun _ => ?_⟩
      simp only [length_copies, hsix]
      omega
    · simp [hself, hnone]
  · intro n start listed hn
    have hsix := hsix start (by rcases hn with h | h <;> simp [h, ranges])
    have hn0 : 0 ≤ list.getD n 0 := hcount n (by rcases hn with h | h <;> simp [h, counters])
    have hm0 : 0 ≤ list.getD listed 0 := hcount listed (by rcases hn with h | h <;> simp [h, counters])
    have hiff : NoRanges t list ↔ list.getD n 0 = 0 := by
      rcases hn with ⟨h, rfl, _⟩ | ⟨h, rfl, _⟩ <;> simp [NoRanges, h]
    have hmembers : members t list = list.getD listed 0 := by
      rcases hn with ⟨h, _, _, rfl⟩ | ⟨h, _, _, rfl⟩ <;> simp [members, h]
    simp only [extcluster, List.length_append, length_copies, List.length_singleton, hsix, hiff, hmembers]
    omega
  · intro hn
    have hpos : 0 ≤ list.getD 4 0 := hcount 4 (by rcases hn with h | h <;> simp [h, counters])
    have hnone := hno (by omega) (by omega)
    refine ⟨fun h => absurd h hnone, fun _ => ?_⟩
    simp only [length_copies, List.length_cons, List.length_nil]
    omega
  · intro h13 h14
    simp [hself, hno h13 h14]

/-- Where the extension of a product template is stored. For the templates 13 and 14 without a time
range the length that is allocated is six short: one to five members go through the null pointer that
a negative length gets, and of six or more the last six are behind the block. Everywhere else the block
has the length of the extension. -/
theorem extpdstemplate_room (ht : getpdstemplate number = some t) (c : Cgrib) (p : Nat) :
    let list := unpackEntries c p t.map
    let t' := extpdstemplate t list
    (NoRanges t list → t'.stored =
      if members t list = 0 then .inside else if members t list < 6 then .null else .behind 6) ∧
    (¬ NoRanges t list → t'.stored = .inside ∧ (t'.ext.length : Int) = t'.extlen) := by
  intro list t'
  obtain ⟨hnone, hsome⟩ := length_extpdstemplate ht c p
  constructor
  · intro h
    obtain ⟨hmembers, hsix⟩ := hnone h
    rw [stored_six hsix, ← hmembers]
    norm_cast
  · intro h
    exact ⟨stored_inside (hsome h), hsome h⟩

/-- A list of template 13 with no time range, and with so many members. -/
def noRange (n : UInt8) : Cgrib := fun i => if i = 48 then n else 0

theorem extpdstemplate_room_none : ∃ t, getpdstemplate 13 = some t ∧
    (extpdstemplate t (unpackEntries (noRange 0) 0 t.map)).stored = .inside ∧
    (extpdstemplate t (unpackEntries (noRange 3) 0 t.map)).stored = .null ∧
    (extpdstemplate t (unpackEntries (noRange 9) 0 t.map)).stored = .behind 6 := by
  obtain ⟨t, ht⟩ := Option.isSome_iff_exists.1 (show (getpdstemplate 13).isSome = true by decide)
  have hlists : NoRanges t (unpackEntries (noRange 0) 0 t.map) ∧ NoRanges t (unpackEntries (noRange 3) 0 t.map) ∧
      NoRanges t (unpackEntries (noRange 9) 0 t.map) ∧ members t (unpackEntries (noRange 0) 0 t.map) = 0 ∧
      members t (unpackEntries (noRange 3) 0 t.map) = 3 ∧ members t (unpackEntries (noRange 9) 0 t.map) = 9 := by
    cases (show getpdstemplate 13 = _ by rfl).symm.trans ht
    exact ⟨.inl (by decide), .inl (by decide), .inl (by decide), by decide, by decide, by decide⟩
  obtain ⟨h0, h3, h9, hm0, hm3, hm9⟩ := hlists
  refine ⟨t, ht, ?_, ?_, ?_⟩
  · rw [(extpdstemplate_room ht (noRange 0) 0).1 h0, hm0]
    decide
  · rw [(extpdstemplate_room ht (noRange 3) 0).1 h3, hm3]
    decide
  · rw [(extpdstemplate_room ht (noRange 9) 0).1 h9, hm9]
    decide

end Template
end Noaaport.G2
