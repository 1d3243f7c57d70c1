import Noaaport.Grib2Templates

/-! `g2_getfld` of the GRIB2 library with `unpack` 0, as `grib2name` calls it, and the functions that
unpack the Sections 1 to 5 for it: the data stay packed. -/
namespace Noaaport.G2
open Lib

/-- What Section 3 says. -/
structure Grid where
  griddef : Int
  ngrdpts : Int
  numoct_opt : Int
  interp_opt : Int
  igdtnum : Int
  igdtmpl : List Int
  list_opt : List Int
deriving DecidableEq, Repr

/-- What Section 4 says; the coordinates are the words that hold them. -/
structure Product where
  ipdtnum : Int
  ipdtmpl : List Int
  coord_list : List Int
deriving DecidableEq, Repr

/-- What Section 5 says. -/
structure Packing where
  ndpts : Int
  idrtnum : Int
  idrtmpl : List Int
deriving DecidableEq, Repr

/-- The unpackers take a section at byte `ipos`; an error is the code they return. -/
def g2_unpack1 (cgrib : Cgrib) (ipos : Nat) : Except Int (List Int) :=
  if isecnum cgrib ipos ≠ 1 then .error 2
  else .ok (unpackMap cgrib (ipos * 8 + 40) mapsec1)

/-- The length and the bytes of a local section; a negative size is more than can be allocated. -/
def g2_unpack2 (cgrib : Cgrib) (ipos : Nat) : Except Int (Int × List UInt8) :=
  let lencsec2 : Int := lensec cgrib ipos - 5
  if isecnum cgrib ipos ≠ 2 then .error 2
  else if lencsec2 + 1 < 0 then .error 6
  else .ok (lencsec2, load cgrib (ipos + 5) lencsec2.toNat)

/-- The optional list behind the template, `numoct` octets a number. -/
def optionalList (cgrib : Cgrib) (ipos : Nat) (numoct : Int) (ibyttem : Nat) : Except Int (List Int) :=
  if numoct ≠ 0 then
    let idefnum := ((lensec cgrib ipos : Int) - 14 - ibyttem).tdiv numoct
    if idefnum > 0 then
      .ok (gbits cgrib (ipos * 8 + 112 + ibyttem * 8) (numoct.toNat * 8) 0 idefnum.toNat)
    else .error 6
  else .ok []

def g2_unpack3 (cgrib : Cgrib) (ipos : Nat) : Except Int Grid :=
  if isecnum cgrib ipos ≠ 3 then .error 2
  else
    let griddef := gbit cgrib (ipos * 8 + 40) 8
    let ngrdpts := gbit cgrib (ipos * 8 + 48) 32
    let numoct_opt := gbit cgrib (ipos * 8 + 80) 8
    let interp_opt := gbit cgrib (ipos * 8 + 88) 8
    let igdtnum := gbit cgrib (ipos * 8 + 96) 16
    if igdtnum ≠ 65535 then
      match getgridtemplate igdtnum with
      | none => .error 5
      | some mapgrid =>
        let tmpl := unpackTemplate extgridtemplate cgrib (ipos * 8 + 112) mapgrid
        (optionalList cgrib ipos numoct_opt tmpl.2).map
          (fun ideflist => ⟨griddef, ngrdpts, numoct_opt, interp_opt, igdtnum, tmpl.1, ideflist⟩)
    else
      (optionalList cgrib ipos numoct_opt 0).map
        (fun ideflist => ⟨griddef, ngrdpts, numoct_opt, interp_opt, igdtnum, [], ideflist⟩)

/-- The extension of a template that is not stored inside its block: the store is through the null
pointer or behind the block. -/
def Gtemplate.faults (t : Gtemplate) (list : List Int) : Bool :=
  t.needext && (extpdstemplate t list).stored ≠ .inside

/-- None where the extension of the template is not stored inside its block. -/
def g2_unpack4 (cgrib : Cgrib) (ipos : Nat) : Option (Except Int Product) :=
  if isecnum cgrib ipos ≠ 4 then some (.error 2)
  else
    let numcoord := gbit cgrib (ipos * 8 + 40) 16
    let ipdsnum := gbit cgrib (ipos * 8 + 56) 16
    match getpdstemplate ipdsnum with
    | none => some (.error 5)
    | some mappds =>
      if mappds.faults (unpackEntries cgrib (ipos * 8 + 72) mappds.map) then none
      else
        let tmpl := unpackTemplate extpdstemplate cgrib (ipos * 8 + 72) mappds
        some (.ok ⟨ipdsnum, tmpl.1, gbits cgrib (ipos * 8 + 72 + tmpl.2 * 8) 32 0 numcoord.toNat⟩)

/-- No template of its table is extended. -/
def g2_unpack5 (cgrib : Cgrib) (ipos : Nat) : Except Int Packing :=
  if isecnum cgrib ipos ≠ 5 then .error 2
  else
    let ndpts := gbit cgrib (ipos * 8 + 40) 32
    let idrsnum := gbit cgrib (ipos * 8 + 72) 16
    match getdrstemplate idrsnum with
    | none => .error 7
    | some mapdrs =>
      .ok ⟨ndpts, idrsnum, (unpackTemplate (fun t _ => t) cgrib (ipos * 8 + 88) mapdrs).1⟩

/-- The field that is filled, with `numfld` of the loop. A part is there once its section was
unpacked, which is when `have3` to `have6` are set. -/
structure Gribfield where
  numfld : Nat
  discipline : Option Int
  idsect : Option (List Int)
  loc : Option (Int × List UInt8)
  grid : Option Grid
  prod : Option Product
  pack : Option Packing
  ibmap : Option Int
deriving DecidableEq, Repr

def Gribfield.init : Gribfield := ⟨0, none, none, none, none, none, none, none⟩

def Gribfield.complete (g : Gribfield) : Bool :=
  g.grid.isSome && g.prod.isSome && g.pack.isSome && g.ibmap.isSome

/-- One part of the field, or the code that `g2_getfld` has for its section. -/
def part {α : Type} (x : Except Int α) (ierr : Int) (put : α → Gribfield) : Except Int Gribfield :=
  match x with
  | .error _ => .error ierr
  | .ok a => .ok (put a)

/-- What one section does to the field. A grid and a bitmap indicator are taken whichever field they
are for, and stay from one field to the next. -/
def takeSection (cgrib : Cgrib) (disc : Int) (ifldnum ipos : Nat) (g : Gribfield) :
    Option (Except Int Gribfield) :=
  match isecnum cgrib ipos with
  | 1 => some (part (g2_unpack1 cgrib ipos) 15 (fun ids => { g with idsect := some ids }))
  | 2 => some (part (g2_unpack2 cgrib ipos) 16 (fun loc => { g with loc := some loc }))
  | 3 => some (part (g2_unpack3 cgrib ipos) 10 (fun grid => { g with grid := some grid }))
  | 4 =>
    if g.numfld + 1 = ifldnum then
      (g2_unpack4 cgrib ipos).map fun prod => part prod 11
        (fun prod => { g with numfld := g.numfld + 1, discipline := some disc, prod := some prod })
    else some (.ok { g with numfld := g.numfld + 1 })
  | 5 =>
    if g.numfld = ifldnum then
      some (part (g2_unpack5 cgrib ipos) 12 (fun pack => { g with pack := some pack }))
    else some (.ok g)
  | 6 => some (.ok { g with ibmap := some (gbit cgrib (ipos * 8 + 40) 8) })
  | _ => some (.ok g)

def getfldTurn (cgrib : Cgrib) (disc : Int) (last ifldnum ipos : Nat) (g : Gribfield) :
    Turn Gribfield (Option (Int × Gribfield)) :=
  if sevens cgrib ipos then
    if ipos + 4 ≠ last then .out (some (4, g)) else .out (some (6, g))
  else if isecnum cgrib ipos < 1 ∨ isecnum cgrib ipos > 7 then .out (some (8, g))
  else
    match takeSection cgrib disc ifldnum ipos g with
    | none => .out none
    | some (.error ierr) => .out (some (ierr, g))
    | some (.ok g) =>
      if ipos + lensec cgrib ipos > last then .out (some (7, g))
      else if g.complete then .out (some (0, g))
      else .on (lensec cgrib ipos) g

/-- A call that does not return, or comes to a store outside its block, is none. -/
def g2_getfld (fuel : Nat) (cgrib : Cgrib) (ifldnum : Int) : Option (Int × Gribfield) :=
  if ifldnum ≤ 0 then some (3, .init)
  else
    match istart cgrib with
    | none => some (1, .init)
    | some istart =>
      let disc := gbit cgrib (8 * (istart + 6)) 8
      let ver := gbit cgrib (8 * (istart + 7)) 8
      let lengrib := (gbit cgrib (8 * (istart + 12)) 32).toNat
      if ver ≠ 2 then some (2, .init)
      else (walk (getfldTurn cgrib disc (istart + lengrib) ifldnum.toNat) fuel (istart + 16) .init).join

section Turn
variable {cgrib : Cgrib} {disc : Int} {last ifldnum a b fuel start len : Nat} {g g' : Gribfield}
  {secs : List Sec}

/-- A section of a known number either goes on, completes the field, or cannot be unpacked. -/
theorem getfldTurn_section (disc : Int) (ifldnum : Nat) (g : Gribfield) (hmore : sevens cgrib a = false)
    (hnum : 1 ≤ isecnum cgrib a ∧ isecnum cgrib a ≤ 7) (hlast : a + lensec cgrib a ≤ last) :
    getfldTurn cgrib disc last ifldnum a g =
      match takeSection cgrib disc ifldnum a g with
      | none => .out none
      | some (.error ierr) => .out (some (ierr, g))
      | some (.ok g) => if g.complete then .out (some (0, g)) else .on (lensec cgrib a) g := by
  rw [getfldTurn, if_neg (by simp [hmore]), if_neg (by omega)]
  cases takeSection cgrib disc ifldnum a g with
  | none => rfl
  | some r =>
    cases r with
    | error ierr => rfl
    | ok g' => simp only [if_neg (Nat.not_lt.2 hlast)]

/-- A product template that has the entry which `grib2name` takes the model from. -/
def HasModel (p : Product) : Prop := 5 ≤ p.ipdtmpl.length ↔ p.ipdtnum ≠ 254

theorem length_unpackTemplate {extend : Gtemplate → List Int → Gtemplate} {t : Gtemplate} {p : Nat}
    (hmap : ∀ list, (extend t list).map = t.map)
    (hext : t.needext = true → 5 ≤ t.map.length + (extend t (unpackEntries cgrib p t.map)).extlen ∧
      (extend t (unpackEntries cgrib p t.map)).extlen ≤ (extend t (unpackEntries cgrib p t.map)).ext.length) :
    5 ≤ (unpackTemplate extend cgrib p t).1.length ↔ t.needext = true ∨ 5 ≤ t.map.length := by
  rw [unpackTemplate]
  by_cases h : t.needext = true
  · obtain ⟨hlen, hroom⟩ := hext h
    simp only [h, if_true, List.length_take, List.length_append, length_unpackEntries, true_or, iff_true,
      hmap]
    omega
  · simp [h, length_unpackEntries]

theorem pds_lengths : ∀ row ∈ templatespds,
    (row.needext = true ∨ 5 ≤ row.map.length ↔ row.template_num ≠ 254) ∧
      (row.needext = true → 5 ≤ row.map.length) ∧
      (row.template_num = 13 ∨ row.template_num = 14 → 11 ≤ row.map.length) := by decide

theorem g2_unpack4_model {prod : Product} (h : g2_unpack4 cgrib a = some (.ok prod)) : HasModel prod := by
  rw [g2_unpack4] at h
  by_cases hnum : isecnum cgrib a ≠ 4
  · simp [if_pos hnum] at h
  rw [if_neg hnum] at h
  simp only at h
  cases ht : getpdstemplate (gbit cgrib (a * 8 + 56) 16) with
  | none => simp [ht] at h
  | some t =>
    simp only [ht] at h
    split_ifs at h
    simp only [Option.some.injEq, Except.ok.injEq] at h
    have hroom := length_extpdstemplate ht cgrib (a * 8 + 72)
    obtain ⟨row, hrow, hmapped, hnumber⟩ := gettemplate_row templatespds_sound ht
    obtain ⟨hlong, hfive, heleven⟩ := pds_lengths row hrow
    have hext : t.needext = true →
        5 ≤ t.map.length + (extpdstemplate t (unpackEntries cgrib (a * 8 + 72) t.map)).extlen ∧
        (extpdstemplate t (unpackEntries cgrib (a * 8 + 72) t.map)).extlen ≤
          (extpdstemplate t (unpackEntries cgrib (a * 8 + 72) t.map)).ext.length := by
      intro hneed
      by_cases hno : NoRanges t (unpackEntries cgrib (a * 8 + 72) t.map)
      · have heq := (hroom.1 hno).2
        have helevens : 11 ≤ t.map.length := by
          rw [hmapped]
          apply heleven
          rw [hmapped] at hno
          exact hno.imp (fun h => h.1) (fun h => h.1)
        omega
      · have heq := hroom.2 hno
        have hfives : 5 ≤ t.map.length := by
          rw [hmapped] at hneed ⊢
          exact hfive hneed
        omega
    have hmodel := length_unpackTemplate (extpdstemplate_extension.map t) hext
    rw [HasModel, ← h]
    simp only [hmodel]
    rw [hmapped, ← hnumber]
    simp only [hlong]
    norm_cast

/-- A product whose template has no time range but members, which is when its extension is not stored
inside its block. -/
def MembersOut (cgrib : Cgrib) (a : Nat) : Prop :=
  ∃ t, getpdstemplate (gbit cgrib (a * 8 + 56) 16) = some t ∧
    NoRanges t (unpackEntries cgrib (a * 8 + 72) t.map) ∧ members t (unpackEntries cgrib (a * 8 + 72) t.map) ≠ 0

theorem g2_unpack4_none (h : g2_unpack4 cgrib a = none) : MembersOut cgrib a := by
  rw [g2_unpack4] at h
  split_ifs at h with hnum
  cases ht : getpdstemplate (gbit cgrib (a * 8 + 56) 16) with
  | none => simp [ht] at h
  | some t =>
    simp only [ht] at h
    split_ifs at h with hfaults
    simp only [Gtemplate.faults, Bool.and_eq_true, decide_eq_true_eq, ne_eq] at hfaults
    obtain ⟨hno, hyes⟩ := extpdstemplate_room ht cgrib (a * 8 + 72)
    refine ⟨t, ht, ?_, ?_⟩
    · by_contra hranges
      exact hfaults.2 (hyes hranges).1
    · intro hzero
      by_cases hranges : NoRanges t (unpackEntries cgrib (a * 8 + 72) t.map)
      · exact hfaults.2 (by rw [hno hranges, if_pos hzero])
      · exact hfaults.2 (hyes hranges).1

/-- How far the field is: its product is there once its Section 4 was met. -/
structure Tracks (ifldnum : Nat) (g : Gribfield) : Prop where
  prod : g.prod.isSome ↔ ifldnum ≤ g.numfld
  model : ∀ p, g.prod = some p → HasModel p

/-- What a section of the numbers 2 to 7 does: the field is where the number of fields says, or the
section cannot be unpacked. -/
theorem takeSection_step (disc : Int) (hg : Tracks ifldnum g) (hnum : 2 ≤ isecnum cgrib a ∧ isecnum cgrib a ≤ 7) :
    (takeSection cgrib disc ifldnum a g = none ∧ isecnum cgrib a = 4 ∧ g.numfld + 1 = ifldnum ∧
      MembersOut cgrib a) ∨
    (∃ ierr ∈ [10, 11, 12, 16], takeSection cgrib disc ifldnum a g = some (.error ierr) ∧
      (ierr = 12 → g.numfld = ifldnum)) ∨
    ∃ g', takeSection cgrib disc ifldnum a g = some (.ok g') ∧ Tracks ifldnum g' ∧
      g'.numfld = g.numfld + occurrences 4 [⟨a, lensec cgrib a, isecnum cgrib a⟩] := by
  have hparts : ∀ {α : Type} (x : Except Int α) (ierr : Int) (put : α → Gribfield),
      part x ierr put = .error ierr ∨ ∃ y, x = .ok y ∧ part x ierr put = .ok (put y) := by
    intro α x ierr put
    cases x with
    | error e => exact .inl rfl
    | ok y => exact .inr ⟨y, rfl, rfl⟩
  have hcount : ∀ {num}, isecnum cgrib a = num → num ≠ 4 →
      occurrences 4 [⟨a, lensec cgrib a, isecnum cgrib a⟩] = 0 := by
    intro num hnum hne
    simp [occurrences, hnum, hne]
  unfold takeSection
  split
  · omega
  · rename_i h
    rcases hparts (g2_unpack2 cgrib a) 16 (fun loc => { g with loc := some loc }) with herr | ⟨y, _, hok⟩
    · exact .inr (.inl ⟨16, by simp, congrArg some herr, by simp⟩)
    · exact .inr (.inr ⟨_, congrArg some hok, ⟨hg.prod, hg.model⟩, by rw [hcount h (by decide)]; rfl⟩)
  · rename_i h
    rcases hparts (g2_unpack3 cgrib a) 10 (fun grid => { g with grid := some grid }) with herr | ⟨y, _, hok⟩
    · exact .inr (.inl ⟨10, by simp, congrArg some herr, by simp⟩)
    · exact .inr (.inr ⟨_, congrArg some hok, ⟨hg.prod, hg.model⟩, by rw [hcount h (by decide)]; rfl⟩)
  · rename_i h
    have hone : occurrences 4 [⟨a, lensec cgrib a, isecnum cgrib a⟩] = 1 := by simp [occurrences, h]
    rw [hone]
    split_ifs with hthis
    · cases hunpack : g2_unpack4 cgrib a with
      | none => exact .inl ⟨rfl, h, hthis, g2_unpack4_none hunpack⟩
      | some x =>
        rcases hparts x 11
          (fun prod => { g with numfld := g.numfld + 1, discipline := some disc, prod := some prod })
          with herr | ⟨y, hy, hok⟩
        · exact .inr (.inl ⟨11, by simp, congrArg some herr, by simp⟩)
        · refine .inr (.inr ⟨_, congrArg some hok, ⟨by simp [hthis], ?_⟩, rfl⟩)
          intro p hp
          cases hp
          exact g2_unpack4_model (by rw [hunpack, hy])
    · refine .inr (.inr ⟨_, rfl, ⟨?_, hg.model⟩, rfl⟩)
      simp only [hg.prod]
      omega
  · rename_i h
    rw [hcount h (by decide)]
    split_ifs with hthis
    · rcases hparts (g2_unpack5 cgrib a) 12 (fun pack => { g with pack := some pack }) with herr | ⟨y, _, hok⟩
      · exact .inr (.inl ⟨12, by simp, congrArg some herr, fun _ => hthis⟩)
      · exact .inr (.inr ⟨_, congrArg some hok, ⟨hg.prod, hg.model⟩, rfl⟩)
    · exact .inr (.inr ⟨g, rfl, hg, rfl⟩)
  · rename_i h
    exact .inr (.inr ⟨_, rfl, ⟨hg.prod, hg.model⟩, by rw [hcount h (by decide)]; rfl⟩)
  · rename_i h
    exact .inr (.inr ⟨g, rfl, hg, by rw [hcount rfl ‹_›]; rfl⟩)

/-- The codes that are left to `g2_getfld` by a look at the whole message. -/
def Left (g' : Gribfield) (ierr : Int) : Prop :=
  ierr ∈ [0, 6, 10, 11, 12, 16] ∧ (ierr ∈ [0, 6, 12] → ∃ p, g'.prod = some p ∧ HasModel p)

theorem Tracks.product (hg : Tracks ifldnum g) (h : ifldnum ≤ g.numfld) :
    ∃ p, g.prod = some p ∧ HasModel p := by
  obtain ⟨p, hp⟩ := Option.isSome_iff_exists.1 (hg.prod.2 h)
  exact ⟨p, hp, hg.model p hp⟩

/-- The sections of products, in their order. -/
def products (secs : List Sec) : List Sec := secs.filter (fun s => s.num = 4)

/-- The sections of an accepted message take the field to its end, unless the product that is asked for
has members but no time range. -/
theorem getfld_sections (disc : Int) (hsecs : Sections cgrib a secs b) (hnums : ∀ s ∈ secs, 2 ≤ s.num ∧ s.num ≤ 7)
    (hend : sevens cgrib b = true) (hlast : b + 4 = last) (hg : Tracks ifldnum g)
    (hfields : ifldnum ≤ g.numfld + occurrences 4 secs) :
    (∃ k ierr g', walk (getfldTurn cgrib disc last ifldnum) (k + 1) a g = some (some (ierr, g')) ∧
      Left g' ierr) ∨
    ∃ i s, (products secs)[i]? = some s ∧ g.numfld + 1 + i = ifldnum ∧ MembersOut cgrib s.pos := by
  induction hsecs generalizing g with
  | nil a =>
    refine .inl ⟨0, 6, g, walk_out ?_, by simp, fun _ => hg.product hfields⟩
    rw [getfldTurn, if_pos hend, if_neg (not_not.2 hlast)]
  | @cons a b secs hmore rest ih =>
    have hnum : 2 ≤ isecnum cgrib a ∧ isecnum cgrib a ≤ 7 := hnums _ List.mem_cons_self
    have hin := rest.le.1
    have hturn := getfldTurn_section disc ifldnum g hmore
      ⟨by omega, hnum.2⟩ (show a + lensec cgrib a ≤ last by omega)
    rcases takeSection_step disc hg hnum with ⟨-, hfour, hthis, hout⟩ | ⟨ierr, hierr, herr, htwelve⟩ | ⟨g', hok, hg', hn⟩
    · refine .inr ⟨0, ⟨a, lensec cgrib a, isecnum cgrib a⟩, ?_, hthis, hout⟩
      simp [products, hfour]
    · rw [herr] at hturn
      refine .inl ⟨0, ierr, g, walk_out hturn, ?_, ?_⟩
      · simp only [List.mem_cons, List.not_mem_nil, or_false] at hierr ⊢
        omega
      · intro hcode
        apply hg.product
        simp only [List.mem_cons, List.not_mem_nil, or_false] at hierr hcode
        have heq := htwelve (by omega)
        omega
    · rw [hok] at hturn
      simp only at hturn
      by_cases hcomplete : g'.complete = true
      · rw [if_pos hcomplete] at hturn
        refine .inl ⟨0, 0, g', walk_out hturn, by simp, fun _ => hg'.product (hg'.prod.1 ?_)⟩
        simp only [Gribfield.complete, Bool.and_eq_true] at hcomplete
        exact hcomplete.1.1.2
      · rw [if_neg hcomplete] at hturn
        have hmorefields : ifldnum ≤ g'.numfld + occurrences 4 secs := by
          rw [occurrences_cons] at hfields
          omega
        rcases ih (fun s hs => hnums s (List.mem_cons_of_mem _ hs)) hend hlast hg' hmorefields with
          ⟨k, ierr, g'', hwalk, hleft⟩ | ⟨i, s, hs, hi, hout⟩
        · exact .inl ⟨k + 1, ierr, g'', by rw [walk_on hturn, hwalk], hleft⟩
        · by_cases hfour : isecnum cgrib a = 4
          · refine .inr ⟨i + 1, s, ?_, ?_, hout⟩
            · simpa [products, hfour] using hs
            · simp only [occurrences, hfour, List.countP_singleton, decide_true, if_true] at hn
              omega
          · refine .inr ⟨i, s, ?_, ?_, hout⟩
            · simpa [products, hfour] using hs
            · simp only [occurrences, hfour, List.countP_singleton, decide_false, Bool.false_eq_true,
                if_false] at hn
              omega

/-- An identification and a product of template 4.254, and nothing else. -/
def productOnly : Cgrib := fun i =>
  [71, 82, 73, 66, 0, 0, 0, 2, 0, 0, 0, 0, 0, 0, 0, 56,
    0, 0, 0, 21, 1, 0, 7, 0, 0, 2, 1, 1, 7, 234, 5, 6, 12, 0, 0, 0, 1,
    0, 0, 0, 15, 4, 0, 0, 0, 254, 1, 2, 0, 0, 0, 3, 55, 55, 55, 55].getD i 0

end Turn
end Noaaport.G2
