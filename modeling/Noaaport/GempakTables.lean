import Noaaport.Grib2Fields
import Noaaport.Lib.Cache
import Noaaport.WmoHeader

/-! The tables GEMPAK looks a GRIB2 field up in, one of a kind being held at a time, and the list of
grids, of which the last match is tried first. -/
namespace Noaaport
open Lib

structure G2wmocenter where
  id : Int
  name : Text
  abbr : Text

structure G2Vinfo where
  discpln : Int
  categry : Int
  paramtr : Int
  pdtnmbr : Int
  scale : Int
  hzremap : Int
  direction : Int
  name : Text
  units : Text
  gemname : Text

structure G2level where
  id1 : Int
  id2 : Int
  scale : Int
  name : Text
  unit : Text
  abbr : Text

inductive TableKind where
  | cntr
  | wmovar
  | lclvar
  | wmolvl
  | lcllvl
  deriving DecidableEq

@[reducible] def Row : TableKind → Type
  | .cntr => G2wmocenter
  | .wmovar | .lclvar => G2Vinfo
  | .wmolvl | .lcllvl => G2level

/-- What `ctb_g2rdcntr`, `ctb_g2rdvar` and `ctb_g2rdlvl` make of the file of a name, if they can. The
abbreviation of a center has to leave room for its null in `wmocntr[8]`. -/
structure Files where
  cntr : Text → Option (List G2wmocenter)
  short : ∀ name rows, cntr name = some rows → ∀ row ∈ rows, row.abbr.length < 8
  var : Text → Option (List G2Vinfo)
  lvl : Text → Option (List G2level)

def Files.read (files : Files) : (k : TableKind) → Text → Option (List (Row k))
  | .cntr => files.cntr
  | .wmovar | .lclvar => files.var
  | .wmolvl | .lcllvl => files.lvl

/-- The static tables. -/
abbrev Tables : Type := (k : TableKind) → Held Text (Row k)

def Tables.fresh : Tables := fun _ => Held.fresh

/-- The common part of the functions that get a table: the return code and the table. -/
def fetch (files : Files) (k : TableKind) (ierr : Int) (s : Tables) (name : Text) :
    Tables × Int × List (Row k) :=
  let r := (s k).request (files.read k) name
  (Function.update s k r.1,
    match r.2 with
    | none => (ierr, [])
    | some rows => (0, rows))

def tableName (tbl deftbl : Text) : Text := if tbl.length = 0 then deftbl else tbl

def cntrName (tblnam : Text) : Text := tableName tblnam (ascii "wmocenter.tbl")
def wmovarName (tbl : Text) (iver : Int) : Text :=
  tableName tbl (ascii "g2varswmo" ++ fmt0 0 iver ++ ascii ".tbl")
def lclvarName (tbl cntr : Text) (lclver : Int) : Text :=
  tableName tbl (ascii "g2vars" ++ cntr ++ fmt0 0 lclver ++ ascii ".tbl")
def wmolvlName (tbl : Text) (iver : Int) : Text :=
  tableName tbl (ascii "g2vcrdwmo" ++ fmt0 0 iver ++ ascii ".tbl")
def lcllvlName (tbl cntr : Text) (lclver : Int) : Text :=
  tableName tbl (ascii "g2vcrd" ++ cntr ++ fmt0 0 lclver ++ ascii ".tbl")

def gb2_gtcntr (files : Files) (s : Tables) (cntrid : Int) (tblnam : Text) : Tables × Except Int Text :=
  let r := fetch files .cntr (-13) s (cntrName tblnam)
  (r.1,
    if r.2.1 = 0 then
      match r.2.2.find? fun row => cntrid = row.id with
      | none => .error (-14)
      | some row => .ok row.abbr
    else .error r.2.1)

def gb2_gtwmovartbl (files : Files) (s : Tables) (wmovartbl : Text) (iver : Int) : Tables × Int × List G2Vinfo :=
  fetch files .wmovar (-31) s (wmovarName wmovartbl iver)

def gb2_gtlclvartbl (files : Files) (s : Tables) (lclvartbl cntr : Text) (lclver : Int) :
    Tables × Int × List G2Vinfo :=
  fetch files .lclvar (-31) s (lclvarName lclvartbl cntr lclver)

def gb2_gtwmolvltbl (files : Files) (s : Tables) (wmolvltbl : Text) (iver : Int) : Tables × Int × List G2level :=
  fetch files .wmolvl (-29) s (wmolvlName wmolvltbl iver)

def gb2_gtlcllvltbl (files : Files) (s : Tables) (lcllvltbl cntr : Text) (lclver : Int) :
    Tables × Int × List G2level :=
  fetch files .lcllvl (-29) s (lcllvlName lcllvltbl cntr lclver)

def gb2_skvar (disc cat id pdtn : Int) (vartbl : List G2Vinfo) : Option G2Vinfo :=
  vartbl.find? fun row => disc = row.discpln ∧ cat = row.categry ∧ id = row.paramtr ∧ pdtn = row.pdtnmbr

def gb2_sklvl (lvl1 lvl2 : Int) (lvltbl : List G2level) : Option G2level :=
  lvltbl.find? fun row => lvl1 = row.id1 ∧ lvl2 = row.id2

/-- What is looked up of a field. `wmocntr` has no value of this field where its center is not found:
`stale` is what is there then. -/
structure Lookup where
  idsect : List Int
  discipline : Int
  prod : G2.Product
  stale : Text

/-- Code figures that are not for local use. -/
def wmoCode (x : Int) : Bool := x < 192 ∨ x = 255

def Lookup.local (m : Lookup) : Bool :=
  m.idsect.getD 2 0 = 255 ∨ ¬ (wmoCode m.discipline ∧ wmoCode (m.prod.ipdtmpl.getD 0 0) ∧
    wmoCode (m.prod.ipdtmpl.getD 1 0) ∧ (m.prod.ipdtnum < 32768 ∨ m.prod.ipdtnum = 65535))

def Lookup.skvar (m : Lookup) (vartbl : List G2Vinfo) : Option G2Vinfo :=
  gb2_skvar m.discipline (m.prod.ipdtmpl.getD 0 0) (m.prod.ipdtmpl.getD 1 0) m.prod.ipdtnum vartbl

def Lookup.sklvl (m : Lookup) (lvltbl : List G2level) : Option G2level :=
  gb2_sklvl (m.prod.ipdtmpl.getD 9 0) (m.prod.ipdtmpl.getD 12 0) lvltbl

/-- The row of the parameter table that `gb2_param` names the parameter by. -/
def gb2_param (files : Files) (tbls : TableKind → Text) (origcntr : Text) (s : Tables) (m : Lookup) :
    Tables × Option G2Vinfo :=
  let r := if m.local then gb2_gtlclvartbl files s (tbls .lclvar) origcntr (m.idsect.getD 3 0)
    else gb2_gtwmovartbl files s (tbls .wmovar) (m.idsect.getD 2 0)
  (r.1, if r.2.1 = 0 then m.skvar r.2.2 else none)

/-- The return code of `gb2_vlev`. -/
def gb2_vlev (p : G2.Product) : Int := if p.ipdtnum < 20 then 0 else -27

/-- The row of the level table that `gb2_vcrd` takes the coordinate and the unit from, none where it
returns an error. -/
def gb2_vcrd (files : Files) (tbls : TableKind → Text) (origcntr : Text) (s : Tables) (m : Lookup) :
    Tables × Option G2level :=
  let r := if wmoCode (m.prod.ipdtmpl.getD 9 0) ∧ wmoCode (m.prod.ipdtmpl.getD 12 0) then
      gb2_gtwmolvltbl files s (tbls .wmolvl) (m.idsect.getD 2 0)
    else gb2_gtlcllvltbl files s (tbls .lcllvl) origcntr (m.idsect.getD 3 0)
  (r.1, (if r.2.1 = 0 then m.sklvl r.2.2 else none).filter fun _ => gb2_vlev m.prod = 0)

/-- `cst_uclc`, of one character. -/
def lower (c : UInt8) : UInt8 := if 65 ≤ c ∧ c ≤ 90 then c + 32 else c

def Lookup.origcntr (m : Lookup) (wmocntr : Except Int Text) : Text :=
  match wmocntr with
  | .error _ => m.stale.map lower
  | .ok abbr => abbr.map lower

/-- The rows `gb2_2gem` describes a field by, none where it stops with -34 at the parameter or the
level. The code of `gb2_ftim` does not stop it. -/
def gb2_2gem (files : Files) (tbls : TableKind → Text) (s : Tables) (m : Lookup) :
    Tables × Option (G2Vinfo × G2level) :=
  let c := gb2_gtcntr files s (m.idsect.getD 0 0) (tbls .cntr)
  let p := gb2_param files tbls (m.origcntr c.2) c.1 m
  match p.2 with
  | none => (p.1, none)
  | some var =>
    let l := gb2_vcrd files tbls (m.origcntr c.2) p.1 m
    (l.1, l.2.map fun lvl => (var, lvl))

/-- The names asked for of one kind, the latest first. -/
def namesOf (k : TableKind) (asks : List (TableKind × Text)) : List Text :=
  (asks.filter fun a => a.1 = k).map fun a => a.2

/-- The requests of `gb2_param` and `gb2_vcrd`. -/
def Lookup.varAsk (tbls : TableKind → Text) (origcntr : Text) (m : Lookup) : TableKind × Text :=
  if m.local then (.lclvar, lclvarName (tbls .lclvar) origcntr (m.idsect.getD 3 0))
  else (.wmovar, wmovarName (tbls .wmovar) (m.idsect.getD 2 0))

def Lookup.lvlAsk (tbls : TableKind → Text) (origcntr : Text) (m : Lookup) : TableKind × Text :=
  if wmoCode (m.prod.ipdtmpl.getD 9 0) ∧ wmoCode (m.prod.ipdtmpl.getD 12 0) then
    (.wmolvl, wmolvlName (tbls .wmolvl) (m.idsect.getD 2 0))
  else (.lcllvl, lcllvlName (tbls .lcllvl) origcntr (m.idsect.getD 3 0))

/-- The table was lost before. -/
def LostVar (files : Files) (asks : List (TableKind × Text)) (a : TableKind × Text) : Prop :=
  Held.Lost files.var (namesOf a.1 asks) a.2

def LostLvl (files : Files) (asks : List (TableKind × Text)) (a : TableKind × Text) : Prop :=
  Held.Lost files.lvl (namesOf a.1 asks) a.2

/-- The center as a cache yields it that holds nothing yet. -/
def Lookup.origin (files : Files) (tbls : TableKind → Text) (m : Lookup) : Text :=
  m.origcntr (gb2_gtcntr files Tables.fresh (m.idsect.getD 0 0) (tbls .cntr)).2

/-- The requests for a field, the latest first. -/
def Lookup.requests (files : Files) (tbls : TableKind → Text) (s : Tables) (m : Lookup) : List (TableKind × Text) :=
  let o := m.origin files tbls
  let c := gb2_gtcntr files s (m.idsect.getD 0 0) (tbls .cntr)
  let before := [m.varAsk tbls o, (.cntr, cntrName (tbls .cntr))]
  if (gb2_param files tbls o c.1 m).2.isSome then m.lvlAsk tbls o :: before else before

/-- The tables behind fields, the latest first, and the requests that were made. -/
def gempakRun (files : Files) (tbls : TableKind → Text) : List Lookup → Tables × List (TableKind × Text)
  | [] => (Tables.fresh, [])
  | m :: past =>
    let r := gempakRun files tbls past
    ((gb2_2gem files tbls r.1 m).1, m.requests files tbls r.1 ++ r.2)

section Fetching
variable {files : Files} {tbls : TableKind → Text} {s : Tables} {asks : List (TableKind × Text)} {k : TableKind}
  {ierr : Int} {name : Text} {m : Lookup}

/-- The tables hold what their requests left there. -/
def Holding (files : Files) (asks : List (TableKind × Text)) (s : Tables) : Prop :=
  ∀ k, Held.Holds (files.read k) (namesOf k asks) (s k)

theorem holding_fresh : Holding files [] Tables.fresh := fun _ => Held.Holds.fresh

/-- A request for a table of one kind leaves those of the others as they are. -/
theorem Holding.fetch (h : Holding files asks s) (k : TableKind) (ierr : Int) (name : Text) :
    Holding files ((k, name) :: asks) (fetch files k ierr s name).1 := by
  intro k'
  unfold Noaaport.fetch namesOf
  by_cases hk : k' = k
  · subst hk
    simp only [Function.update_self, List.filter_cons, decide_true, if_true, List.map_cons]
    exact (h k').request name
  · simp only [Function.update_of_ne hk, List.filter_cons, decide_eq_false (Ne.symm hk), Bool.false_eq_true,
      if_false]
    exact h k'

/-- What is found in the table that is got: what is in the file, or nothing where that was lost. -/
theorem Holding.found {α : Type} (h : Holding files asks s) (hierr : ierr ≠ 0)
    {look : List (Row k) → Option α} (hlook : look [] = none) :
    (Held.Lost (files.read k) (namesOf k asks) name →
      (if (Noaaport.fetch files k ierr s name).2.1 = 0 then look (Noaaport.fetch files k ierr s name).2.2
        else none) = none) ∧
    (¬ Held.Lost (files.read k) (namesOf k asks) name →
      (if (Noaaport.fetch files k ierr s name).2.1 = 0 then look (Noaaport.fetch files k ierr s name).2.2
        else none) = (files.read k name).bind look) := by
  obtain ⟨hlost, hkept, hnone⟩ := (h k).served name
  unfold Noaaport.fetch
  dsimp only
  constructor
  · intro hl
    by_cases hread : files.read k name = none
    · simp [hnone hread, hierr]
    · simp [hlost hl hread, hlook]
  · intro hl
    have hserved := hkept hl
    cases hread : files.read k name with
    | none => simp [hserved, hread, hierr]
    | some rows => simp [hserved, hread]

theorem Holding.param (h : Holding files asks s) (tbls : TableKind → Text) (m : Lookup) (origcntr : Text) :
    Holding files (m.varAsk tbls origcntr :: asks) (gb2_param files tbls origcntr s m).1 ∧
    (LostVar files asks (m.varAsk tbls origcntr) → (gb2_param files tbls origcntr s m).2 = none) ∧
    (¬ LostVar files asks (m.varAsk tbls origcntr) → (gb2_param files tbls origcntr s m).2 =
      (files.var (m.varAsk tbls origcntr).2).bind m.skvar) := by
  unfold gb2_param Lookup.varAsk LostVar
  by_cases hl : m.local
  · simp only [if_pos hl]
    exact ⟨h.fetch _ _ _, h.found (by decide) rfl⟩
  · simp only [if_neg hl]
    exact ⟨h.fetch _ _ _, h.found (by decide) rfl⟩

theorem Holding.vcrd (h : Holding files asks s) (tbls : TableKind → Text) (m : Lookup) (origcntr : Text) :
    Holding files (m.lvlAsk tbls origcntr :: asks) (gb2_vcrd files tbls origcntr s m).1 ∧
    (LostLvl files asks (m.lvlAsk tbls origcntr) → (gb2_vcrd files tbls origcntr s m).2 = none) ∧
    (¬ LostLvl files asks (m.lvlAsk tbls origcntr) → (gb2_vcrd files tbls origcntr s m).2 =
      ((files.lvl (m.lvlAsk tbls origcntr).2).bind m.sklvl).filter fun _ => gb2_vlev m.prod = 0) := by
  unfold gb2_vcrd Lookup.lvlAsk LostLvl
  by_cases hl : wmoCode (m.prod.ipdtmpl.getD 9 0) ∧ wmoCode (m.prod.ipdtmpl.getD 12 0)
  · simp only [if_pos hl]
    refine ⟨h.fetch _ _ _, fun hl => ?_, fun hl => ?_⟩
    · refine Eq.trans (congrArg (Option.filter _) ?_) (Option.filter_none _)
      exact (h.found (by decide) rfl).1 hl
    · exact congrArg (Option.filter _) ((h.found (by decide) rfl).2 hl)
  · simp only [if_neg hl]
    refine ⟨h.fetch _ _ _, fun hl => ?_, fun hl => ?_⟩
    · refine Eq.trans (congrArg (Option.filter _) ?_) (Option.filter_none _)
      exact (h.found (by decide) rfl).1 hl
    · exact congrArg (Option.filter _) ((h.found (by decide) rfl).2 hl)

/-- And the table of centers was asked for under one name only. -/
structure Runs (files : Files) (tbls : TableKind → Text) (asks : List (TableKind × Text)) (s : Tables) : Prop where
  holding : Holding files asks s
  centers : ∀ x ∈ namesOf .cntr asks, x = cntrName (tbls .cntr)

theorem namesOf_cons (k : TableKind) (a : TableKind × Text) (asks : List (TableKind × Text)) :
    namesOf k (a :: asks) = if a.1 = k then a.2 :: namesOf k asks else namesOf k asks := by
  unfold namesOf
  by_cases h : a.1 = k <;> simp [h]

theorem varAsk_kind (m : Lookup) (tbls : TableKind → Text) (origcntr : Text) :
    (m.varAsk tbls origcntr).1 = .lclvar ∨ (m.varAsk tbls origcntr).1 = .wmovar := by
  unfold Lookup.varAsk
  split_ifs
  · exact .inl rfl
  · exact .inr rfl

theorem lvlAsk_kind (m : Lookup) (tbls : TableKind → Text) (origcntr : Text) :
    (m.lvlAsk tbls origcntr).1 = .wmolvl ∨ (m.lvlAsk tbls origcntr).1 = .lcllvl := by
  unfold Lookup.lvlAsk
  split_ifs
  · exact .inl rfl
  · exact .inr rfl

theorem Runs.gtcntr (h : Runs files tbls asks s) (cntrid : Int) :
    Runs files tbls ((.cntr, cntrName (tbls .cntr)) :: asks) (gb2_gtcntr files s cntrid (tbls .cntr)).1 ∧
      (gb2_gtcntr files s cntrid (tbls .cntr)).2 = (gb2_gtcntr files Tables.fresh cntrid (tbls .cntr)).2 := by
  have hserved : ∀ asks s, Runs files tbls asks s →
      ((s .cntr).request (files.read .cntr) (cntrName (tbls .cntr))).2 = files.read .cntr (cntrName (tbls .cntr)) := by
    intro asks s h
    obtain ⟨-, hkept, hnone⟩ := (h.holding .cntr).served (cntrName (tbls .cntr))
    by_cases hread : files.read .cntr (cntrName (tbls .cntr)) = none
    · rw [hnone hread, hread]
    · exact hkept (Held.not_lost_of_const hread h.centers)
  refine ⟨⟨h.holding.fetch .cntr (-13) _, ?_⟩, ?_⟩
  · intro x hx
    rw [namesOf_cons, if_pos rfl] at hx
    exact (List.mem_cons.1 hx).elim id (h.centers x)
  · have hfresh := hserved [] Tables.fresh ⟨holding_fresh, by simp [namesOf]⟩
    have hheld := hserved asks s h
    simp only [gb2_gtcntr, fetch, hheld, hfresh]

theorem lostVar_cons {a b : TableKind × Text} (h : b.1 ≠ a.1) :
    LostVar files (b :: asks) a ↔ LostVar files asks a := by
  unfold LostVar
  rw [namesOf_cons, if_neg h]

theorem lostLvl_cons {a b : TableKind × Text} (h : b.1 ≠ a.1) :
    LostLvl files (b :: asks) a ↔ LostLvl files asks a := by
  unfold LostLvl
  rw [namesOf_cons, if_neg h]

theorem Runs.cons {a : TableKind × Text} {s' : Tables} (h : Runs files tbls asks s) (ha : a.1 ≠ .cntr)
    (hs : Holding files (a :: asks) s') : Runs files tbls (a :: asks) s' :=
  ⟨hs, by rw [namesOf_cons, if_neg ha]; exact h.centers⟩

theorem gb2_2gem_runs (h : Runs files tbls asks s) (m : Lookup) :
    Runs files tbls (m.requests files tbls s ++ asks) (gb2_2gem files tbls s m).1 ∧
    (LostVar files asks (m.varAsk tbls (m.origin files tbls)) ∨ LostLvl files asks (m.lvlAsk tbls (m.origin files tbls)) →
      (gb2_2gem files tbls s m).2 = none) ∧
    (¬ LostVar files asks (m.varAsk tbls (m.origin files tbls)) ∧
        ¬ LostLvl files asks (m.lvlAsk tbls (m.origin files tbls)) →
      (gb2_2gem files tbls s m).2 = ((files.var (m.varAsk tbls (m.origin files tbls)).2).bind m.skvar).bind fun var =>
        (((files.lvl (m.lvlAsk tbls (m.origin files tbls)).2).bind m.sklvl).filter
          fun _ => gb2_vlev m.prod = 0).map fun lvl => (var, lvl)) := by
  obtain ⟨hc, hcntr⟩ := h.gtcntr (m.idsect.getD 0 0)
  have horigin : m.origcntr (gb2_gtcntr files s (m.idsect.getD 0 0) (tbls .cntr)).2 = m.origin files tbls := by
    rw [hcntr]
    rfl
  unfold gb2_2gem Lookup.requests
  dsimp only
  rw [horigin]
  generalize gb2_gtcntr files s (m.idsect.getD 0 0) (tbls .cntr) = c at hc
  generalize m.origin files tbls = o
  obtain ⟨hpar, hlost, hfound⟩ := hc.holding.param tbls m o
  have hvar := varAsk_kind m tbls o
  have hlvl := lvlAsk_kind m tbls o
  have hruns := hc.cons (by rcases hvar with hk | hk <;> simp [hk]) hpar
  rw [lostVar_cons (by rcases hvar with hk | hk <;> simp [hk])] at hlost hfound
  obtain ⟨hvcrd, hlost', hfound'⟩ := hpar.vcrd tbls m o
  have hkind : (m.varAsk tbls o).1 ≠ (m.lvlAsk tbls o).1 := by
    rcases hvar with hk | hk <;> rcases hlvl with hk' | hk' <;> simp [hk, hk']
  have hcntr : TableKind.cntr ≠ (m.lvlAsk tbls o).1 := by rcases hlvl with hk | hk <;> simp [hk]
  rw [lostLvl_cons hkind, lostLvl_cons hcntr] at hlost' hfound'
  cases hp : (gb2_param files tbls o c.1 m).2 with
  | none =>
    refine ⟨hruns, fun _ => rfl, fun hkept => ?_⟩
    rw [← hfound hkept.1, hp]
    rfl
  | some var =>
    refine ⟨hruns.cons (by rcases hlvl with hk | hk <;> simp [hk]) hvcrd, fun hl => ?_, fun hkept => ?_⟩
    · have hl' := hl.resolve_left fun hv => absurd (hp.symm.trans (hlost hv)) (by simp)
      rw [hlost' hl']
      rfl
    · rw [← hfound hkept.1, hp, hfound' hkept.2]
      rfl

/-- In every run a field of a template below 20 is described as its tables say, but where one of them
was lost since it was read: by a request for a table that cannot be read, and no request since that for
another that can. A field of another template is not described. -/
theorem gb2_2gem_history (files : Files) (tbls : TableKind → Text) (past : List Lookup) (m : Lookup) :
    let r := gempakRun files tbls past
    let v := m.varAsk tbls (m.origin files tbls)
    let l := m.lvlAsk tbls (m.origin files tbls)
    (LostVar files r.2 v ∨ LostLvl files r.2 l ∨ 20 ≤ m.prod.ipdtnum → (gb2_2gem files tbls r.1 m).2 = none) ∧
      (¬ LostVar files r.2 v ∧ ¬ LostLvl files r.2 l ∧ m.prod.ipdtnum < 20 → (gb2_2gem files tbls r.1 m).2 =
        ((files.var v.2).bind m.skvar).bind fun var => ((files.lvl l.2).bind m.sklvl).map fun lvl => (var, lvl)) := by
  have hruns : Runs files tbls (gempakRun files tbls past).2 (gempakRun files tbls past).1 := by
    induction past with
    | nil => exact ⟨holding_fresh, by simp [gempakRun, namesOf]⟩
    | cons m past ih => exact (gb2_2gem_runs ih m).1
  intro r v l
  obtain ⟨-, hlost, hkept⟩ := gb2_2gem_runs hruns m
  constructor
  · intro h
    by_cases hl : LostVar files r.2 v ∨ LostLvl files r.2 l
    · exact hlost hl
    · have h20 : 20 ≤ m.prod.ipdtnum := (h.resolve_left fun hv => hl (.inl hv)).resolve_left fun hv => hl (.inr hv)
      have hcode : gb2_vlev m.prod = -27 := if_neg (Int.not_lt.2 h20)
      rw [hkept (not_or.1 hl), hcode]
      simp
  · intro h
    obtain ⟨hvar, hlvl, h20⟩ := h
    have hcode : gb2_vlev m.prod = 0 := if_pos h20
    have hall : ∀ o : Option G2level, (o.filter fun _ => gb2_vlev m.prod = 0) = o := by
      intro o
      rw [hcode]
      cases o <;> rfl
    rw [hkept ⟨hvar, hlvl⟩, hall]

end Fetching
/-- A field of another version, whose tables are not there, hides those of the fields around it. -/
def someFiles : Files where
  cntr name := if name = ascii "wmocenter.tbl" then some [⟨7, [], ascii "NCEP"⟩] else none
  short name rows h row hrow := by
    split_ifs at h
    cases h
    rw [List.mem_singleton.1 hrow]
    decide
  var name :=
    if name = ascii "g2varswmo2.tbl" then some [⟨0, 0, 0, 0, 0, 0, 0, [], [], ascii "TMPK"⟩] else none
  lvl name := if name = ascii "g2vcrdwmo2.tbl" then some [⟨100, 255, -2, [], ascii "Pa", ascii "PRES"⟩] else none

def someLookup (iver : Int) : Lookup :=
  ⟨[7, 0, iver, 0], 0, ⟨0, [0, 0, 2, 0, 96, 0, 0, 1, 6, 100, 0, 50000, 255, 0, 0], []⟩, []⟩

example : (gb2_2gem someFiles (fun _ => []) Tables.fresh (someLookup 2)).2.isSome = true ∧
    (gb2_2gem someFiles (fun _ => []) (gempakRun someFiles (fun _ => []) [someLookup 3, someLookup 2]).1
      (someLookup 2)).2.isSome = false := by decide

/-- The projections of the grids that are told apart, with what `grdnav.tbl` calls them. -/
inductive Proj where
  | ced
  | mer
  | str
  | lcc
  deriving DecidableEq

def Proj.name : Proj → Text
  | .ced => ascii "CED"
  | .mer => ascii "MER"
  | .str => ascii "STR"
  | .lcc => ascii "LCC"

/-- What a template needs to be compared. -/
def Proj.gdtlen : Proj → Nat
  | .ced => 18
  | .mer => 19
  | .str => 18
  | .lcc => 21

/-- A row of `grdnav.tbl`; `place` is its angles and its corners. -/
structure NavList (P : Type*) where
  gnum : Int
  proj : Text
  kx : Int
  ky : Int
  place : P

section Grids
variable {P : Type*}

/-- The list that `grdnav_init` builds, the last row of the table first, and whether the floating-point
numbers of a template are near those of a row; in `ced_num` this stands also for the loop that takes
360 degrees off a longitude while it is above 180. -/
structure Grdnav (P : Type*) where
  nav_head : List (NavList P)
  near : Proj → List Int → P → Bool

def Grdnav.agrees (nav : Grdnav P) (k : Proj) (gdtmpl : List Int) (q : NavList P) : Bool :=
  q.proj = k.name ∧ gdtmpl.getD 7 0 = q.kx ∧ gdtmpl.getD 8 0 = q.ky ∧ nav.near k gdtmpl q.place

def gridNumber (found : Option (NavList P)) : Int := (found.map fun q => q.gnum).getD 255

/-- `ced_num`, `mer_num`, `str_num` and `lcc_num`, each with a last match of its own. -/
def projNum (nav : Grdnav P) (k : Proj) (s : Proj → Option (NavList P)) (gdtmpl : List Int) :
    (Proj → Option (NavList P)) × Int :=
  if gdtmpl.length < k.gdtlen then (s, 255)
  else
    let found := search nav.nav_head (nav.agrees k gdtmpl) (s k)
    (Function.update s k (found.or (s k)), gridNumber found)

def Proj.ofTemplate (igdtnum : Int) : Option Proj :=
  if igdtnum = 0 then some .ced
  else if igdtnum = 10 then some .mer
  else if igdtnum = 20 then some .str
  else if igdtnum = 30 then some .lcc
  else none

/-- The grid number of a template number and a template. -/
def decode_g2gnum (nav : Grdnav P) (s : Proj → Option (NavList P)) (g : Int × List Int) :
    (Proj → Option (NavList P)) × Int :=
  match Proj.ofTemplate g.1 with
  | none => (s, 255)
  | some k => projNum nav k s g.2

/-- The last matches behind fields, the latest first. -/
def gnumRun (nav : Grdnav P) : List (Int × List Int) → Proj → Option (NavList P)
  | [] => fun _ => none
  | g :: past => (decode_g2gnum nav (gnumRun nav past) g).1

/-- Whether a field is searched for among the grids of a projection. -/
def searches (k : Proj) (g : Int × List Int) : Bool := Proj.ofTemplate g.1 = some k ∧ k.gdtlen ≤ g.2.length

variable {nav : Grdnav P} {past : List (Int × List Int)}

theorem decode_step (nav : Grdnav P) (s : Proj → Option (NavList P)) (g : Int × List Int) :
    (∀ k, searches k g = false → (decode_g2gnum nav s g).1 k = s k) ∧
    ∀ k, searches k g = true →
      (decode_g2gnum nav s g).1 k = (search nav.nav_head (nav.agrees k g.2) (s k)).or (s k) ∧
      (decode_g2gnum nav s g).2 = gridNumber (search nav.nav_head (nav.agrees k g.2) (s k)) := by
  unfold decode_g2gnum searches
  cases hp : Proj.ofTemplate g.1 with
  | none => simp
  | some k =>
    unfold projNum
    by_cases hlen : g.2.length < k.gdtlen
    · simp only [if_pos hlen]
      refine ⟨fun _ _ => trivial, fun k' hk' => ?_⟩
      simp only [Option.some.injEq, Bool.decide_and, Bool.and_eq_true, decide_eq_true_eq] at hk'
      obtain ⟨rfl, hge⟩ := hk'
      omega
    · simp only [if_neg hlen]
      constructor
      · intro k' hk'
        apply Function.update_of_ne
        rintro rfl
        simp [Nat.le_of_not_lt hlen] at hk'
      · intro k' hk'
        simp only [Option.some.injEq, Bool.decide_and, Bool.and_eq_true, decide_eq_true_eq] at hk'
        obtain ⟨rfl, -⟩ := hk'
        exact ⟨Function.update_self .., rfl⟩

theorem decode_unsearched (s : Proj → Option (NavList P)) (g : Int × List Int) (h : ∀ k, searches k g = false) :
    (decode_g2gnum nav s g).2 = 255 := by
  unfold decode_g2gnum
  cases hp : Proj.ofTemplate g.1 with
  | none => rfl
  | some k =>
    have hlen := h k
    simp only [searches, hp, decide_true, Bool.true_and, Bool.decide_and, decide_eq_false_iff_not,
      Nat.not_le] at hlen
    exact congrArg Prod.snd (if_pos hlen)

/-- The projections do not share their last matches. -/
theorem gnumRun_latest (k : Proj) : gnumRun nav past k =
    latest nav.nav_head (fun g => nav.agrees k g.2) (past.filter (searches k)) := by
  induction past with
  | nil => rfl
  | cons g past ih =>
    obtain ⟨hother, hthis⟩ := decode_step nav (gnumRun nav past) g
    unfold gnumRun
    cases hk : searches k g with
    | false => rw [hother k hk, ih, List.filter_cons_of_neg (by simp [hk])]
    | true => rw [(hthis k hk).1, ih, List.filter_cons_of_pos hk, latest]

def Proj.igdtnum : Proj → Int
  | .ced => 0
  | .mer => 10
  | .str => 20
  | .lcc => 30

theorem ofTemplate_igdtnum (k : Proj) : Proj.ofTemplate k.igdtnum = some k := by
  cases k <;> rfl

end Grids
end Noaaport
