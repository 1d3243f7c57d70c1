import Noaaport.WmoHeadings

/-! `grib2name`: the name of a GRIB2 message, made field by field. What `g2_info`, `g2_getfld`,
`decode_g2gnum` and `gb2_2gem` yield is given. -/
namespace Noaaport
open Lib

/-- NULL is read through, an array is outgrown, or a variable is printed that has no value of this
message. -/
inductive NameFault where
  | nullTemplate
  | prods
  | prodtmp
  | unassigned
  deriving DecidableEq

def isBlank (c : UInt8) : Bool := c = 9 ∨ c = 32

/-- What `gb2_2gem` fills in; its `gdattm2` is a static string of blanks. -/
structure Geminfo where
  gdattm1 : Text
  gdattm2 : Text
  level : Int32 × Int32
  vcord : UInt32
  unit : Text
  parm : Text
  length_gdattm1 : gdattm1.length ≤ 20
  blank_gdattm2 : ∀ c ∈ gdattm2, isBlank c = true
  length_unit : unit.length ≤ 20
  length_parm : parm.length ≤ 12

/-- A field as `g2_getfld` leaves it, whatever it returns, and what is made of it: a NULL template
where it stopped before one, no `griddef` where it unpacked no section 3, and no number where
`decode_g2gnum` reads a grid template that is NULL. -/
structure Grib2Field where
  ipdtmpl : Option (List Int32)
  griddef : Option Int32
  gnum : Option Int32
  gem : Option Geminfo

/-- The originating center of `listsec1` and the fields, where `g2_info` succeeds. -/
structure Grib2Message where
  center : Int32
  fields : List Grib2Field

/-- The variables of `grib2name` that are printed. -/
structure NameVars where
  modelId : Option Int32
  gridId : Option Int32
  fdats : Option Text
  levelstmp : Option Text
  prods : Text

def cstRmbl (t : Text) : Text := t.filter fun c => !isBlank c

/-- `cst_rxbl`: a blank behind a word stays, the blanks that follow it go. -/
def cstRxbl (skip : Bool) : Text → Text
  | [] => []
  | c :: t =>
    if isBlank c then if skip then cstRxbl true t else 32 :: cstRxbl true t
    else c :: cstRxbl false t

/-- `cst_itoc` of one number, as `%s` prints it: its bytes in memory behind leading NULs. -/
def cstItoc (v : UInt32) : Text :=
  let bytes := [v.toUInt8, (v >>> 8).toUInt8, (v >>> 16).toUInt8, (v >>> 24).toUInt8]
  (bytes.dropWhile (· = 0)).takeWhile (· ≠ 0)

/-- The slashes of `fdats` are removed one by one until one was at 0, or there was none. -/
def rmSlashes : Nat → Text → Text
  | 0, t => t
  | fuel + 1, t =>
    match t.findIdx? (· = 47) with
    | none => t
    | some 0 => t.eraseIdx 0
    | some pos => rmSlashes fuel (t.eraseIdx pos)

def Geminfo.levels (gem : Geminfo) : Text :=
  let unit := if (cstRxbl true gem.unit).length = 0 then ascii "-" else cstRxbl true gem.unit
  let level :=
    if gem.level.2 = -1 then fmt0 0 gem.level.1.toInt
    else fmt0 0 gem.level.1.toInt ++ ascii "-" ++ fmt0 0 gem.level.2.toInt
  level ++ ascii " " ++ unit ++ ascii " " ++ cstItoc gem.vcord

def Geminfo.fdats (gem : Geminfo) : Text :=
  let gdattm1 := cstRmbl gem.gdattm1
  let gdattm2 := cstRmbl gem.gdattm2
  let fdats := if gdattm2.length > 0 then gdattm1 ++ ascii "-" ++ gdattm2 else gdattm1
  rmSlashes fdats.length fdats

/-- An entry that the template does not have is no model. -/
def Grib2Field.modelId (f : Grib2Field) : Option Int32 := f.ipdtmpl.bind (·[4]?)

def Grib2Field.gridId (f : Grib2Field) : Except NameFault Int32 :=
  match f.griddef with
  | none => .error .unassigned
  | some griddef =>
    if griddef = 0 then
      match f.gnum with
      | none => .error .nullTemplate
      | some gnum => .ok gnum
    else .ok griddef

/-- `char prods[128]` -/
def appendProds (prods t : Text) : Except NameFault Text :=
  if prods.length + t.length < 128 then .ok (prods ++ t) else .error .prods

/-- The parameter, behind a semicolon from the second field on. -/
def addParm (n : Nat) (prods : Text) (gem : Geminfo) : Except NameFault Text := do
  let prods ← if n > 0 then appendProds prods (ascii ";") else .ok prods
  appendProds prods (cstRmbl gem.parm)

/-- One turn of the loop. -/
def nameField (n : Nat) (v : NameVars) (f : Grib2Field) : Except NameFault NameVars :=
  match f.ipdtmpl with
  | none => .error .nullTemplate
  | some _ => do
    let gridId ← f.gridId
    let v := { v with modelId := f.modelId, gridId := some gridId }
    match f.gem with
    | none => .ok { v with fdats := some (ascii "FHRS"), levelstmp := some (ascii "LVL") }
    | some gem => do
      let prods ← addParm n v.prods gem
      .ok { v with fdats := some gem.fdats, levelstmp := some gem.levels, prods }

def nameFields (n : Nat) (v : NameVars) : List Grib2Field → Except NameFault NameVars
  | [] => .ok v
  | f :: fs => do nameFields (n + 1) (← nameField n v f) fs

/-- The tables behind the letters from 'A' to 'Z'. -/
def gridids (tt : UInt8) : List Int :=
  if tt = 72 then
    [21, 22, 23, 24, 25, 26, 50, -1, 37, 38, 39, 40, 41, 42, 43, 44, -1, -1, -1, 61, 62, 63, 64,
      -1, -1, 255]
  else if tt = 69 ∨ tt = 79 then
    [228, 218, 219, 220, 221, 229, 230, 231, 232, 233, 234, 235, 238, 239, 244, 251, 253, 212,
      253, 214, 215, 216, 173, -1, -1, 255]
  else if tt = 76 ∨ tt = 77 ∨ tt = 89 ∨ tt = 90 then
    [201, 218, 175, 130, 185, 186, 160, 213, 202, 203, 204, 205, 227, 207, 254, 237, 211, 212,
      242, 161, 215, 216, 236, -1, 217, 255]
  else []

def wmoToGridid (tt aa : UInt8) : Int :=
  if 65 ≤ aa.toNat then (gridids tt).getD (aa.toNat - 65) (-1) else -1

/-- The grid that is printed; the bulletin's header stands in for grid 0. -/
def printedGrid (wmohead : Text) (gridId : Int32) : Int :=
  let n := wmoToGridid (wmohead.getD 0 0) (wmohead.getD 2 0)
  if gridId = 0 ∧ 11 < wmohead.length ∧ wmohead.getD 7 0 = 75 ∧ wmohead.getD 8 0 = 87 ∧ 0 < n then n
  else gridId.toInt

/-- `"%s/%s/%s/#%03d/%s/%s/%s"` into `char prodtmp[255]` -/
def printName (order : List GribArg) (m : IdBuf → Text) (center : Int32) (wmohead : Text)
    (v : NameVars) : Except NameFault Text :=
  match v.modelId, v.gridId, v.fdats, v.levelstmp with
  | some modelId, some gridId, some fdats, some levelstmp =>
    let prodtmp := slashed [ascii "grib2",
      originText order m center.toUInt32.toUInt8 modelId.toUInt32.toUInt8,
      ascii "#" ++ fmt0 3 (printedGrid wmohead gridId), fdats, v.prods, levelstmp]
    if prodtmp.length < 255 then .ok prodtmp else .error .prodtmp
  | _, _, _, _ => .error .unassigned

def NameVars.blank : NameVars := ⟨none, none, none, none, []⟩

/-- The name, if `g2_info` accepts the message. -/
def grib2name (order : List GribArg) (m : IdBuf → Text) (info : Option Grib2Message)
    (wmohead : Text) : Except NameFault (Option Text) :=
  match info with
  | none => .ok none
  | some msg => do
    let v ← nameFields 0 .blank msg.fields
    let ident ← printName order m msg.center wmohead v
    .ok (some ident)

/-- No fault, in whatever order the labels are made. -/
def Grib2Copes (info : Option Grib2Message) (wmohead : Text) : Prop :=
  ∀ order, order.Perm GribArg.all → ∀ m, ∃ ident, grib2name order m info wmohead = .ok ident

/-- What a field adds to the list of parameters. -/
def Geminfo.width (n : Nat) (gem : Geminfo) : Nat :=
  (if n > 0 then 1 else 0) + (cstRmbl gem.parm).length

def fieldWidth (n : Nat) (f : Grib2Field) : Nat :=
  match f.gem with
  | none => 0
  | some gem => gem.width n

def listWidth (n : Nat) : List Grib2Field → Nat
  | [] => 0
  | f :: fs => fieldWidth n f + listWidth (n + 1) fs

/-- The field has a product definition template, a grid definition, and a grid template where the
grid has no number. -/
structure Grib2Field.Defined (f : Grib2Field) : Prop where
  template : f.ipdtmpl ≠ none
  griddef : f.griddef ≠ none
  grid : f.griddef = some 0 → f.gnum ≠ none

/-- So has every field, and the last one a fifth entry in its template. -/
structure Grib2Message.Nameable (msg : Grib2Message) : Prop where
  fields : ∀ f ∈ msg.fields, f.Defined
  list : listWidth 0 msg.fields < 128
  last : ∃ f ∈ msg.fields.getLast?, ∃ tmpl ∈ f.ipdtmpl, 4 < tmpl.length

section Texts
variable {gem : Geminfo} {t : Text}

theorem length_cstRmbl_le (t : Text) : (cstRmbl t).length ≤ t.length :=
  List.length_filter_le _ t

theorem length_cstRxbl_le (skip : Bool) (t : Text) : (cstRxbl skip t).length ≤ t.length := by
  induction t generalizing skip with
  | nil => exact Nat.le_refl 0
  | cons c t ih =>
    have htrue := ih true
    have hfalse := ih false
    rw [cstRxbl, List.length_cons]
    split_ifs
    · omega
    · rw [List.length_cons]
      omega
    · rw [List.length_cons]
      omega

theorem length_cstItoc_le (v : UInt32) : (cstItoc v).length ≤ 4 :=
  Nat.le_trans (List.takeWhile_sublist _).length_le (List.dropWhile_sublist _).length_le

theorem length_rmSlashes_le (fuel : Nat) (t : Text) : (rmSlashes fuel t).length ≤ t.length := by
  induction fuel generalizing t with
  | zero => exact Nat.le_refl _
  | succ fuel ih =>
    rw [rmSlashes]
    split
    · exact Nat.le_refl _
    · exact List.length_eraseIdx_le t 0
    · exact Nat.le_trans (ih _) (List.length_eraseIdx_le t _)

theorem length_levels_le (gem : Geminfo) : gem.levels.length ≤ 49 := by
  have hunit := Nat.le_trans (length_cstRxbl_le true gem.unit) gem.length_unit
  have hvcord := length_cstItoc_le gem.vcord
  have hint : ∀ n : Int32, (fmt0 0 n.toInt).length ≤ 11 := fun n =>
    length_fmt0_int (by decide) (by have := n.le_toInt; have := n.toInt_lt; omega)
  have hfirst := hint gem.level.1
  have hsecond := hint gem.level.2
  have hdash : (ascii "-").length = 1 := rfl
  have hspace : (ascii " ").length = 1 := rfl
  simp only [Geminfo.levels]
  split_ifs <;> simp only [List.length_append, hdash, hspace] <;> omega

/-- The end of the period is blank, and no dash is printed. -/
theorem length_fdats_le (gem : Geminfo) : gem.fdats.length ≤ 20 := by
  have hblank : cstRmbl gem.gdattm2 = [] :=
    List.filter_eq_nil_iff.2 fun c hc => by rw [gem.blank_gdattm2 c hc]; decide
  have hfdats : gem.fdats =
      rmSlashes (cstRmbl gem.gdattm1).length (cstRmbl gem.gdattm1) := by
    rw [Geminfo.fdats, hblank]
    rfl
  rw [hfdats]
  exact Nat.le_trans (length_rmSlashes_le _ _)
    (Nat.le_trans (length_cstRmbl_le _) gem.length_gdattm1)

end Texts

section Fields
variable {n : Nat} {v : NameVars} {f : Grib2Field}

/-- What the last turn of the loop leaves, apart from the list. -/
structure NameVars.Of (f : Grib2Field) (v : NameVars) : Prop where
  modelId : v.modelId = f.modelId
  gridId : v.gridId ≠ none
  fdats : ∃ t, v.fdats = some t ∧ t.length ≤ 20
  levelstmp : ∃ t, v.levelstmp = some t ∧ t.length ≤ 49

theorem appendProds_of_lt {prods t : Text} (h : prods.length + t.length < 128) :
    appendProds prods t = .ok (prods ++ t) := if_pos h

theorem appendProds_of_le {prods t : Text} (h : 128 ≤ prods.length + t.length) :
    appendProds prods t = .error .prods := if_neg (Nat.not_lt.2 h)

theorem addParm_of_lt {prods : Text} {gem : Geminfo} (h : prods.length + gem.width n < 128) :
    ∃ prods', addParm n prods gem = .ok prods' ∧
      prods'.length = prods.length + gem.width n := by
  cases n with
  | zero =>
    have hlt : prods.length + (0 + (cstRmbl gem.parm).length) < 128 := h
    refine ⟨_, appendProds_of_lt (by omega), ?_⟩
    rw [List.length_append]
    change _ = prods.length + (0 + (cstRmbl gem.parm).length)
    omega
  | succ n =>
    have hlt : prods.length + (1 + (cstRmbl gem.parm).length) < 128 := h
    have hsep : (ascii ";").length = 1 := rfl
    have hlen : (prods ++ ascii ";").length = prods.length + 1 := by rw [List.length_append, hsep]
    refine ⟨prods ++ ascii ";" ++ cstRmbl gem.parm, ?_, ?_⟩
    · rw [addParm, if_pos (Nat.succ_pos n), appendProds_of_lt (by omega)]
      exact appendProds_of_lt (by omega)
    · rw [List.length_append, hlen]
      change _ = prods.length + (1 + (cstRmbl gem.parm).length)
      omega

theorem addParm_of_le {prods : Text} {gem : Geminfo} (h : 128 ≤ prods.length + gem.width n) :
    addParm n prods gem = .error .prods := by
  cases n with
  | zero =>
    have hle : 128 ≤ prods.length + (0 + (cstRmbl gem.parm).length) := h
    exact appendProds_of_le (by omega)
  | succ n =>
    have hle : 128 ≤ prods.length + (1 + (cstRmbl gem.parm).length) := h
    have hsep : (ascii ";").length = 1 := rfl
    have hlen : (prods ++ ascii ";").length = prods.length + 1 := by rw [List.length_append, hsep]
    rw [addParm, if_pos (Nat.succ_pos n)]
    by_cases hroom : prods.length + (ascii ";").length < 128
    · rw [appendProds_of_lt hroom]
      exact appendProds_of_le (by omega)
    · rw [appendProds_of_le (Nat.not_lt.1 hroom)]
      rfl

/-- The grid of a field is found exactly where there is one to look at. -/
theorem Grib2Field.gridId_cases (f : Grib2Field) :
    (∃ e, f.gridId = .error e ∧ ¬ (f.griddef ≠ none ∧ (f.griddef = some 0 → f.gnum ≠ none))) ∨
      ∃ gridId, f.gridId = .ok gridId ∧ f.griddef ≠ none ∧ (f.griddef = some 0 → f.gnum ≠ none) := by
  cases hdef : f.griddef with
  | none => exact .inl ⟨.unassigned, by rw [gridId, hdef], fun h => h.1 rfl⟩
  | some griddef =>
    by_cases h0 : griddef = 0
    · subst h0
      cases hnum : f.gnum with
      | none => exact .inl ⟨.nullTemplate, by simp [gridId, hdef, hnum], fun h => h.2 rfl rfl⟩
      | some gnum =>
        refine .inr ⟨gnum, by simp [gridId, hdef, hnum], ?_, fun _ => ?_⟩ <;> exact Option.some_ne_none _
    · refine .inr ⟨griddef, by simp [gridId, hdef, h0], Option.some_ne_none _, fun h => ?_⟩
      exact absurd (Option.some.inj h) h0

/-- One turn stops at a field that is not defined or at the end of the list, or leaves all that is
printed. -/
theorem nameField_cases (n : Nat) (f : Grib2Field) (hv : v.prods.length < 128) :
    (∃ e, nameField n v f = .error e ∧ (¬ f.Defined ∨ 128 ≤ v.prods.length + fieldWidth n f)) ∨
    ∃ v', nameField n v f = .ok v' ∧ f.Defined ∧ v'.prods.length < 128 ∧
      v'.prods.length = v.prods.length + fieldWidth n f ∧ v'.Of f := by
  cases htmpl : f.ipdtmpl with
  | none => exact .inl ⟨.nullTemplate, by rw [nameField, htmpl], .inl fun h => h.template htmpl⟩
  | some tmpl =>
    have htemplate : f.ipdtmpl ≠ none := by
      rw [htmpl]
      exact Option.some_ne_none _
    obtain ⟨e, hgrid, hundefined⟩ | ⟨gridId, hgrid, hdef, hgnum⟩ := f.gridId_cases
    · refine .inl ⟨e, ?_, .inl fun h => hundefined ⟨h.griddef, h.grid⟩⟩
      rw [nameField, htmpl]
      simp only [hgrid]
      rfl
    have hdefined : f.Defined := ⟨htemplate, hdef, hgnum⟩
    cases hgem : f.gem with
    | none =>
      refine .inr ⟨{ v with
          modelId := f.modelId, gridId := some gridId, fdats := some (ascii "FHRS")
          levelstmp := some (ascii "LVL") }, ?_, hdefined, hv, ?_, ?_⟩
      · rw [nameField, htmpl]
        simp only [hgrid, hgem]
        rfl
      · rw [fieldWidth, hgem]
        rfl
      · exact ⟨rfl, Option.some_ne_none _, ⟨_, rfl, by decide⟩, ⟨_, rfl, by decide⟩⟩
    | some gem =>
      have hwidth : fieldWidth n f = gem.width n := by rw [fieldWidth, hgem]
      rw [hwidth]
      by_cases hroom : v.prods.length + gem.width n < 128
      · obtain ⟨prods, hadd, hlen⟩ := addParm_of_lt hroom
        refine .inr ⟨{ v with
            modelId := f.modelId, gridId := some gridId, fdats := some gem.fdats
            levelstmp := some gem.levels, prods }, ?_, hdefined, hlen ▸ hroom, hlen, ?_⟩
        · rw [nameField, htmpl]
          simp only [hgrid, hgem]
          change (do let prods ← addParm n v.prods gem; _) = _
          rw [hadd]
          rfl
        · exact ⟨rfl, Option.some_ne_none _, ⟨_, rfl, length_fdats_le gem⟩,
            ⟨_, rfl, length_levels_le gem⟩⟩
      · refine .inl ⟨.prods, ?_, .inr (Nat.not_lt.1 hroom)⟩
        rw [nameField, htmpl]
        simp only [hgrid, hgem]
        change (do let prods ← addParm n v.prods gem; _) = _
        rw [addParm_of_le (Nat.not_lt.1 hroom)]
        rfl

/-- The loop, in the same outcomes. -/
theorem nameFields_cases (fs : List Grib2Field) (n : Nat) (hv : v.prods.length < 128) :
    (∃ e, nameFields n v fs = .error e ∧
      ((∃ f ∈ fs, ¬ f.Defined) ∨ 128 ≤ v.prods.length + listWidth n fs)) ∨
    ∃ v', nameFields n v fs = .ok v' ∧ (∀ f ∈ fs, f.Defined) ∧ v'.prods.length < 128 ∧
      v'.prods.length = v.prods.length + listWidth n fs ∧
      (fs = [] ∧ v' = v ∨ ∃ f ∈ fs.getLast?, v'.Of f) := by
  induction fs generalizing n v with
  | nil =>
    exact .inr ⟨v, rfl, fun f hf => absurd hf List.not_mem_nil, hv, rfl, .inl ⟨rfl, rfl⟩⟩
  | cons f fs ih =>
    rw [nameFields, listWidth]
    obtain ⟨e, herror, hcause⟩ | ⟨v₁, hok, hdef, hv₁, hlen, hof⟩ := nameField_cases n f hv
    · refine .inl ⟨e, by rw [herror]; rfl, ?_⟩
      obtain hundefined | hfull := hcause
      · exact .inl ⟨f, List.mem_cons_self, hundefined⟩
      · exact .inr (by omega)
    · rw [hok]
      change (∃ e, nameFields (n + 1) v₁ fs = .error e ∧ _) ∨
        ∃ v', nameFields (n + 1) v₁ fs = .ok v' ∧ _
      obtain ⟨e, herror, hcause⟩ | ⟨v', hok', hdefs, hv', hlen', hend⟩ := ih (n + 1) hv₁
      · refine .inl ⟨e, herror, ?_⟩
        obtain ⟨g, hg, hundefined⟩ | hfull := hcause
        · exact .inl ⟨g, List.mem_cons_of_mem f hg, hundefined⟩
        · exact .inr (by omega)
      · refine .inr ⟨v', hok', ?_, hv', by omega, .inr ?_⟩
        · exact List.forall_mem_cons.2 ⟨hdef, hdefs⟩
        · obtain ⟨rfl, rfl⟩ | ⟨g, hg, hgof⟩ := hend
          · exact ⟨f, rfl, hof⟩
          · refine ⟨g, ?_, hgof⟩
            rw [List.getLast?_cons, Option.mem_def.1 hg]
            rfl

end Fields

section Print
variable {order : List GribArg} {v : NameVars} {f : Grib2Field}

theorem length_own_le (center model : UInt8) (j : GribArg) :
    (gribCall center.toNat model.toNat j).own.length ≤ 12 := by
  cases j with
  | center => exact length_label_le (by decide) center.toNat_lt
  | model => exact length_sPdsModel_le _ model.toNat_lt

/-- Whichever of the two labels is in the buffer that they share. -/
theorem length_originText_le (hp : order.Perm GribArg.all) (m : IdBuf → Text)
    (center model : UInt8) : (originText order m center model).length ≤ 25 := by
  have hread : ∀ i, ((gribCall center.toNat model.toNat i).read
      (StaticResult.evaluate (gribCall center.toNat model.toNat) order m)).length ≤ 12 := by
    intro i
    obtain ⟨j, -, hj⟩ := StaticResult.read_evaluate (gribCall center.toNat model.toNat) m
      (hp.mem_iff.2 i.mem_all)
    rw [hj]
    exact length_own_le center model j
  have hcenter := hread .center
  have hmodel := hread .model
  simp only [originText, GribArg.all, List.map_cons, List.map_nil, slashed, List.length_append,
    List.length_cons]
  omega

theorem wmoToGridid_lt (tt aa : UInt8) : wmoToGridid tt aa < 256 := by
  have hall : ∀ n ∈ gridids tt, n < 256 := by
    unfold gridids
    split_ifs <;> decide
  unfold wmoToGridid
  split_ifs
  · rw [List.getD_eq_getElem?_getD]
    cases hentry : (gridids tt)[aa.toNat - 65]? with
    | none => decide
    | some n => exact hall n (List.mem_of_getElem? hentry)
  · decide

theorem length_printedGrid_le (wmohead : Text) (gridId : Int32) :
    (fmt0 3 (printedGrid wmohead gridId)).length ≤ 11 := by
  have hgrid := wmoToGridid_lt (wmohead.getD 0 0) (wmohead.getD 2 0)
  simp only [printedGrid]
  split_ifs with h
  · exact length_fmt0_int (by decide) (by omega)
  · have hlo := gridId.le_toInt
    have hhi := gridId.toInt_lt
    exact length_fmt0_int (by decide) (by omega)

/-- What the fields leave fits the identifier, so that only a missing model is at fault. -/
theorem printName_ok_iff (hp : order.Perm GribArg.all) (m : IdBuf → Text) (center : Int32)
    (wmohead : Text) (hv : v.prods.length < 128) (hof : v.Of f) :
    (∃ ident, printName order m center wmohead v = .ok ident) ↔ f.modelId ≠ none := by
  obtain ⟨hmodelId, hgridId, ⟨fdats, hfdats, hflen⟩, ⟨levelstmp, hlevels, hllen⟩⟩ := hof
  obtain ⟨gridId, hgridId⟩ := Option.ne_none_iff_exists'.1 hgridId
  unfold printName
  rw [hmodelId, hgridId, hfdats, hlevels]
  cases f.modelId with
  | none => exact ⟨nofun, fun h => absurd rfl h⟩
  | some modelId =>
    have horigin := length_originText_le hp m center.toUInt32.toUInt8 modelId.toUInt32.toUInt8
    have hgrid := length_printedGrid_le wmohead gridId
    have hgrib2 : (ascii "grib2").length = 5 := rfl
    have hnumber : (ascii "#").length = 1 := rfl
    refine ⟨fun _ => Option.some_ne_none _, fun _ => ⟨_, if_pos ?_⟩⟩
    simp only [slashed, List.length_append, List.length_cons, hgrib2, hnumber]
    omega

end Print

section Name
variable {order : List GribArg} {m : IdBuf → Text} {msg : Grib2Message} {wmohead : Text}

theorem modelId_ne_none {f : Grib2Field} :
    f.modelId ≠ none ↔ ∃ tmpl ∈ f.ipdtmpl, 4 < tmpl.length := by
  unfold Grib2Field.modelId
  cases f.ipdtmpl with
  | none => exact ⟨fun h => absurd rfl h, nofun⟩
  | some tmpl =>
    change tmpl[4]? ≠ none ↔ _
    rw [Ne, List.getElem?_eq_none_iff, Nat.not_le]
    exact ⟨fun h => ⟨tmpl, rfl, h⟩, fun ⟨_, rfl, h⟩ => h⟩

theorem printed_iff {printed : Except NameFault Text} :
    (∃ ident, (do let ident ← printed; Except.ok (some ident)) = Except.ok ident) ↔
      ∃ text, printed = .ok text := by
  cases printed with
  | error e => exact ⟨nofun, nofun⟩
  | ok text => exact ⟨fun _ => ⟨text, rfl⟩, fun _ => ⟨some text, rfl⟩⟩

/-- One order of the labels is enough: a fault does not depend on it. -/
theorem grib2name_ok_iff (hp : order.Perm GribArg.all) :
    (∃ ident, grib2name order m (some msg) wmohead = .ok ident) ↔ msg.Nameable := by
  change (∃ ident, (do
    let v ← nameFields 0 .blank msg.fields
    let ident ← printName order m msg.center wmohead v
    .ok (some ident)) = .ok ident) ↔ _
  obtain ⟨e, herror, hcause⟩ | ⟨v, hok, hdefs, hv, hlen, hend⟩ :=
    nameFields_cases (v := .blank) msg.fields 0 (by decide)
  · rw [herror]
    refine ⟨nofun, fun h => ?_⟩
    obtain ⟨f, hf, hundefined⟩ | hfull := hcause
    · exact absurd (h.fields f hf) hundefined
    · have hlist := h.list
      have hzero : NameVars.blank.prods.length = 0 := rfl
      omega
  · rw [hok]
    have hlist : listWidth 0 msg.fields < 128 := by
      have hzero : NameVars.blank.prods.length = 0 := rfl
      omega
    obtain ⟨hnil, rfl⟩ | ⟨f, hf, hof⟩ := hend
    · refine ⟨nofun, fun h => ?_⟩
      obtain ⟨f, hf, -⟩ := h.last
      rw [hnil] at hf
      cases hf
    · have hprint := printName_ok_iff hp m msg.center wmohead hv hof
      rw [modelId_ne_none] at hprint
      refine printed_iff.trans (hprint.trans ⟨fun h => ⟨hdefs, hlist, f, hf, h⟩, fun h => ?_⟩)
      obtain ⟨g, hg, hlast⟩ := h.last
      obtain rfl : g = f := Option.mem_unique hg hf
      exact hlast

end Name

/-- A name is made of every message that is rejected, and of one with fields, all of them defined,
parameters that fit the list, and a numbered model in the last one. -/
theorem grib2_copes_iff (info : Option Grib2Message) (wmohead : Text) :
    Grib2Copes info wmohead ↔ ∀ msg ∈ info, msg.Nameable := by
  cases info with
  | none => exact ⟨fun _ => nofun, fun _ _ _ _ => ⟨none, rfl⟩⟩
  | some msg =>
    constructor
    · intro h msg' hmsg
      obtain rfl : msg = msg' := Option.some.inj hmsg
      exact (grib2name_ok_iff (List.Perm.refl _)).1 (h _ (List.Perm.refl _) fun _ => [])
    · intro h order hp m
      exact (grib2name_ok_iff hp).2 (h msg rfl)

/-- A field of NCEP's model 96 on grid 3, with a parameter of twelve letters. -/
def longField : Grib2Field where
  ipdtmpl := some [0, 0, 2, 0, 96]
  griddef := some 3
  gnum := some 255
  gem := some
    { gdattm1 := ascii "20100101/0000F006", gdattm2 := List.replicate 20 32
      level := (500, -1), vcord := 0, unit := ascii "hPa", parm := ascii "PRECIPTOTALS"
      length_gdattm1 := by decide
      blank_gdattm2 := fun c hc => by rw [List.eq_of_mem_replicate hc]; decide
      length_unit := by decide, length_parm := by decide }

example : grib2name GribArg.all (fun _ => []) (some ⟨7, [longField, longField]⟩) [] =
    .ok (some (ascii
      "grib2/ncep/GFS/#003/201001010000F006/PRECIPTOTALS;PRECIPTOTALS/500 hPa ")) := by
  decide +kernel

theorem grib2_name_faults :
    let name := fun fields => grib2name GribArg.all (fun _ => []) (some ⟨7, fields⟩) []
    name [{ longField with ipdtmpl := none }] = .error .nullTemplate ∧
      name [{ longField with griddef := none }, longField] = .error .unassigned ∧
      name (List.replicate 10 longField) = .error .prods ∧ name [] = .error .unassigned ∧
      ¬ Grib2Copes (some ⟨7, []⟩) [] := by
  refine ⟨rfl, rfl, by decide +kernel, rfl, fun h => ?_⟩
  obtain ⟨ident, hident⟩ := h GribArg.all (List.Perm.refl _) fun _ => []
  cases hident

end Noaaport
