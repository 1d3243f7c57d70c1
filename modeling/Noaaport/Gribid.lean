import Noaaport.Leftover
import Noaaport.Lib.StaticResult

/-! The labels of `gribid.c`. All functions that find no label in their table return the one
static buffer of `s_byte`, and a name is formatted when all of them have returned. -/
namespace Noaaport
open Lib

inductive IdBuf where
  | byte
  | modelId
  deriving DecidableEq

abbrev IdResult := StaticResult IdBuf Text

def sByte (bb : Nat) : IdResult := .buffered .byte (decimal bb)
def sModelId (model : String) (bb : Nat) : IdResult :=
  .buffered .modelId (ascii model ++ ascii "_" ++ decimal bb)

/-- The constant that a `switch` returns. -/
def switch (cases : List (Nat × String)) (c : Nat) : Option Text := (cases.lookup c).map ascii

def label (cases : List (Nat × String)) (c : Nat) : IdResult :=
  match switch cases c with
  | some t => .constant t
  | none => sByte c

def platforms : List (Nat × String) :=
  [(2, "MISC"), (3, "JERS"), (4, "ERS"), (5, "POES"), (6, "COMP"), (7, "DMSP"), (8, "GMS"),
    (9, "METEOSAT"), (10, "GOES-7"), (11, "GOES-8"), (12, "GOES-9"), (13, "GOES-10"),
    (14, "GOES-11"), (15, "GOES-12"), (16, "GOES-13"), (17, "GOES-14"), (18, "GOES-15"),
    (19, "GOES-16"), (27, "POES"), (28, "POES")]

def channels : List (Nat × String) :=
  [(1, "VIS"), (2, "3.9"), (3, "WV"), (4, "IR"), (5, "12.0"), (6, "13.3"), (7, "1.3"),
    (16, "LI"), (17, "PW"), (18, "SFC-T"), (19, "CAPE"), (27, "CTP"), (28, "CLD"),
    (29, "PRXX"), (41, "SOUND-14.71"), (42, "SOUND-14.37"), (43, "SOUND-14.06"),
    (44, "SOUND-13.64"), (45, "SOUND-13.37"), (46, "SOUND-12.66"), (47, "SOUND-12.02"),
    (48, "SOUND-11.03"), (49, "SOUND-9.71"), (50, "SOUND-7.43"), (51, "SOUND-7.02"),
    (52, "SOUND-6.51"), (53, "SOUND-4.57"), (54, "SOUND-4.52"), (55, "SOUND-4.45"),
    (56, "SOUND-4.13"), (57, "SOUND-3.98"), (58, "SOUND-3.74"), (59, "SOUND-VIS"), (61, "VIS"),
    (63, "3.74"), (64, "11.0")]

def sectors : List (Nat × String) :=
  [(0, "NHEM-COMP"), (1, "EAST-CONUS"), (2, "WEST-CONUS"), (3, "AK-REGIONAL"),
    (4, "AK-NATIONAL"), (5, "HI-REGIONAL"), (6, "HI-NATIONAL"), (7, "PR-REGIONAL"),
    (8, "PR-NATIONAL"), (9, "SUPER-NATIONAL"), (10, "NHEM-MULTICOMP")]

def centers : List (Nat × String) :=
  [(7, "ncep"), (8, "nwstg"), (9, "nws"), (54, "cms"), (74, "ukmet"), (98, "ecmwf"),
    (58, "noc"), (59, "fsl"), (60, "ncar")]

/-- The models of NCEP, and those whose label carries the number. -/
def ncepModels : List (Nat × String) :=
  [(2, "UVI"), (3, "TRANS_DISP"), (4, "SMOKE"), (5, "SAT"), (10, "NOW"), (11, "GMGWM"),
    (12, "SURGE"), (19, "LFM"), (25, "SNO"), (30, "FORECASTER"), (39, "NGM"), (42, "GOI_GFS"),
    (43, "GOI_FNL"), (44, "SST"), (45, "OCN"), (46, "HYCOM_GLOBAL"), (47, "HYCOM_NPAC"),
    (48, "HYCOM_NATL"), (53, "LFM4"), (64, "ROI"), (68, "SPEC_80_GFS"), (69, "SPEC_80_MRF"),
    (70, "QLM"), (73, "FOG"), (74, "WWMEX"), (75, "WWAK"), (76, "BMRF"), (77, "GFS"),
    (78, "MRF"), (79, "BACKUP"), (80, "SPEC62MRF"), (81, "SSIGFS"), (82, "SSIGDAS"),
    (86, "RUC"), (87, "ENSMB"), (88, "NWW3"), (94, "MRF"), (96, "GFS"), (98, "CFS"),
    (99, "TEST_ID"), (100, "RSAS"), (101, "RSAS"), (105, "RUC2"), (107, "GEFS"), (108, "LAMP"),
    (109, "RTMA"), (112, "WRF_NMM"), (114, "NAEFS"), (116, "WRF_EM"), (126, "SEAICE"),
    (127, "LAKEICE"), (128, "GOCN"), (129, "GODAS"), (130, "MERGE"), (131, "GLWM"),
    (140, "NARR"), (141, "LDAFS"), (150, "RFS"), (151, "FFGS"), (152, "RAD2"), (153, "RAD3"),
    (180, "NCEP_QPF"), (181, "RFC_QPF"), (182, "RFC_QPE"), (183, "NDFD"), (184, "CCPA"),
    (190, "AWC_NCWD"), (191, "AWC_CIP"), (192, "AWC_ANL"), (193, "AWC_FCST"), (195, "CDAS2"),
    (196, "CDAS2"), (197, "CDAS"), (198, "CDAS"), (199, "CFSR"), (200, "CPC"), (201, "CPC"),
    (210, "EPA_AQ"), (211, "EPA_AQ"), (215, "SPC_MFP"), (220, "NCEP_OPC")]

def ncepNumbered : List (Nat × String) :=
  [(84, "NAM"), (89, "NMM"), (110, "NAM"), (111, "NAM"), (113, "SREF"), (115, "DGEX"),
    (120, "ICE"), (121, "NWW"), (122, "NWW"), (123, "NWW"), (124, "NWW"), (125, "NWW")]

def platformId (satid : Nat) : IdResult := label platforms satid
def channelId (channel : Nat) : IdResult := label channels channel
def sectorId (sector : Nat) : IdResult := label sectors sector
def sPdsCenter (center : Nat) : IdResult := label centers center

def sPdsModel (center model : Nat) : IdResult :=
  if center = 7 then
    match ncepNumbered.lookup model with
    | some name => sModelId name model
    | none => label ncepModels model
  else if center = 8 ∨ center = 9 then sModelId "NWS" model
  else if center = 98 then sModelId "ECMWF" model
  else if center = 74 then sModelId "UKM" model
  else if center = 59 then
    if model = 105 then .constant (ascii "RUC2") else sModelId "FSL" model
  else if center = 54 then
    if model = 36 then .constant (ascii "GEM") else sModelId "CMS" model
  else if center = 60 then sModelId "NCAR" model
  else sByte model

/-- The components of a name, with a slash between them. -/
def slashed : List Text → Text
  | [] => []
  | [t] => t
  | t :: ts => t ++ 47 :: slashed ts

/-- The arguments of `readpdb`'s `sprintf` that `gribid.c` makes. -/
inductive PdbArg where
  | platform
  | channel
  | sector
  deriving DecidableEq

def PdbArg.all : List PdbArg := [.platform, .channel, .sector]

def PdbArg.code (pdb : Pdb) : PdbArg → Nat
  | .platform => pdb.platform
  | .channel => pdb.channel
  | .sector => pdb.sector

def PdbArg.cases : PdbArg → List (Nat × String)
  | .platform => platforms
  | .channel => channels
  | .sector => sectors

def pdbCall (pdb : Pdb) : PdbArg → IdResult
  | .platform => platformId pdb.platform
  | .channel => channelId pdb.channel
  | .sector => sectorId pdb.sector

/-- `"%s/ch%d/%s/%s/%04d%02d%02d %02d%02d/%s/%dkm/ %s"` -/
def nameText (pre : Text) (ptype : Nat) (pdb : Pdb) (pname : Text) (text : PdbArg → Text) : Text :=
  slashed [pre, ascii "ch" ++ decimal ptype, text .platform, text .channel,
    fmt0 4 pdb.year ++ fmt0 2 pdb.month ++ fmt0 2 pdb.day ++ [32] ++ fmt0 2 pdb.hour ++
      fmt0 2 pdb.minute,
    text .sector, decimal pdb.res ++ ascii "km", [32] ++ pname]

/-- The name when the arguments are evaluated in this order, -/
def satName (order : List PdbArg) (m : IdBuf → Text) (pre : Text) (ptype : Nat) (pdb : Pdb)
    (pname : Text) : Text :=
  nameText pre ptype pdb pname fun i =>
    (pdbCall pdb i).read (StaticResult.evaluate (pdbCall pdb) order m)

/-- and the one with each code's own label. -/
def ownName (pre : Text) (ptype : Nat) (pdb : Pdb) (pname : Text) : Text :=
  nameText pre ptype pdb pname fun i => (pdbCall pdb i).own

def Library.naming (lib : Library) (satName : Text → Nat → Pdb → Text → Text) : Library :=
  { lib with satName }

/-- The first two arguments of the `sprintf` for GRIB 1. -/
inductive GribArg where
  | center
  | model
  deriving DecidableEq

def GribArg.all : List GribArg := [.center, .model]

def gribCall (center model : Nat) : GribArg → IdResult
  | .center => sPdsCenter center
  | .model => sPdsModel center model

def originText (order : List GribArg) (m : IdBuf → Text) (center model : UInt8) : Text :=
  slashed (GribArg.all.map fun i => (gribCall center.toNat model.toNat i).read
    (StaticResult.evaluate (gribCall center.toNat model.toNat) order m))

def ownOrigin (center model : UInt8) : Text :=
  slashed (GribArg.all.map fun i => (gribCall center.toNat model.toNat i).own)

def GribText.naming (t : GribText) (origin : UInt8 → UInt8 → Text) : GribText := { t with origin }

section Texts
variable {cases : List (Nat × String)} {c n : Nat} {t : Text} {b : IdBuf}

theorem decimal_digits {x : UInt8} (h : x ∈ decimal n) : 48 ≤ x.toNat ∧ x.toNat ≤ 57 := by
  obtain ⟨ch, hc, rfl⟩ := List.mem_map.1 h
  have hdigit := Nat.isDigit_of_mem_toDigits (by decide) (by decide) hc
  simp only [Char.isDigit, Bool.and_eq_true, decide_eq_true_eq] at hdigit
  have h57 : ch.toNat ≤ 57 := hdigit.2
  have h48 : 48 ≤ ch.toNat := hdigit.1
  rw [UInt8.toNat_ofNat', Nat.mod_eq_of_lt (by omega)]
  exact ⟨h48, h57⟩

theorem decimal_slashless (n : Nat) : 47 ∉ decimal n := fun h =>
  absurd (decimal_digits h).1 (by decide)

theorem fmt0_slashless (width n : Nat) : 47 ∉ fmt0 width n := by
  have hpos : ¬ (n : Int) < 0 := by omega
  simp only [fmt0, if_neg hpos, List.nil_append, Int.natAbs_natCast, List.mem_append,
    List.mem_replicate, not_or]
  exact ⟨fun h => absurd h.2 (by decide), decimal_slashless n⟩

/-- Labels without a slash that are no numbers. -/
def Labels (cases : List (Nat × String)) : Prop :=
  ∀ e ∈ cases, 47 ∉ ascii e.2 ∧ ∃ x ∈ ascii e.2, x.toNat < 48 ∨ 57 < x.toNat

instance (cases : List (Nat × String)) : Decidable (Labels cases) :=
  inferInstanceAs (Decidable (∀ e ∈ cases, _))

theorem labels_platforms : Labels platforms := by decide +kernel
theorem labels_channels : Labels channels := by decide +kernel
theorem labels_sectors : Labels sectors := by decide +kernel
theorem labels_centers : Labels centers := by decide +kernel
theorem labels_ncepModels : Labels ncepModels := by decide +kernel

theorem mem_of_lookup {name : String} (h : cases.lookup c = some name) : (c, name) ∈ cases := by
  induction cases with
  | nil => cases h
  | cons e cases ih =>
    rw [List.lookup_cons] at h
    split at h
    · next he =>
      cases h
      rw [eq_of_beq he]
      exact List.mem_cons_self
    · exact List.mem_cons_of_mem _ (ih h)

theorem mem_of_switch (h : switch cases c = some t) : ∃ e ∈ cases, t = ascii e.2 := by
  obtain ⟨name, hname, rfl⟩ := Option.map_eq_some_iff.1 h
  exact ⟨_, mem_of_lookup hname, rfl⟩

theorem label_own (cases : List (Nat × String)) (c : Nat) :
    (label cases c).own = (switch cases c).getD (decimal c) := by
  unfold label
  split <;> next h => rw [h]; rfl

theorem label_buffered (h : label cases c = .buffered b t) :
    b = .byte ∧ switch cases c = none ∧ t = decimal c := by
  unfold label at h
  split at h
  · cases h
  · next hnone =>
    cases h
    exact ⟨rfl, hnone, rfl⟩

theorem label_none (h : switch cases c = none) : label cases c = .buffered .byte (decimal c) := by
  unfold label
  rw [h]
  rfl

theorem label_slashless (hl : Labels cases) (c : Nat) : 47 ∉ (label cases c).own := by
  rw [label_own]
  cases h : switch cases c with
  | none => exact decimal_slashless c
  | some t =>
    obtain ⟨e, he, rfl⟩ := mem_of_switch h
    exact (hl e he).1

/-- A code outside the table has a label of its own. -/
theorem label_untabulated (hl : Labels cases) (h : switch cases c = none)
    (heq : (label cases c).own = (label cases n).own) : n = c := by
  rw [label_own, label_own, h] at heq
  cases hn : switch cases n with
  | none =>
    rw [hn] at heq
    exact (decimal_inj heq).symm
  | some t =>
    rw [hn] at heq
    obtain ⟨e, he, rfl⟩ := mem_of_switch hn
    obtain ⟨x, hx, hdigit⟩ := (hl e he).2
    have hnum : x ∈ decimal c := (show decimal c = ascii e.2 from heq) ▸ hx
    have := decimal_digits hnum
    omega

theorem length_label_le {k : Nat} (hall : ∀ e ∈ cases, (ascii e.2).length ≤ k + 3) (hc : c < 256) :
    (label cases c).own.length ≤ k + 3 := by
  have hdecimal := length_decimal_byte hc
  rw [label_own]
  cases hswitch : switch cases c with
  | none =>
    change (decimal c).length ≤ k + 3
    omega
  | some text =>
    obtain ⟨e, he, rfl⟩ := mem_of_switch hswitch
    exact hall e he

/-- `s_model_id` puts a number behind at most eight letters. -/
theorem length_sPdsModel_le (center : Nat) {model : Nat} (h : model < 256) :
    (sPdsModel center model).own.length ≤ 12 := by
  have hdecimal := length_decimal_byte h
  have hmodel : ∀ name : String, (ascii name).length ≤ 8 →
      (sModelId name model).own.length ≤ 12 := by
    intro name hname
    have hsep : (ascii "_").length = 1 := rfl
    change (ascii name ++ ascii "_" ++ decimal model).length ≤ 12
    rw [List.length_append, List.length_append, hsep]
    omega
  unfold sPdsModel
  split_ifs
  · split
    · next name hname =>
      refine hmodel name ?_
      have hall : ∀ e ∈ ncepNumbered, (ascii e.2).length ≤ 8 := by decide +kernel
      exact hall _ (mem_of_lookup hname)
    · exact length_label_le (by decide +kernel) h
  · exact hmodel _ (by decide)
  · exact hmodel _ (by decide)
  · exact hmodel _ (by decide)
  · decide
  · exact hmodel _ (by decide)
  · decide
  · exact hmodel _ (by decide)
  · exact hmodel _ (by decide)
  · change (decimal model).length ≤ 12
    omega

/-- The first slash ends the first component. -/
theorem slashed_cons_inj {a a' u u' : Text} {ts ts' : List Text} (h : 47 ∉ a) (h' : 47 ∉ a')
    (heq : slashed (a :: u :: ts) = slashed (a' :: u' :: ts')) :
    a = a' ∧ slashed (u :: ts) = slashed (u' :: ts') := by
  change a ++ 47 :: slashed (u :: ts) = a' ++ 47 :: slashed (u' :: ts') at heq
  rcases List.append_eq_append_iff.1 heq with ⟨d, ha, hrest⟩ | ⟨d, ha, hrest⟩
  · cases d with
    | nil =>
      rw [List.append_nil] at ha
      exact ⟨ha.symm, (List.cons.inj hrest).2⟩
    | cons x d =>
      rw [(List.cons.inj hrest).1, ha] at h'
      exact absurd (List.mem_append_right _ List.mem_cons_self) h'
  · cases d with
    | nil =>
      rw [List.append_nil] at ha
      exact ⟨ha, (List.cons.inj hrest).2.symm⟩
    | cons x d =>
      rw [(List.cons.inj hrest).1, ha] at h
      exact absurd (List.mem_append_right _ List.mem_cons_self) h

end Texts

section Sat
variable {pdb pdb' : Pdb} {pre pname pname' : Text} {ptype : Nat}

theorem PdbArg.mem_all (i : PdbArg) : i ∈ all := by
  cases i <;> decide

theorem PdbArg.labels (i : PdbArg) : Labels i.cases := by
  cases i with
  | platform => exact labels_platforms
  | channel => exact labels_channels
  | sector => exact labels_sectors

theorem pdbCall_eq (pdb : Pdb) (i : PdbArg) : pdbCall pdb i = label i.cases (i.code pdb) := by
  cases i <;> rfl

/-- Codes outside the tables are all the same. -/
def UntabulatedAlike (pdb : Pdb) : Prop :=
  ∀ i j : PdbArg, switch i.cases (i.code pdb) = none → switch j.cases (j.code pdb) = none →
    i.code pdb = j.code pdb

theorem pdbCall_alike (pdb : Pdb) :
    StaticResult.Alike (pdbCall pdb) PdbArg.all ↔ UntabulatedAlike pdb := by
  constructor
  · intro h i j hi hj
    refine decimal_inj (h i i.mem_all j j.mem_all .byte _ _ ?_ ?_)
    · rw [pdbCall_eq, label_none hi]
    · rw [pdbCall_eq, label_none hj]
  · intro h i _ j _ b t t' hi hj
    rw [pdbCall_eq] at hi hj
    obtain ⟨-, hi', rfl⟩ := label_buffered hi
    obtain ⟨-, hj', rfl⟩ := label_buffered hj
    rw [h i j hi' hj']

theorem ownLabel_slashless (pdb : Pdb) (i : PdbArg) : 47 ∉ (pdbCall pdb i).own := by
  rw [pdbCall_eq]
  exact label_slashless i.labels _

/-- The labels are what stands between the slashes. -/
theorem nameText_inj {f g : PdbArg → Text} (hf : ∀ i, 47 ∉ f i) (hg : ∀ i, 47 ∉ g i)
    (h : nameText pre ptype pdb pname f = nameText pre ptype pdb' pname' g) : f = g := by
  have hch : 47 ∉ ascii "ch" ++ decimal ptype := by
    rw [List.mem_append, not_or]
    exact ⟨by decide, decimal_slashless ptype⟩
  have hdate : ∀ pdb : Pdb, 47 ∉ fmt0 4 pdb.year ++ fmt0 2 pdb.month ++ fmt0 2 pdb.day ++ [32] ++
      fmt0 2 pdb.hour ++ fmt0 2 pdb.minute := by
    intro pdb
    simp only [List.mem_append, not_or, fmt0_slashless, not_false_eq_true, true_and, and_true,
      List.mem_singleton]
    decide
  have hrest := (List.cons.inj (List.append_cancel_left h)).2
  obtain ⟨-, hrest⟩ := slashed_cons_inj hch hch hrest
  obtain ⟨hplatform, hrest⟩ := slashed_cons_inj (hf _) (hg _) hrest
  obtain ⟨hchannel, hrest⟩ := slashed_cons_inj (hf _) (hg _) hrest
  obtain ⟨-, hrest⟩ := slashed_cons_inj (hdate pdb) (hdate pdb') hrest
  obtain ⟨hsector, -⟩ := slashed_cons_inj (hf _) (hg _) hrest
  funext i
  cases i with
  | platform => exact hplatform
  | channel => exact hchannel
  | sector => exact hsector

theorem satName_iff (pre : Text) (ptype : Nat) (pdb : Pdb) (pname : Text) :
    (∀ order, order.Perm PdbArg.all → ∀ m,
      satName order m pre ptype pdb pname = ownName pre ptype pdb pname) ↔ UntabulatedAlike pdb := by
  rw [← pdbCall_alike, ← StaticResult.read_own_iff]
  constructor
  · intro h order hp m i _
    refine congrFun (nameText_inj (fun i => ?_) (ownLabel_slashless pdb) (h order hp m)) i
    obtain ⟨j, -, hj⟩ := StaticResult.read_evaluate (pdbCall pdb) m (hp.mem_iff.2 i.mem_all)
    rw [hj]
    exact ownLabel_slashless pdb j
  · intro h order hp m
    exact congrArg (nameText pre ptype pdb pname) (funext fun i => h order hp m i i.mem_all)

/-- With own labels, names tell codes outside the tables apart. -/
theorem ownName_code (h : ownName pre ptype pdb pname = ownName pre ptype pdb' pname')
    (i : PdbArg) (hi : switch i.cases (i.code pdb) = none) : i.code pdb' = i.code pdb := by
  have hown := congrFun (nameText_inj (ownLabel_slashless pdb) (ownLabel_slashless pdb') h) i
  rw [pdbCall_eq, pdbCall_eq] at hown
  exact label_untabulated i.labels hi hown

/-- The name that `readpdb` builds, whatever labels are put in. -/
theorem readpdb_name (lib : Library) (buf : Buffer) (a : Nat) (psh : Psh) (pdb : Pdb)
    (u : Mem UInt8) (z : Bool) :
    ∃ pre pname, ∀ f, (readpdb (lib.naming f) buf a psh pdb u z).psh.pname =
      f pre psh.ptype (readpdb lib buf a psh pdb u z).pdb pname := by
  refine ⟨if z then ascii "satz" else ascii "sat",
    ((load buf a 512).takeWhile (· ≠ 10)).filter (32 ≤ ·), fun f => ?_⟩
  have hunz : ∀ w, npunz (lib.naming f) buf w u = npunz lib buf w u := fun w => rfl
  unfold readpdb
  cases z with
  | false => rfl
  | true =>
    simp only [hunz, if_true]
    split <;> rfl

end Sat

section Grib
variable {center model : Nat}

theorem GribArg.mem_all (i : GribArg) : i ∈ all := by
  cases i <;> decide

/-- A center outside the table has no models. -/
theorem sPdsModel_untabulated (h : switch centers center = none) (model : Nat) :
    sPdsModel center model = sByte model := by
  have hne : ∀ e ∈ centers, center ≠ e.1 := by
    rintro e he rfl
    have hall : ∀ e ∈ centers, switch centers e.1 ≠ none := by decide +kernel
    exact hall e he h
  simp only [centers, List.forall_mem_cons] at hne
  obtain ⟨h7, h8, h9, h54, h74, h98, -, h59, h60, -⟩ := hne
  simp only [sPdsModel, h7, h8, h9, h54, h74, h98, h59, h60, if_false, or_false]

theorem gribCall_alike (center model : Nat) :
    StaticResult.Alike (gribCall center model) GribArg.all ↔
      (switch centers center = none → center = model) := by
  constructor
  · intro h hnone
    refine decimal_inj (h .center (by decide) .model (by decide) .byte _ _ (label_none hnone) ?_)
    rw [gribCall, sPdsModel_untabulated hnone]
    rfl
  · intro h i _ j _ b t t' hi hj
    have hcenter : ∀ b t, gribCall center model .center = .buffered b t →
        b = .byte ∧ t = decimal center ∧ ∀ b' t', gribCall center model .model = .buffered b' t' →
          t' = t := by
      intro b t hb
      obtain ⟨hbyte, hnone, ht⟩ := label_buffered hb
      refine ⟨hbyte, ht, fun b' t' hb' => ?_⟩
      rw [gribCall, sPdsModel_untabulated hnone] at hb'
      cases hb'
      rw [ht, h hnone]
    cases i with
    | center =>
      cases j with
      | center =>
        rw [hi] at hj
        exact (StaticResult.buffered.inj hj).2
      | model => exact ((hcenter b t hi).2.2 b t' hj).symm
    | model =>
      cases j with
      | center => exact (hcenter b t' hj).2.2 b t hi
      | model =>
        rw [hi] at hj
        exact (StaticResult.buffered.inj hj).2

theorem sModelId_slashless {name : String} (h : 47 ∉ ascii name) (n : Nat) :
    47 ∉ (sModelId name n).own := by
  change 47 ∉ ascii name ++ ascii "_" ++ decimal n
  simp only [List.mem_append, not_or]
  exact ⟨⟨h, by decide⟩, decimal_slashless n⟩

theorem gribCall_slashless (center model : Nat) (i : GribArg) :
    47 ∉ (gribCall center model i).own := by
  cases i with
  | center => exact label_slashless labels_centers center
  | model =>
    change 47 ∉ (sPdsModel center model).own
    have hncep : ∀ e ∈ ncepNumbered, 47 ∉ ascii e.2 := by decide +kernel
    unfold sPdsModel
    split_ifs
    · split
      · next name hname => exact sModelId_slashless (hncep _ (mem_of_lookup hname)) model
      · exact label_slashless labels_ncepModels model
    · exact sModelId_slashless (by decide) model
    · exact sModelId_slashless (by decide) model
    · exact sModelId_slashless (by decide) model
    · exact (by decide : 47 ∉ ascii "RUC2")
    · exact sModelId_slashless (by decide) model
    · exact (by decide : 47 ∉ ascii "GEM")
    · exact sModelId_slashless (by decide) model
    · exact sModelId_slashless (by decide) model
    · exact decimal_slashless model

theorem originText_iff (center model : UInt8) :
    (∀ order, order.Perm GribArg.all → ∀ m,
      originText order m center model = ownOrigin center model) ↔
      (switch centers center.toNat = none → center = model) := by
  have hcode : center.toNat = model.toNat ↔ center = model := UInt8.toNat_inj
  rw [← hcode, ← gribCall_alike, ← StaticResult.read_own_iff]
  constructor
  · intro h order hp m i _
    obtain ⟨j, -, hj⟩ := StaticResult.read_evaluate (gribCall center.toNat model.toNat) m
      (hp.mem_iff.2 (GribArg.mem_all .center))
    have hread : 47 ∉ (gribCall center.toNat model.toNat .center).read
        (StaticResult.evaluate (gribCall center.toNat model.toNat) order m) := by
      rw [hj]
      exact gribCall_slashless _ _ j
    obtain ⟨hc, hm⟩ := slashed_cons_inj hread
      (gribCall_slashless center.toNat model.toNat .center) (h order hp m)
    cases i with
    | center => exact hc
    | model => exact hm
  · intro h order hp m
    exact congrArg slashed (List.map_congr_left fun i hi => h order hp m i hi)

/-- The metadata with these texts for the center and the model. -/
theorem gribMeta_naming (t : GribText) (buf : Buffer) (cpos : Nat) (f g : UInt8 → UInt8 → Text) :
    gribMeta (t.naming f) buf cpos = gribMeta (t.naming g) buf cpos ↔
      f (buf (cpos + 12)) (buf (cpos + 13)) = g (buf (cpos + 12)) (buf (cpos + 13)) := by
  have hsource : ∀ f, gribMeta (t.naming f) buf cpos =
      ascii "grib/" ++ (f (buf (cpos + 12)) (buf (cpos + 13)) ++ (ascii "/#" ++
        (fmt0 3 (buf (cpos + 14)).toNat ++ (ascii "/" ++ (fmt0 4 (gribYear buf cpos) ++
          (gribTimes t buf cpos ++ (gribParameter t buf cpos ++ gribLevel t buf cpos))))))) := by
    intro f
    simp only [gribMeta, gribSource, List.append_assoc]
    rfl
  rw [hsource, hsource]
  exact ⟨fun h => List.append_cancel_right (List.append_cancel_left h), fun h => by rw [h]⟩

end Grib

section Faithful
variable {lib : Library} {t : GribText} {buf : Buffer} {a cpos : Nat} {psh : Psh} {pdb : Pdb}
  {u : Mem UInt8} {z : Bool}

/-- For every order of the calls, the name has the labels of the PDB's own codes. -/
def NameFaithful (lib : Library) (buf : Buffer) (a : Nat) (psh : Psh) (pdb : Pdb) (u : Mem UInt8)
    (z : Bool) : Prop :=
  ∀ order, order.Perm PdbArg.all → ∀ m,
    (readpdb (lib.naming (satName order m)) buf a psh pdb u z).psh.pname =
      (readpdb (lib.naming ownName) buf a psh pdb u z).psh.pname

/-- The same for the GRIB 1 metadata. -/
def MetaFaithful (t : GribText) (buf : Buffer) (cpos : Nat) : Prop :=
  ∀ order, order.Perm GribArg.all → ∀ m,
    gribMeta (t.naming (originText order m)) buf cpos = gribMeta (t.naming ownOrigin) buf cpos

theorem nameFaithful_iff : NameFaithful lib buf a psh pdb u z ↔
    UntabulatedAlike (readpdb lib buf a psh pdb u z).pdb := by
  obtain ⟨pre, pname, hname⟩ := readpdb_name lib buf a psh pdb u z
  rw [← satName_iff pre psh.ptype _ pname]
  unfold NameFaithful
  simp only [hname]

theorem metaFaithful_iff : MetaFaithful t buf cpos ↔
    (switch centers (buf (cpos + 12)).toNat = none → buf (cpos + 12) = buf (cpos + 13)) := by
  rw [← originText_iff]
  unfold MetaFaithful
  simp only [gribMeta_naming]

/-- The labels in a name are those of its own codes exactly where the codes outside the tables
are all the same: they share the one buffer of `s_byte`. A center outside the table shares it
with its model. Names that are right tell such codes apart. -/
theorem labels_faithful_iff (lib : Library) (t : GribText) (buf : Buffer) (a cpos : Nat) (psh : Psh)
    (pdb : Pdb) (u : Mem UInt8) (z : Bool) :
    (NameFaithful lib buf a psh pdb u z ↔
      UntabulatedAlike (readpdb lib buf a psh pdb u z).pdb) ∧
    (∀ pre ptype pdb pdb' pname pname',
      ownName pre ptype pdb pname = ownName pre ptype pdb' pname' →
      ∀ i : PdbArg, switch i.cases (i.code pdb) = none → i.code pdb' = i.code pdb) ∧
    (MetaFaithful t buf cpos ↔
      (switch centers (buf (cpos + 12)).toNat = none → buf (cpos + 12) = buf (cpos + 13))) :=
  ⟨nameFaithful_iff, fun _ _ _ _ _ _ h i hi => ownName_code h i hi, metaFaithful_iff⟩

/-- A name with one code outside the tables is right, and names of different such codes differ. -/
theorem labels_faithful_iff_run :
    NameFaithful .plain (store (fun _ => 0) 0 [10, 0, 15]) 0 default default (fun _ => 0) false ∧
      ownName (ascii "sat") 3 { (default : Pdb) with channel := 200 } [] ≠
        ownName (ascii "sat") 3 { (default : Pdb) with channel := 201 } [] ∧
      MetaFaithful .plain (store (fun _ => 0) 12 [200, 200]) 0 := by
  obtain ⟨hname, hown, -⟩ := labels_faithful_iff .plain .plain (store (fun _ => 0) 0 [10, 0, 15]) 0 0 default
    default (fun _ => 0) false
  have hcodes : (readpdb .plain (store (fun _ => 0) 0 [10, 0, 15]) 0 default default (fun _ => 0) false).pdb.platform
        = 15 ∧
      (readpdb .plain (store (fun _ => 0) 0 [10, 0, 15]) 0 default default (fun _ => 0) false).pdb.channel = 0 ∧
      (readpdb .plain (store (fun _ => 0) 0 [10, 0, 15]) 0 default default (fun _ => 0) false).pdb.sector = 0 := by
    unfold readpdb
    decide +kernel
  refine ⟨hname.2 fun i j hi hj => ?_, fun hsame => ?_, ?_⟩
  · cases i <;> cases j <;> simp only [PdbArg.code, PdbArg.cases, hcodes] at hi hj ⊢ <;>
      revert hi hj <;> decide +kernel
  · exact absurd (hown _ _ _ _ _ _ hsame .channel (by decide +kernel)) (by decide)
  · exact (labels_faithful_iff .plain .plain (store (fun _ => 0) 12 [200, 200]) 0 0 default default (fun _ => 0)
      false).2.2.2 fun _ => by decide

/-- A PDB for platform 200 and channel 201, behind an empty line. -/
def foreignPdb : Buffer := store (fun _ => 0) 0 [10, 0, 200, 0, 201]

/-- Platform 200 and channel 201 are formatted as one number; so are center 200 and model 201. -/
theorem untabulated_mixed :
    ¬ NameFaithful .plain foreignPdb 0 default default (fun _ => 0) false ∧
      ¬ MetaFaithful .plain (store (fun _ => 0) 12 [200, 201]) 0 := by
  constructor
  · intro h
    have hpdb : (readpdb .plain foreignPdb 0 default default (fun _ => 0) false).pdb.platform = 200 ∧
        (readpdb .plain foreignPdb 0 default default (fun _ => 0) false).pdb.channel = 201 := by
      unfold readpdb
      decide +kernel
    have halike := nameFaithful_iff.1 h .platform .channel
    simp only [PdbArg.code, hpdb] at halike
    exact absurd (halike (by decide +kernel) (by decide +kernel)) (by decide)
  · intro h
    exact absurd (metaFaithful_iff.1 h (by decide +kernel)) (by decide)

end Faithful
end Noaaport
