import Noaaport.Lib.Scan
import Noaaport.Naming

/-! `wmo_header.c`: the groups of a WMO heading, the octets of a GRIB message behind it, and
the product identifier (PIL). -/
namespace Noaaport
open Lib

/-- `ctype.h` in the C locale. -/
def isdigit (b : UInt8) : Bool := 48 ≤ b ∧ b ≤ 57
def isalnum (b : UInt8) : Bool := isdigit b ∨ 65 ≤ b ∧ b ≤ 90 ∨ 97 ≤ b ∧ b ≤ 122
def isspace (b : UInt8) : Bool := b = 32 ∨ 9 ≤ b ∧ b ≤ 13

/-- `%0*d`, whose width also holds the sign. -/
def fmt0 (width : Nat) (n : Int) : Text :=
  let sign := if n < 0 then [45] else []
  let digits := decimal n.natAbs
  sign ++ List.replicate (width - sign.length - digits.length) 48 ++ digits

/-- `%0*d` is as long as its width or as its sign and its digits. -/
theorem length_fmt0 (width : Nat) (n : Int) :
    (fmt0 width n).length = max width ((if n < 0 then 1 else 0) + (decimal n.natAbs).length) := by
  unfold fmt0
  dsimp only
  rw [List.length_append, List.length_append, List.length_replicate]
  split_ifs
  · rw [List.length_singleton]
    omega
  · rw [List.length_nil]
    omega

theorem le_length_fmt0 (width : Nat) (n : Int) : width ≤ (fmt0 width n).length := by
  rw [length_fmt0]
  exact Nat.le_max_left ..

/-- An `int` has eleven characters at most. -/
theorem length_fmt0_int {width : Nat} {n : Int} (hw : width ≤ 11) (hn : n.natAbs ≤ 2 ^ 31) :
    (fmt0 width n).length ≤ 11 := by
  have hdigits : (decimal n.natAbs).length ≤ 9 + 1 := length_decimal_le_iff.2 (by omega)
  rw [length_fmt0]
  split_ifs
  · omega
  · omega

section Groups
variable (limit : Nat) (buf : Buffer)

/-- The string that starts at `pos` ends at the first NUL, at the latest at `limit`. -/
def strlen (pos : Nat) : Nat := span (· ≠ 0) buf pos (limit - pos)

def getLine (pos nchar : Nat) : Option Nat :=
  let i := span (· ≠ 10) buf pos nchar
  if buf (pos + i) = 10 then some (pos + i + 1) else none

/-- The word put into `spos`, and the position behind it. -/
def getWstr (pos nchar : Nat) : Option (Text × Nat) :=
  let i := span (· = 32) buf pos (strlen limit buf pos)
  if i < strlen limit buf pos then
    let cnt := span isalnum buf (pos + i) nchar
    some (load buf (pos + i) cnt, pos + i + cnt)
  else none

/-- `sscanf` with `%d` on a run of digits: a `long` that saturates, cut to an `int`. -/
def scanInt (digits : Text) : Int :=
  let n := digits.foldl (fun n b => 10 * n + (b.toNat - 48)) 0
  let n : Nat := min n (2 ^ 63 - 1) % 2 ^ 32
  if n < 2 ^ 31 then n else (n : Int) - 2 ^ 32

/-- `hdr.ii` stays 0 where there is no digit. -/
def getInt (pos : Nat) : Int × Nat :=
  let cnt := span isdigit buf pos (strlen limit buf pos)
  (scanInt (load buf pos cnt), pos + cnt)

structure WmoHdr where
  tt : Text
  aa : Text
  ii : Int
  cccc : Text
  ddhhmm : Text
  bbb : Text
  deriving DecidableEq

/-- The groups of the heading, to the line behind it. -/
def wmoGroups (prodName : Nat) : Option (WmoHdr × Nat) := do
  let (tt, cpos) ← getWstr limit buf prodName 2
  let (aa, cpos) ← getWstr limit buf cpos 2
  let (ii, cpos) := getInt limit buf cpos
  let (cccc, cpos) ← getWstr limit buf cpos 4
  let (ddhhmm, cpos) ← getWstr limit buf cpos 6
  let (bbb, cpos) := (getWstr limit buf cpos 9).getD ([], cpos)
  let cpos ← getLine buf cpos 30
  return ({ tt, aa, ii, cccc, ddhhmm, bbb }, cpos)

end Groups

/-- Texts that `gribid.c`, `wgrib.c` and `mktime` make of octets: the center and the model in
one `sprintf`, the model alone, the forecast hour of the octets 20 to 28 and 32, the parameter
by table version, center, process, parameter and subcenter, and the level. -/
structure GribText where
  origin : UInt8 → UInt8 → Text
  model : UInt8 → UInt8 → Text
  fhour : List UInt8 → UInt8 → Int
  k5toa : UInt8 → UInt8 → UInt8 → UInt8 → UInt8 → Text
  levels : UInt8 → UInt8 → UInt8 → Text

section Body
variable (t : GribText) (buf : Buffer) (cpos : Nat)

def gribYear : Nat :=
  let century := if buf (cpos + 20) > 0 then buf (cpos + 32) - 1 else buf (cpos + 32)
  century.toNat * 100 + (buf (cpos + 20)).toNat

/-- Editions 0 and 1: the parts of `"grib/%s/%s/#%03d/%04d%02d%02d%02d%02d/F%03d/%s/%s/ "`. -/
def gribSource : Text :=
  ascii "grib/" ++ t.origin (buf (cpos + 12)) (buf (cpos + 13)) ++ ascii "/#" ++
    fmt0 3 (buf (cpos + 14)).toNat ++ ascii "/"

def gribTimes : Text :=
  fmt0 2 (buf (cpos + 21)).toNat ++ fmt0 2 (buf (cpos + 22)).toNat ++
    fmt0 2 (buf (cpos + 23)).toNat ++ fmt0 2 (buf (cpos + 24)).toNat ++ ascii "/F" ++
    fmt0 3 (t.fhour (load buf (cpos + 20) 9) (buf (cpos + 32))) ++ ascii "/"

def gribLevel : Text :=
  ascii "/" ++ t.levels (buf (cpos + 17)) (buf (cpos + 18)) (buf (cpos + 19)) ++ ascii "/ "

def gribParameter : Text :=
  t.k5toa (buf (cpos + 11)) (buf (cpos + 12)) (buf (cpos + 13)) (buf (cpos + 16)) (buf (cpos + 33))

def gribMeta : Text :=
  gribSource t buf cpos ++ (fmt0 4 (gribYear buf cpos) ++
    (gribTimes t buf cpos ++ (gribParameter t buf cpos ++ gribLevel t buf cpos)))

/-- `while ((pos > cpos) && (pos[0] < ' ')) pos--`, with `char` signed. -/
def lastText : Nat → Nat
  | 0 => 0
  | n + 1 => if buf (cpos + (n + 1)) < 32 ∨ 128 ≤ buf (cpos + (n + 1)) then lastText n else n + 1

/-- The padding of the line is chopped off, to three characters. -/
def trimSpace : Nat → Nat
  | cnt + 4 => if isspace (buf (cpos + (cnt + 3))) then trimSpace (cnt + 3) else cnt + 4
  | cnt => cnt

/-- `hdr.PIL`: a line of six characters that are alphanumeric and not all digits. -/
def pil (nchar : Nat) : Text :=
  if isalnum (buf cpos) then
    match getLine buf cpos nchar with
    | none => []
    | some pos =>
      if lastText buf cpos (pos - 1 - cpos) + 1 = 6 then
        let tpil := (load buf cpos (trimSpace buf cpos 6)).takeWhile (· ≠ 0)
        if tpil.all isalnum ∧ ¬ tpil.all isdigit then tpil else []
      else []
  else []

end Body

def wmoid (hdr : WmoHdr) (pil model : Text) : Text :=
  hdr.tt ++ hdr.aa ++ fmt0 2 hdr.ii ++ [32] ++ hdr.cccc ++ [32] ++ hdr.ddhhmm ++
    (if hdr.bbb ≠ [] then 32 :: hdr.bbb else []) ++
    (if pil ≠ [] then ascii " /p" ++ pil else []) ++
    (if model ≠ [] then 32 :: model else [])

/-- The end of `wmo_header`; `wmometa` and `metaoff` have been set already. -/
def identify (hdr : WmoHdr) (pil model wmometa : Text) (metaoff : Int) : WmoHeader :=
  let id := wmoid hdr pil model
  if id.length > 128 ∨ id.length < 1 then { ok := false, wmohead := [], wmometa, metaoff }
  else { ok := true, wmohead := id, wmometa, metaoff }

def wmoHeader (t : GribText) (limit : Nat) (buf : Buffer) (prodName prodSize : Nat) : WmoHeader :=
  match wmoGroups limit buf prodName with
  | none => { ok := false, wmohead := [], wmometa := [], metaoff := -1 }
  | some (hdr, cpos) =>
    if load buf cpos 4 = ascii "GRIB" then
      let gversion := buf (cpos + 7)
      if gversion = 0 ∨ gversion = 1 then
        identify hdr [] (ascii "/m" ++ t.model (buf (cpos + 12)) (buf (cpos + 13)))
          (gribMeta t buf cpos) (-1)
      else if gversion = 2 then identify hdr [] [] (ascii "grib2/") (cpos - prodName : Nat)
      else identify hdr [] [] (ascii "gribx/") (-1)
    else
      let cpos := if load buf cpos 4 = ascii "^NMC" then cpos + 4 else cpos
      identify hdr (pil buf cpos (prodSize - (cpos - prodName))) [] [] (-1)

section Scanners
variable {limit pos nchar : Nat} {buf buf' : Buffer}

/-- `pos[i] == ' '` and `i < strlen(pos)`: the spaces end at the first other character. -/
theorem span_strlen {p : UInt8 → Bool} (h0 : p 0 = false) (limit : Nat) (buf : Buffer) (pos : Nat) :
    span p buf pos (strlen limit buf pos) = span p buf pos (limit - pos) := by
  obtain ⟨hall, hstop⟩ := span_spec p buf pos (limit - pos)
  obtain ⟨hnul, hend⟩ := span_spec (· ≠ 0) buf pos (limit - pos)
  have hle := span_le p buf pos (limit - pos)
  have hlen : span p buf pos (limit - pos) ≤ strlen limit buf pos := by
    by_contra hlt
    have hz := hend (by unfold strlen at hlt; omega)
    have hp := hall _ (Nat.lt_of_not_le hlt)
    unfold strlen at hp
    rw [show buf (pos + span (· ≠ 0) buf pos (limit - pos)) = 0 by simpa using hz, h0] at hp
    cases hp
  refine span_eq hlen hall fun hlt => hstop ?_
  have := span_le (· ≠ 0) buf pos (limit - pos)
  unfold strlen at hlt
  omega

theorem lt_strlen {i : Nat} (h : ∀ j, j < i → buf (pos + j) ≠ 0) :
    i < strlen limit buf pos ↔ i < limit - pos ∧ buf (pos + i) ≠ 0 := by
  obtain ⟨hall, hstop⟩ := span_spec (· ≠ 0) buf pos (limit - pos)
  have hle := span_le (· ≠ 0) buf pos (limit - pos)
  constructor
  · intro hi
    exact ⟨Nat.lt_of_lt_of_le hi hle, by simpa using hall i hi⟩
  · rintro ⟨hi, hne⟩
    by_contra hlt
    have hz : buf (pos + strlen limit buf pos) = 0 := by
      simpa [strlen] using hstop (by unfold strlen at hlt; omega)
    rcases Nat.lt_or_eq_of_le (Nat.le_of_not_lt hlt) with hlt | heq
    · exact h _ hlt hz
    · exact hne (heq ▸ hz)

def blanks (limit : Nat) (buf : Buffer) (pos : Nat) : Nat := span (· = 32) buf pos (limit - pos)

def wordLen (limit : Nat) (buf : Buffer) (pos nchar : Nat) : Nat :=
  span isalnum buf (pos + blanks limit buf pos) nchar

theorem blanks_ne_zero (limit : Nat) (buf : Buffer) (pos j : Nat) (hj : j < blanks limit buf pos) :
    buf (pos + j) ≠ 0 := by
  have h := (span_spec (· = 32) buf pos (limit - pos)).1 j hj
  rw [of_decide_eq_true h]
  decide

theorem getWstr_eq (limit : Nat) (buf : Buffer) (pos nchar : Nat) :
    getWstr limit buf pos nchar =
      if blanks limit buf pos < limit - pos ∧ buf (pos + blanks limit buf pos) ≠ 0 then
        some (load buf (pos + blanks limit buf pos) (wordLen limit buf pos nchar),
          pos + blanks limit buf pos + wordLen limit buf pos nchar)
      else none := by
  simp only [getWstr, span_strlen (p := fun b => b = 32) (by decide)]
  exact if_congr (lt_strlen (blanks_ne_zero limit buf pos)) rfl rfl

/-- `get_wstr` as a scanner. -/
def wordScan (limit nchar : Nat) : Scanner UInt8 Text where
  run buf pos := getWstr limit buf pos nchar
  seen buf pos := pos + blanks limit buf pos + wordLen limit buf pos nchar + 1
  looks buf pos := by omega
  ends buf pos x b h := by
    rw [getWstr_eq] at h
    split_ifs at h
    cases h
    omega
  agrees m m' pos h := by
    have hblanks : blanks limit m' pos = blanks limit m pos :=
      span_agree (h.mono (Nat.le_refl pos) (by unfold blanks; omega))
    have hword : wordLen limit m' pos nchar = wordLen limit m pos nchar := by
      unfold wordLen
      rw [hblanks]
      exact span_agree (h.mono (by omega) (by unfold wordLen; omega))
    have hcell : m (pos + blanks limit m pos) = m' (pos + blanks limit m pos) :=
      h _ (by omega) (by omega)
    have hload : load m (pos + blanks limit m pos) (wordLen limit m pos nchar) =
        load m' (pos + blanks limit m pos) (wordLen limit m pos nchar) :=
      h.load (by omega) (by omega)
    rw [getWstr_eq, getWstr_eq, hblanks, hword, hcell, hload]
    exact ⟨rfl, rfl⟩

theorem wordScan_stopsAt (limit nchar : Nat) : (wordScan limit nchar).StopsAt 10 limit 0 := by
  intro m m' pos k hpos hk hlimit hag hc
  change k < pos + blanks limit m pos + wordLen limit m pos nchar + 1 at hk
  by_cases hin : k ≤ pos + blanks limit m pos
  · -- among the blanks, or where the word would begin
    have hblanks : blanks limit m' pos = k - pos := span_cut hpos hin hag (by rw [hc]; decide)
    have hword : wordLen limit m' pos nchar = 0 := by
      unfold wordLen
      rw [hblanks, Nat.add_sub_cancel' hpos]
      exact span_eq (Nat.zero_le _) (fun i hi => absurd hi (Nat.not_lt_zero i))
        fun _ => by rw [Nat.add_zero, hc]; decide
    refine ⟨[], ?_⟩
    change getWstr limit m' pos nchar = _
    rw [getWstr_eq, hblanks, hword, Nat.add_sub_cancel' hpos, hc, if_pos ⟨by omega, by decide⟩]
    rfl
  · -- inside the word, or right behind it
    have hblanks : blanks limit m' pos = blanks limit m pos :=
      span_agree (hag.mono (Nat.le_refl pos) (by unfold blanks at hin; omega))
    have hword : wordLen limit m' pos nchar = k - (pos + blanks limit m pos) := by
      unfold wordLen
      rw [hblanks]
      exact span_cut (by omega) (by unfold wordLen at hk; omega) (hag.mono (by omega) (Nat.le_refl k))
        (by rw [hc]; decide)
    have hcell : m' (pos + blanks limit m pos) ≠ 0 := by
      have halnum := (span_spec isalnum m (pos + blanks limit m pos) nchar).1 0
        (by unfold wordLen at hk; omega)
      rw [← hag _ (by omega) (by omega)]
      intro h0
      rw [Nat.add_zero, h0] at halnum
      exact absurd halnum (by decide)
    refine ⟨load m' (pos + blanks limit m pos) (k - (pos + blanks limit m pos)), ?_⟩
    change getWstr limit m' pos nchar = _
    rw [getWstr_eq, hblanks, hword, if_pos ⟨by omega, hcell⟩,
      Nat.add_sub_cancel' (Nat.le_of_not_le hin)]
    rfl

theorem wordScan_passes (limit nchar : Nat) : (wordScan limit nchar).Passes 10 0 := by
  intro m pos x b h i hi hib
  change getWstr limit m pos nchar = some (x, b) at h
  rw [getWstr_eq] at h
  split_ifs at h
  cases h
  by_cases hin : i < pos + blanks limit m pos
  · have hb := (span_spec (· = 32) m pos (limit - pos)).1 (i - pos)
      (by unfold blanks at hin; omega)
    rw [Nat.add_sub_cancel' hi] at hb
    rw [of_decide_eq_true hb]
    decide
  · have hw := (span_spec isalnum m (pos + blanks limit m pos) nchar).1
      (i - (pos + blanks limit m pos)) (by unfold wordLen at hib; omega)
    rw [Nat.add_sub_cancel' (Nat.le_of_not_lt hin)] at hw
    intro h10
    rw [h10] at hw
    exact absurd hw (by decide)

def digits (limit : Nat) (buf : Buffer) (pos : Nat) : Nat := span isdigit buf pos (limit - pos)

theorem getInt_eq (limit : Nat) (buf : Buffer) (pos : Nat) :
    getInt limit buf pos =
      (scanInt (load buf pos (digits limit buf pos)), pos + digits limit buf pos) := by
  simp only [getInt, span_strlen (p := isdigit) (by decide)]
  rfl

/-- The digits of `hdr.ii` as a scanner. -/
def intScan (limit : Nat) : Scanner UInt8 Int where
  run buf pos := some (getInt limit buf pos)
  seen buf pos := pos + digits limit buf pos + 1
  looks buf pos := by omega
  ends buf pos x b h := by
    rw [getInt_eq] at h
    cases h
    omega
  agrees m m' pos h := by
    have hdigits : digits limit m' pos = digits limit m pos :=
      span_agree (h.mono (Nat.le_refl pos) (Nat.le_refl _))
    have hload : load m pos (digits limit m pos) = load m' pos (digits limit m pos) :=
      h.load (Nat.le_refl pos) (by omega)
    rw [getInt_eq, getInt_eq, hdigits, hload]
    exact ⟨rfl, rfl⟩

theorem intScan_stopsAt (limit : Nat) : (intScan limit).StopsAt 10 limit 0 := by
  intro m m' pos k hpos hk hlimit hag hc
  change k < pos + digits limit m pos + 1 at hk
  have hdigits : digits limit m' pos = k - pos :=
    span_cut hpos (by unfold digits at hk; omega) hag (by rw [hc]; decide)
  refine ⟨scanInt (load m' pos (k - pos)), ?_⟩
  change some (getInt limit m' pos) = _
  rw [getInt_eq, hdigits, Nat.add_sub_cancel' hpos]
  rfl

theorem intScan_passes (limit : Nat) : (intScan limit).Passes 10 0 := by
  intro m pos x b h i hi hib h10
  change some (getInt limit m pos) = some (x, b) at h
  rw [getInt_eq] at h
  cases h
  have hd := (span_spec isdigit m pos (limit - pos)).1 (i - pos) (by unfold digits at hib; omega)
  rw [Nat.add_sub_cancel' hi, h10] at hd
  exact absurd hd (by decide)

/-- `get_line` as a scanner. -/
def lineScan (nchar : Nat) : Scanner UInt8 Unit where
  run buf pos := (getLine buf pos nchar).map fun b => ((), b)
  seen buf pos := pos + span (· ≠ 10) buf pos nchar + 1
  looks buf pos := by omega
  ends buf pos x b h := by
    obtain ⟨b', hb, he⟩ := Option.map_eq_some_iff.1 h
    cases he
    unfold getLine at hb
    dsimp only at hb
    split_ifs at hb
    cases hb
    omega
  agrees m m' pos h := by
    have hspan : span (· ≠ 10) m' pos nchar = span (· ≠ 10) m pos nchar := span_agree h
    have hcell : m (pos + span (· ≠ 10) m pos nchar) = m' (pos + span (· ≠ 10) m pos nchar) :=
      h _ (by omega) (by omega)
    unfold getLine
    dsimp only
    rw [hspan, hcell]
    exact ⟨rfl, rfl⟩

theorem lineScan_stopsAt (limit nchar : Nat) : (lineScan nchar).StopsAt 10 limit 1 := by
  intro m m' pos k hpos hk hlimit hag hc
  have hspan : span (· ≠ 10) m' pos nchar = k - pos :=
    span_cut hpos (Nat.le_of_lt_succ hk) hag (by rw [hc]; decide)
  refine ⟨(), ?_⟩
  change (getLine m' pos nchar).map _ = _
  unfold getLine
  dsimp only
  rw [hspan, Nat.add_sub_cancel' hpos, hc, if_pos rfl]
  rfl

theorem lineScan_passes (nchar : Nat) : (lineScan nchar).Passes 10 1 := by
  intro m pos x b h i hi hib
  obtain ⟨b', hb, he⟩ := Option.map_eq_some_iff.1 h
  cases he
  unfold getLine at hb
  dsimp only at hb
  split_ifs at hb
  cases hb
  have hl := (span_spec (· ≠ 10) m pos nchar).1 (i - pos) (by omega)
  rw [Nat.add_sub_cancel' hi] at hl
  exact of_decide_eq_true hl

/-- The groups as one scanner. -/
def groups (limit : Nat) : Scanner UInt8 WmoHdr :=
  (wordScan limit 2).bind fun tt => (wordScan limit 2).bind fun aa => (intScan limit).bind fun ii =>
    (wordScan limit 4).bind fun cccc => (wordScan limit 6).bind fun ddhhmm =>
      ((wordScan limit 9).orStay []).bind fun bbb =>
        (lineScan 30).map fun _ => { tt, aa, ii, cccc, ddhhmm, bbb }

theorem wmoGroups_eq (limit : Nat) (buf : Buffer) (prodName : Nat) :
    wmoGroups limit buf prodName = (groups limit).run buf prodName := by
  unfold wmoGroups groups
  simp only [Scanner.run_bind, Scanner.run_map, Scanner.run_orStay, wordScan, intScan, lineScan,
    Option.bind_eq_bind, Option.pure_def, Option.bind_some, Option.map_eq_bind, Option.bind_assoc,
    Function.comp_def]

theorem groups_stopsAt (limit : Nat) : (groups limit).StopsAt 10 limit 1 := by
  have hw := wordScan_stopsAt limit
  refine (hw 2).bind fun _ => (hw 2).bind fun _ => (intScan_stopsAt limit).bind fun _ => ?_
  refine (hw 4).bind fun _ => (hw 6).bind fun _ => ((hw 9).orStay []).bind fun _ => ?_
  exact (lineScan_stopsAt limit 30).map

theorem groups_passes (limit : Nat) : (groups limit).Passes 10 1 := by
  have hw := wordScan_passes limit
  refine (hw 2).bind fun _ => (hw 2).bind fun _ => (intScan_passes limit).bind fun _ => ?_
  refine (hw 4).bind fun _ => (hw 6).bind fun _ => ((hw 9).orStay []).bind fun _ => ?_
  exact (lineScan_passes 30).map

/-- The sizes of the groups, as `wmo_header.h` has them. -/
structure WmoHdr.Short (hdr : WmoHdr) : Prop where
  tt : hdr.tt.length ≤ 2
  aa : hdr.aa.length ≤ 2
  ii : hdr.ii.natAbs ≤ 2 ^ 31
  cccc : hdr.cccc.length ≤ 4
  ddhhmm : hdr.ddhhmm.length ≤ 6
  bbb : hdr.bbb.length ≤ 9

theorem wordScan_yields (limit nchar : Nat) : (wordScan limit nchar).Yields (·.length ≤ nchar) := by
  intro m pos x b h
  change getWstr limit m pos nchar = some (x, b) at h
  rw [getWstr_eq] at h
  split_ifs at h
  cases h
  rw [length_load]
  exact span_le ..

theorem scanInt_natAbs_le (digits : Text) : (scanInt digits).natAbs ≤ 2 ^ 31 := by
  have hlt := Nat.mod_lt
    (min (digits.foldl (fun n b => 10 * n + (b.toNat - 48)) 0) (2 ^ 63 - 1)) (Nat.two_pow_pos 32)
  unfold scanInt
  dsimp only
  split_ifs
  · omega
  · omega

theorem intScan_yields (limit : Nat) : (intScan limit).Yields (·.natAbs ≤ 2 ^ 31) := by
  intro m pos x b h
  change some (getInt limit m pos) = some (x, b) at h
  rw [getInt_eq] at h
  cases h
  exact scanInt_natAbs_le _

theorem groups_yields (limit : Nat) : (groups limit).Yields WmoHdr.Short := by
  have hw := wordScan_yields limit
  refine (hw 2).bind fun tt htt => (hw 2).bind fun aa haa => (intScan_yields limit).bind
    fun ii hii => ?_
  refine (hw 4).bind fun cccc hcccc => (hw 6).bind fun ddhhmm hddhhmm =>
    ((hw 9).orStay (y := []) (Nat.zero_le 9)).bind fun bbb hbbb => ?_
  have hline : (lineScan 30).Yields fun _ => True := fun _ _ _ _ _ => trivial
  exact hline.map fun _ _ => ⟨htt, haa, hii, hcccc, hddhhmm, hbbb⟩

theorem lineScan_closes (nchar : Nat) : (lineScan nchar).Closes 10 := by
  intro m pos x b h
  obtain ⟨b', hb, he⟩ := Option.map_eq_some_iff.1 h
  cases he
  unfold getLine at hb
  dsimp only at hb
  split_ifs at hb with h10
  cases hb
  exact ⟨by omega, h10⟩

theorem groups_closes (limit : Nat) : (groups limit).Closes 10 := by
  refine .bind fun _ => .bind fun _ => .bind fun _ => .bind fun _ => .bind fun _ => .bind fun _ => ?_
  exact (lineScan_closes 30).map

end Scanners
end Noaaport
