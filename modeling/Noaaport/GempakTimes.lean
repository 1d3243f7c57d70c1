import Noaaport.FosText
import Noaaport.Grib2Fields
import Noaaport.Lib.Calendar
import Noaaport.WmoHeadings

/-! GEMPAK's times: `ti_addm` adds minutes to a time, `ti_mdif` takes the difference of two, and
`gb2_ftim` writes down the reference time of a GRIB2 field and how far ahead of it the field is. -/
namespace Noaaport
open Lib

@[ext] structure Dtarr where
  year : Int
  month : Int
  day : Int
  hour : Int
  minute : Int
  deriving DecidableEq

/-- What no `int` holds is undefined. -/
def checked (x : Int) : Option Int := if -2147483648 ≤ x ∧ x ≤ 2147483647 then some x else none

def ti_daym (iyear imonth : Int) : Int :=
  if imonth = 2 then
    if iyear.tmod 4 = 0 ∧ (iyear.tmod 100 ≠ 0 ∨ iyear.tmod 400 = 0) then 29 else 28
  else if imonth ∈ [1, 3, 5, 7, 8, 10, 12] then 31 else 30

/-- A turn of the loop of `ti_addm`. -/
def Dtarr.nextDay (t : Dtarr) : Dtarr :=
  if t.day = ti_daym t.year t.month then
    if t.month + 1 = 13 then { t with year := t.year + 1, month := 1, day := 1 }
    else { t with month := t.month + 1, day := 1 }
  else { t with day := t.day + 1 }

def ti_addm (idtarr : Dtarr) (imin : Int) : Except Int Dtarr :=
  if imin < 0 then .error (-16)
  else if idtarr.month < 1 ∨ 12 < idtarr.month then .error (-8)
  else if idtarr.year < 0 then .error (-7)
  else if idtarr.day < 1 ∨ ti_daym idtarr.year idtarr.month < idtarr.day then .error (-9)
  else
    let jhr := (imin.tdiv 60).tmod 24
    let jday := (imin.tdiv 60).tdiv 24
    let sum := idtarr.minute + imin.tmod 60
    let iminut := if 59 < sum then sum - 60 else sum
    let jhr := if 59 < sum then jhr + 1 else jhr
    let sum := idtarr.hour + jhr
    let ihour := if 23 < sum then sum - 24 else sum
    let jday := if 23 < sum then jday + 1 else jday
    let last := Dtarr.nextDay^[jday.toNat] idtarr
    -- a year of two digits stays one
    let iyear := if idtarr.year < 100 then last.year.tmod 100 else last.year
    .ok { last with year := iyear, hour := ihour, minute := iminut }

def ti_itoj (t : Dtarr) : Int × Int :=
  (t.year, (List.range (t.month - 1).toNat).foldl (fun jday (i : Nat) => jday + ti_daym t.year (i + 1)) t.day)

/-- The days of the years from one to the other, none where the other is not the later one. -/
def addYears (iyr jyr jday : Int) : Int :=
  (List.range (jyr - iyr).toNat).foldl
    (fun jday (i : Nat) => jday + if ti_daym (iyr + i) 2 = 29 then 366 else 365) jday

/-- The minutes and the return code. -/
def ti_mdif (idtar1 idtar2 : Dtarr) : Option (Int × Int) :=
  if idtar1.year < 0 ∨ idtar2.year < 0 then some (0, -12)
  else do
    let jday1 := addYears idtar2.year idtar1.year (ti_itoj idtar1).2
    let jday2 := addYears idtar1.year idtar2.year (ti_itoj idtar2).2
    let nmin1 ← checked (jday1 * 1440 + idtar1.hour * 60 + idtar1.minute)
    let nmin2 ← checked (jday2 * 1440 + idtar2.hour * 60 + idtar2.minute)
    some (nmin1 - nmin2, 0)

section Calendars
variable {t u : Dtarr} {m : Int} {n : Nat}

theorem daym_bounds (y m : Int) : 28 ≤ ti_daym y m ∧ ti_daym y m ≤ 31 := by
  unfold ti_daym
  split_ifs <;> decide

theorem daym_pos (y m : Nat) : 0 < (ti_daym y m).toNat := by
  have hday := daym_bounds y m
  omega

def gregorian : Calendar where
  months := 12
  days y m := (ti_daym y m).toNat
  months_pos := Nat.succ_pos 11
  days_pos := daym_pos

theorem cast_days (y m : Nat) : (gregorian.days y m : Int) = ti_daym y m :=
  Int.toNat_of_nonneg (by have hday := daym_bounds y m; omega)

def Dtarr.date (t : Dtarr) : Day := ⟨t.year.toNat, t.month.toNat, t.day.toNat⟩

structure Dtarr.Dated (t : Dtarr) : Prop where
  year : 0 ≤ t.year
  month : 1 ≤ t.month ∧ t.month ≤ 12
  day : 1 ≤ t.day ∧ t.day ≤ ti_daym t.year t.month

structure Dtarr.Valid (t : Dtarr) : Prop extends t.Dated where
  hour : 0 ≤ t.hour ∧ t.hour ≤ 23
  minute : 0 ≤ t.minute ∧ t.minute ≤ 59

/-- The minutes since the beginning of the calendar. -/
def Dtarr.minutes (t : Dtarr) : Int := 1440 * (gregorian.ordinal t.date : Int) + 60 * t.hour + t.minute

theorem Dtarr.Dated.cast (h : t.Dated) :
    (t.year.toNat : Int) = t.year ∧ (t.month.toNat : Int) = t.month ∧ (t.day.toNat : Int) = t.day :=
  ⟨Int.toNat_of_nonneg h.year, Int.toNat_of_nonneg (by have := h.month; omega),
    Int.toNat_of_nonneg (by have := h.day; omega)⟩

theorem Dtarr.Dated.cast_days (h : t.Dated) :
    (gregorian.days t.date.year t.date.month : Int) = ti_daym t.year t.month := by
  obtain ⟨hy, hm, hd⟩ := h.cast
  rw [Noaaport.cast_days]
  simp only [Dtarr.date, hy, hm]

theorem Dtarr.Dated.valid (h : t.Dated) : gregorian.Valid t.date := by
  have hdays := h.cast_days
  obtain ⟨hy, hm, hd⟩ := h.cast
  obtain ⟨hyear, hmonth, hday⟩ := h
  exact ⟨by simp only [Dtarr.date, gregorian]; omega, by simp only [Dtarr.date] at hdays ⊢; omega⟩

theorem Dtarr.Dated.nextDay (h : t.Dated) :
    t.nextDay.Dated ∧ t.nextDay.date = gregorian.next t.date ∧ t.year ≤ t.nextDay.year := by
  have hdays := h.cast_days
  obtain ⟨hy, hm, hd⟩ := h.cast
  have hbounds := daym_bounds t.year (t.month + 1)
  have hjan := daym_bounds (t.year + 1) 1
  obtain ⟨hyear, hmonth, hday⟩ := h
  have hlast : t.date.day = gregorian.days t.date.year t.date.month ↔ t.day = ti_daym t.year t.month := by
    simp only [Dtarr.date] at hdays ⊢
    omega
  have hyearend : t.date.month = gregorian.months ↔ t.month + 1 = 13 := by
    simp only [Dtarr.date, gregorian]
    omega
  unfold Dtarr.nextDay Calendar.next
  simp only [hlast, hyearend]
  split_ifs with hl hye
  · refine ⟨⟨?_, ?_, ?_⟩, ?_, ?_⟩
    · dsimp only; omega
    · exact ⟨Int.le_refl 1, by dsimp only; omega⟩
    · dsimp only; omega
    · exact Day.ext (by simp only [Dtarr.date]; omega) rfl rfl
    · dsimp only; omega
  · refine ⟨⟨hyear, ?_, ?_⟩, ?_, Int.le_refl _⟩
    · dsimp only; omega
    · dsimp only; omega
    · exact Day.ext rfl (by simp only [Dtarr.date]; omega) rfl
  · refine ⟨⟨hyear, hmonth, ?_⟩, ?_, Int.le_refl _⟩
    · dsimp only; omega
    · exact Day.ext rfl rfl (by simp only [Dtarr.date]; omega)

/-- The loop goes as many days ahead as it takes turns. -/
theorem Dtarr.Dated.iterate (h : t.Dated) (n : Nat) :
    (Dtarr.nextDay^[n] t).Dated ∧ (Dtarr.nextDay^[n] t).date = gregorian.next^[n] t.date ∧
      t.year ≤ (Dtarr.nextDay^[n] t).year := by
  induction n with
  | zero => exact ⟨h, rfl, Int.le_refl _⟩
  | succ n ih =>
    obtain ⟨hdated, hdate, hyear⟩ := ih
    have hnext := hdated.nextDay
    rw [Function.iterate_succ_apply', Function.iterate_succ_apply', ← hdate]
    exact ⟨hnext.1, hnext.2.1, Int.le_trans hyear hnext.2.2⟩

/-- Two times as many minutes from the beginning are one. -/
theorem Dtarr.Valid.minutes_inj (ht : t.Valid) (hu : u.Valid) (h : t.minutes = u.minutes) : t = u := by
  unfold Dtarr.minutes at h
  obtain ⟨hth, hth'⟩ := ht.hour
  obtain ⟨htm, htm'⟩ := ht.minute
  obtain ⟨huh, huh'⟩ := hu.hour
  obtain ⟨hum, hum'⟩ := hu.minute
  have hord : gregorian.ordinal t.date = gregorian.ordinal u.date := by omega
  have hdate := ht.toDated.valid.ordinal_inj hu.toDated.valid hord
  obtain ⟨hy, hm, hd⟩ := ht.toDated.cast
  obtain ⟨hy', hm', hd'⟩ := hu.toDated.cast
  simp only [Dtarr.date, Day.mk.injEq] at hdate
  obtain ⟨hyear, hmonth, hday⟩ := hdate
  rw [hyear] at hy
  rw [hmonth] at hm
  rw [hday] at hd
  exact Dtarr.ext (hy.symm.trans hy') (hm.symm.trans hm') (hd.symm.trans hd') (by omega) (by omega)

/-- What `ti_addm` makes of a time, but for the century of a year of two digits. -/
theorem ti_addm_spec (h : t.Valid) (hm : 0 ≤ m) :
    ∃ u : Dtarr, u.Valid ∧ u.minutes = t.minutes + m ∧ t.year ≤ u.year ∧
      ti_addm t m = .ok { u with year := if t.year < 100 then u.year.tmod 100 else u.year } := by
  obtain ⟨hh, hh'⟩ := h.hour
  obtain ⟨hmin, hmin'⟩ := h.minute
  obtain ⟨hmonth, hmonth'⟩ := h.month
  obtain ⟨hday, hday'⟩ := h.day
  unfold ti_addm
  rw [if_neg (by omega), if_neg (by omega), if_neg (by have := h.year; omega), if_neg (by omega)]
  simp only [Int.tdiv_eq_ediv_of_nonneg hm, Int.tmod_eq_emod_of_nonneg hm]
  have hhours : 0 ≤ m / 60 := by omega
  simp only [Int.tdiv_eq_ediv_of_nonneg hhours, Int.tmod_eq_emod_of_nonneg hhours]
  generalize hs : t.minute + m % 60 = minutes
  generalize hj : (if 59 < minutes then m / 60 % 24 + 1 else m / 60 % 24) = jhr
  generalize hd : (if 23 < t.hour + jhr then m / 60 / 24 + 1 else m / 60 / 24) = jday
  have hpos : 0 ≤ jday := by split_ifs at hd <;> omega
  obtain ⟨hdated, hdate, hyear⟩ := h.toDated.iterate jday.toNat
  have hord := (h.toDated.valid.iterate jday.toNat).2
  rw [← hdate] at hord
  refine ⟨{ Dtarr.nextDay^[jday.toNat] t with
    hour := if 23 < t.hour + jhr then t.hour + jhr - 24 else t.hour + jhr
    minute := if 59 < minutes then minutes - 60 else minutes },
    ⟨⟨hdated.year, hdated.month, hdated.day⟩, ?_, ?_⟩, ?_, hyear, rfl⟩
  · dsimp only
    split_ifs at hj ⊢ <;> omega
  · dsimp only
    split_ifs <;> omega
  · simp only [Dtarr.minutes, Dtarr.date] at hord ⊢
    split_ifs at hj hd ⊢ <;> omega

/-- Summing up in a loop. -/
theorem foldl_range (f : Nat → Int) (a : Int) (n : Nat) :
    (List.range n).foldl (fun s i => s + f i) a = a + ∑ i ∈ Finset.range n, f i := by
  induction n with
  | zero => simp
  | succ n ih => rw [List.range_succ, List.foldl_append, ih, Finset.sum_range_succ, ← add_assoc]; rfl

theorem ti_itoj_ofYear (h : t.Dated) : (ti_itoj t).2 = gregorian.ofYear t.date := by
  obtain ⟨hy, hm, hd⟩ := h.cast
  have hmonth := h.month
  unfold ti_itoj Calendar.ofYear Calendar.before
  rw [foldl_range, show (t.month - 1).toNat = t.date.month - 1 by simp only [Dtarr.date]; omega]
  push_cast
  simp only [cast_days, Dtarr.date, hy, hd]
  push_cast
  omega

theorem daym_feb (y : Int) : ti_daym y 2 = 28 ∨ ti_daym y 2 = 29 := by
  unfold ti_daym
  rw [if_pos rfl]
  split_ifs
  · exact .inr rfl
  · exact .inl rfl

theorem cast_yearLength (y : Nat) :
    (gregorian.yearLength y : Int) = if ti_daym y 2 = 29 then 366 else 365 := by
  have hmonths : ∀ m : Int, ti_daym y m = if m = 2 then ti_daym y 2 else ti_daym 1 m := by
    intro m
    by_cases hm : m = 2
    · rw [if_pos hm, hm]
    · rw [if_neg hm, ti_daym, ti_daym, if_neg hm, if_neg hm]
  have hcast : (gregorian.yearLength y : Int) =
      ∑ i ∈ Finset.range 12, if ((i + 1 : Nat) : Int) = 2 then ti_daym y 2 else ti_daym 1 (i + 1 : Nat) := by
    unfold Calendar.yearLength
    rw [Nat.cast_sum]
    exact Finset.sum_congr rfl fun i _ => (cast_days y (i + 1)).trans (hmonths _)
  rw [hcast]
  rcases daym_feb y with hfeb | hfeb
  · rw [hfeb]
    decide
  · rw [hfeb]
    decide

theorem addYears_sum (i j : Nat) (jday : Int) : addYears i j jday =
    jday + ∑ y ∈ Finset.range (j - i), (gregorian.yearLength (i + y) : Int) := by
  unfold addYears
  rw [foldl_range, show ((j : Int) - i).toNat = j - i by omega]
  simp only [cast_yearLength]
  push_cast
  rfl

/-- The days counted for both times, from the beginning of the earlier year on. -/
theorem days_ordinal (ht : t.Dated) (hu : u.Dated) (hy : u.year ≤ t.year) :
    addYears u.year t.year (ti_itoj t).2 = gregorian.ordinal t.date - gregorian.ordinal u.date +
      gregorian.ofYear u.date ∧ addYears t.year u.year (ti_itoj u).2 = gregorian.ofYear u.date := by
  obtain ⟨hty, -, -⟩ := ht.cast
  obtain ⟨huy, -, -⟩ := hu.cast
  have hyears : t.date.year = u.date.year + (t.date.year - u.date.year) := by
    simp only [Dtarr.date]
    omega
  constructor
  · rw [ti_itoj_ofYear ht, ← hty, ← huy, addYears_sum]
    unfold Calendar.ordinal
    rw [hyears, Finset.sum_range_add]
    push_cast
    simp only [Dtarr.date]
    ring
  · unfold addYears
    rw [show (u.year - t.year).toNat = 0 by omega, ti_itoj_ofYear hu]
    rfl

theorem checked_some {x : Int} (h : -2147483648 ≤ x) (h' : x ≤ 2147483647) : checked x = some x :=
  if_pos ⟨h, h'⟩

theorem checked_eq {x y : Int} (h : checked x = some y) : y = x := by
  unfold checked at h
  split_ifs at h
  exact (Option.some.inj h).symm

theorem Dtarr.Valid.sinceYear (h : t.Valid) :
    0 ≤ (gregorian.ofYear t.date : Int) * 1440 + t.hour * 60 + t.minute ∧
      (gregorian.ofYear t.date : Int) * 1440 + t.hour * 60 + t.minute < 2 ^ 20 := by
  obtain ⟨hh, hh'⟩ := h.hour
  obtain ⟨hmin, hmin'⟩ := h.minute
  have hlen : (gregorian.yearLength t.date.year : Int) ≤ 366 := by
    rw [cast_yearLength]
    split_ifs <;> decide
  have hle := h.toDated.valid.ofYear_le.2
  exact ⟨by omega, by omega⟩

/-- The two sums of `ti_mdif` count from the beginning of the earlier year. -/
theorem ti_mdif_sums (ht : t.Valid) (hu : u.Valid) :
    ∃ nmin1 nmin2 : Int, nmin1 - nmin2 = t.minutes - u.minutes ∧
      ((0 ≤ nmin1 ∧ nmin1 < 2 ^ 20) ∨ (0 ≤ nmin2 ∧ nmin2 < 2 ^ 20)) ∧
      ti_mdif t u = (checked nmin1).bind fun n1 => (checked nmin2).bind fun n2 => some (n1 - n2, 0) := by
  have hty := ht.year
  have huy := hu.year
  refine ⟨_, _, ?_, ?_, if_neg (by omega)⟩
  · rcases Int.le_total u.year t.year with hle | hle
    · obtain ⟨h1, h2⟩ := days_ordinal ht.toDated hu.toDated hle
      rw [h1, h2]
      unfold Dtarr.minutes
      ring
    · obtain ⟨h1, h2⟩ := days_ordinal hu.toDated ht.toDated hle
      rw [h1, h2]
      unfold Dtarr.minutes
      ring
  · rcases Int.le_total u.year t.year with hle | hle
    · rw [(days_ordinal ht.toDated hu.toDated hle).2]
      exact .inr hu.sinceYear
    · rw [(days_ordinal hu.toDated ht.toDated hle).2]
      exact .inl ht.sinceYear

theorem ti_mdif_minutes {r : Int × Int} (ht : t.Valid) (hu : u.Valid) (h : ti_mdif t u = some r) :
    r = (t.minutes - u.minutes, 0) := by
  obtain ⟨nmin1, nmin2, hdiff, -, heq⟩ := ti_mdif_sums ht hu
  rw [heq] at h
  obtain ⟨n1, h1, h⟩ := Option.bind_eq_some_iff.1 h
  obtain ⟨n2, h2, h⟩ := Option.bind_eq_some_iff.1 h
  rw [← Option.some.inj h, checked_eq h1, checked_eq h2, hdiff]

theorem ti_mdif_some (ht : t.Valid) (hu : u.Valid) (hlt : t.minutes - u.minutes < 2 ^ 31 - 2 ^ 20)
    (hlt' : u.minutes - t.minutes < 2 ^ 31 - 2 ^ 20) : ti_mdif t u = some (t.minutes - u.minutes, 0) := by
  obtain ⟨nmin1, nmin2, hdiff, hsmall, heq⟩ := ti_mdif_sums ht hu
  rw [heq, checked_some (by omega) (by omega), checked_some (by omega) (by omega), ← hdiff]
  rfl

/-- A time is so many minutes after another exactly where the minutes added to that one yield it. -/
theorem ti_addm_iff_mdif (ht : t.Valid) (hu : u.Valid) (hy : 100 ≤ t.year) (hm : 0 ≤ m)
    (hlt : m < 2 ^ 31 - 2 ^ 20) : ti_addm t m = .ok u ↔ ti_mdif u t = some (m, 0) := by
  obtain ⟨v, hv, hmin, hyear, hadd⟩ := ti_addm_spec ht hm
  have hsame : ti_addm t m = .ok v := by rw [hadd, if_neg (by omega)]
  rw [hsame]
  constructor
  · intro h
    cases h
    rw [ti_mdif_some hv ht (by omega) (by omega), hmin, add_sub_cancel_left]
  · intro h
    have hdiff := congrArg Prod.fst (ti_mdif_minutes hu ht h)
    dsimp only at hdiff
    rw [hv.minutes_inj hu (by omega)]

theorem ti_addm_iff_mdif_leap : ti_addm ⟨2000, 2, 28, 23, 59⟩ 1441 = .ok ⟨2000, 3, 1, 0, 0⟩ ∧
    ti_mdif ⟨2000, 3, 1, 0, 0⟩ ⟨2000, 2, 28, 23, 59⟩ = some (1441, 0) := by
  have hadd : ti_addm ⟨2000, 2, 28, 23, 59⟩ 1441 = .ok ⟨2000, 3, 1, 0, 0⟩ := by rfl
  have hiff := ti_addm_iff_mdif (t := ⟨2000, 2, 28, 23, 59⟩) (u := ⟨2000, 3, 1, 0, 0⟩) (m := 1441)
    ⟨⟨by decide, by decide, by decide⟩, by decide, by decide⟩
    ⟨⟨by decide, by decide, by decide⟩, by decide, by decide⟩ (by decide) (by decide) (by decide)
  exact ⟨hadd, hiff.1 hadd⟩

end Calendars
/-- Code Table 4.4: how many minutes a number of units is. -/
def gb2_fcsm (ifcst unit : Int) : Option Int :=
  if unit = 0 then some ifcst
  else if unit = 1 then checked (ifcst * 60)
  else if unit = 2 then checked (ifcst * 60 * 24)
  else if unit = 10 then checked (ifcst * 3 * 60)
  else if unit = 11 then checked (ifcst * 6 * 60)
  else if unit = 12 then checked (ifcst * 12 * 60)
  else if unit = 13 then some (ifcst.tdiv 60)
  else some 0

/-- The letter A, F, G, I or N and the hours, with the minutes where there are any. -/
def fstr (itime : Int) : Text :=
  let ftype := ([65, 70, 71, 73] : Text).getD (itime.tdiv 100000).toNat 78
  let iftime := itime.tmod 100000
  ftype :: if itime.tmod 100 ≠ 0 then fmt0 5 iftime else fmt0 3 (iftime.tdiv 100)

/-- The return code and `gdattim`; `gtemp` has room for 20 characters. -/
def tg_itoc (date time ftime : Int) (len : Nat) : Option (Int × Text) :=
  if date = 0 ∧ time = 0 ∧ ftime = 0 then some (-1, [])
  else
    let gtemp := fmt0 8 date ++ ascii "/" ++ fmt0 4 time
    if 0 < ftime then
      let gtemp := gtemp ++ fstr ftime
      if gtemp.length ≤ 20 then some (0, gtemp.take len) else none
    else if gtemp.length ≤ 20 then some (0, []) else none

def endloc : List Nat := [0, 0, 0, 0, 0, 0, 0, 0, 15, 22, 16, 18, 17, 31, 30, 0, 0, 0, 0, 0]

/-- `endTime` reads where the templates have the end of the interval, from its year to its second. -/
example : ∀ row ∈ G2.templatespds, 8 ≤ row.template_num → row.template_num ≤ 14 →
    (row.map.drop (endloc.getD row.template_num 0)).take 6 = [2, 1, 1, 1, 1, 1] := by decide

/-- The cast of a `g2int` to an `int`. -/
def castInt (x : Int) : Int := (x + 2 ^ 31) % 2 ^ 32 - 2 ^ 31

/-- An entry of a list as an `int`. -/
def intAt (list : List Int) (i : Nat) : Int := castInt (list.getD i 0)

/-- The reference time of section 1. -/
def refTime (idsect : List Int) : Dtarr :=
  ⟨intAt idsect 5, intAt idsect 6, intAt idsect 7, intAt idsect 8, intAt idsect 9⟩

/-- The end of the time interval of a template from 8 to 14. -/
def endTime (p : G2.Product) : Dtarr :=
  let ipos := endloc.getD (castInt p.ipdtnum).toNat 0
  ⟨intAt p.ipdtmpl ipos, intAt p.ipdtmpl (ipos + 1), intAt p.ipdtmpl (ipos + 2), intAt p.ipdtmpl (ipos + 3),
    intAt p.ipdtmpl (ipos + 4)⟩

/-- `istart`: a failed `ti_addm` leaves the reference time there. -/
def startTime (ref : Dtarr) (itmp : Int) : Dtarr := (ti_addm ref itmp).toOption.getD ref

structure Forecast where
  iafgi : Int
  ifcst : Int
  iaccm : Int
  iret : Int

def forecast (idsect : List Int) (p : G2.Product) : Option Forecast :=
  let lead := gb2_fcsm (intAt p.ipdtmpl 8) (intAt p.ipdtmpl 7)
  if 0 ≤ castInt p.ipdtnum ∧ castInt p.ipdtnum ≤ 7 then lead.map fun ifcst => ⟨1, ifcst, -9999, 0⟩
  else if 8 ≤ castInt p.ipdtnum ∧ castInt p.ipdtnum ≤ 14 then do
    let ifcst ← ti_mdif (endTime p) (refTime idsect)
    let itmp ← lead
    let iaccm ← ti_mdif (endTime p) (startTime (refTime idsect) itmp)
    some ⟨1, ifcst.1, iaccm.1.tdiv 60, 0⟩
  else some ⟨0, 0, -9999, -27⟩

structure Ftim where
  gdattm : Text
  iaccm : Int
  iret : Int

def gb2_ftim (idsect : List Int) (p : G2.Product) : Option Ftim := do
  let q ← forecast idsect p
  let ref := refTime idsect
  let ihhh ← checked (q.ifcst.tdiv 60 * 100)
  let date ← checked (ref.year * 10000 + ref.month * 100 + ref.day)
  let r ← tg_itoc date (ref.hour * 100 + ref.minute) (q.iafgi * 100000 + ihhh + q.ifcst.tmod 60) 20
  some ⟨r.2, q.iaccm, q.iret⟩

section Texts
variable {w m n k : Nat} {x y : Int}

/-- The digits of a number say it, whatever zeros stand before them. -/
theorem number_zeros (k : Nat) (ds : Text) : Groups.number (List.replicate k 48 ++ ds) = Groups.number ds := by
  unfold Groups.number
  rw [List.foldl_append]
  congr 1
  induction k with
  | zero => rfl
  | succ k ih => exact ih

theorem digit_toNat : ∀ d < 10, (digit d).toNat - 48 = d := by decide

theorem number_decimal (n : Nat) : Groups.number (decimal n) = n := by
  induction n using Nat.strongRecOn with
  | ind n ih =>
    by_cases hn : n < 10
    · rw [decimal_digit hn]
      exact (Nat.zero_add _).trans (digit_toNat n hn)
    · have hq := ih (n / 10) (by omega)
      unfold Groups.number at hq ⊢
      rw [decimal_step (by omega), List.foldl_append, hq]
      simp only [List.foldl_cons, List.foldl_nil]
      rw [digit_toNat (n % 10) (Nat.mod_lt n (by decide))]
      omega

theorem number_fmt0 (w n : Nat) : Groups.number (fmt0 w n) = n := by
  have hpos : ¬ (n : Int) < 0 := by omega
  simp only [fmt0, if_neg hpos, List.nil_append, Int.natAbs_natCast]
  rw [number_zeros, number_decimal]

theorem fmt0_inj (w : Nat) {x y : Int} (hx : 0 ≤ x) (hy : 0 ≤ y) (h : fmt0 w x = fmt0 w y) : x = y := by
  obtain ⟨a, rfl⟩ := Int.eq_ofNat_of_zero_le hx
  obtain ⟨b, rfl⟩ := Int.eq_ofNat_of_zero_le hy
  have hnum := congrArg Groups.number h
  rw [number_fmt0, number_fmt0] at hnum
  rw [hnum]

theorem length_fmt0_eq {x : Int} (hx : 0 ≤ x) (hlt : x < 10 ^ (w + 1)) : (fmt0 (w + 1) x).length = w + 1 := by
  obtain ⟨a, rfl⟩ := Int.eq_ofNat_of_zero_le hx
  have hdigits : (decimal a).length ≤ w + 1 := length_decimal_le_iff.2 (by exact_mod_cast hlt)
  rw [length_fmt0, if_neg (by omega), Int.natAbs_natCast]
  omega

theorem letters_inj : ∀ a < 4, ∀ b < 4,
    ([65, 70, 71, 73] : Text).getD a 78 = ([65, 70, 71, 73] : Text).getD b 78 → a = b := by decide

theorem fstr_length (hx : 0 < x) : (fstr x).length = if x % 100 = 0 then 4 else 6 := by
  simp only [fstr, Int.tmod_eq_emod_of_nonneg (Int.le_of_lt hx), List.length_cons]
  rw [Int.tdiv_eq_ediv_of_nonneg (by omega)]
  by_cases hmin : x % 100 = 0
  · rw [if_neg (by omega), if_pos hmin, length_fmt0_eq (by omega) (by norm_num; omega)]
  · rw [if_pos (by omega), if_neg hmin, length_fmt0_eq (by omega) (by norm_num; omega)]

/-- Below 400000 the letter and the digits say the number. -/
theorem fstr_inj (hx : 0 < x ∧ x < 400000) (hy : 0 < y ∧ y < 400000) (h : fstr x = fstr y) : x = y := by
  have hlen := congrArg List.length h
  rw [fstr_length hx.1, fstr_length hy.1] at hlen
  simp only [fstr, Int.tmod_eq_emod_of_nonneg (Int.le_of_lt hx.1), Int.tmod_eq_emod_of_nonneg (Int.le_of_lt hy.1),
    Int.tdiv_eq_ediv_of_nonneg (Int.le_of_lt hx.1), Int.tdiv_eq_ediv_of_nonneg (Int.le_of_lt hy.1),
    List.cons.injEq] at h
  obtain ⟨hletter, hdigits⟩ := h
  have hquot := letters_inj _ (by omega) _ (by omega) hletter
  by_cases hmin : x % 100 = 0
  · have hmin' : y % 100 = 0 := by
      by_contra hne
      rw [if_pos hmin, if_neg hne] at hlen
      omega
    rw [if_neg (by omega), if_neg (by omega), Int.tdiv_eq_ediv_of_nonneg (by omega),
      Int.tdiv_eq_ediv_of_nonneg (by omega)] at hdigits
    have hhours := fmt0_inj 3 (by omega) (by omega) hdigits
    omega
  · have hmin' : ¬ y % 100 = 0 := by
      intro hzero
      rw [if_neg hmin, if_pos hzero] at hlen
      omega
    rw [if_pos (by omega), if_pos (by omega)] at hdigits
    have htime := fmt0_inj 5 (by omega) (by omega) hdigits
    omega

end Texts

/-- How far ahead of the reference time the field is, or its interval begins. -/
def leadTime (p : G2.Product) : Int := (gb2_fcsm (intAt p.ipdtmpl 8) (intAt p.ipdtmpl 7)).getD 0

/-- The minute the field is for. -/
def validAt (idsect : List Int) (p : G2.Product) : Int :=
  if castInt p.ipdtnum ≤ 7 then (refTime idsect).minutes + leadTime p else (endTime p).minutes

/-- A field whose time the text can say. -/
structure Timed (idsect : List Int) (p : G2.Product) : Prop where
  template : 0 ≤ castInt p.ipdtnum ∧ castInt p.ipdtnum ≤ 14
  ref : (refTime idsect).Valid
  year : 100 ≤ (refTime idsect).year ∧ (refTime idsect).year ≤ 9999
  lead : (gb2_fcsm (intAt p.ipdtmpl 8) (intAt p.ipdtmpl 7)).isSome ∧ leadTime p < 2 ^ 30
  ends : 8 ≤ castInt p.ipdtnum → (endTime p).Valid
  ahead : -60000 < validAt idsect p - (refTime idsect).minutes ∧
    validAt idsect p - (refTime idsect).minutes < 180000

section Fields
variable {idsect idsect' : List Int} {p p' : G2.Product} {ref : Dtarr} {x y n : Int}

/-- Below zero no time is added. -/
theorem startTime_minutes (h : ref.Valid) (hy : 100 ≤ ref.year) :
    (startTime ref n).Valid ∧ (startTime ref n).minutes = ref.minutes + max n 0 := by
  unfold startTime
  by_cases hn : n < 0
  · rw [ti_addm, if_pos hn, Int.max_eq_right (Int.le_of_lt hn)]
    exact ⟨h, (add_zero _).symm⟩
  · obtain ⟨u, hu, hmin, hyear, hadd⟩ := ti_addm_spec h (Int.not_lt.1 hn)
    rw [hadd, if_neg (by omega), Int.max_eq_left (by omega)]
    exact ⟨hu, hmin⟩

theorem Timed.forecast (h : Timed idsect p) :
    forecast idsect p = some ⟨1, validAt idsect p - (refTime idsect).minutes,
      if castInt p.ipdtnum ≤ 7 then -9999
      else (validAt idsect p - ((refTime idsect).minutes + max (leadTime p) 0)).tdiv 60, 0⟩ := by
  obtain ⟨htemplate, href, hyear, ⟨hlead, hlt⟩, hends, hahead⟩ := h
  obtain ⟨n, hn⟩ := Option.isSome_iff_exists.1 hlead
  have hleads : leadTime p = n := by rw [leadTime, hn]; rfl
  unfold Noaaport.forecast validAt at *
  simp only [hn, hleads] at hlt hahead ⊢
  by_cases h7 : castInt p.ipdtnum ≤ 7
  · simp only [if_pos h7, if_pos (And.intro htemplate.1 h7), Option.map_some, add_sub_cancel_left]
  · have hend := hends (by omega)
    obtain ⟨hstart, hmin⟩ := startTime_minutes (n := n) href hyear.1
    simp only [if_neg h7] at hahead ⊢
    rw [if_neg (by omega), if_pos (by omega), ti_mdif_some hend href (by omega) (by omega),
      Option.bind_eq_bind, Option.bind_some, Option.bind_eq_bind, Option.bind_some,
      ti_mdif_some hend hstart (by omega) (by omega), hmin]
    rfl

theorem tdiv_tmod_60 (x : Int) : 60 * x.tdiv 60 + x.tmod 60 = x ∧
    ((0 ≤ x ∧ 0 ≤ x.tmod 60 ∧ x.tmod 60 < 60) ∨ (x < 0 ∧ -60 < x.tmod 60 ∧ x.tmod 60 ≤ 0)) := by
  refine ⟨Int.mul_tdiv_add_tmod x 60, ?_⟩
  rcases Int.lt_or_le x 0 with hx | hx
  · have hneg : x.tmod 60 = -((-x) % 60) := by
      rw [← Int.tmod_eq_emod_of_nonneg (by omega), Int.neg_tmod, Int.neg_neg]
    omega
  · rw [Int.tmod_eq_emod_of_nonneg hx]
    omega

/-- The reference time as it is written. -/
def Dtarr.stamp (t : Dtarr) : Text :=
  fmt0 8 (t.year * 10000 + t.month * 100 + t.day) ++ ascii "/" ++ fmt0 4 (t.hour * 100 + t.minute)

theorem Dtarr.Valid.numbers (h : ref.Valid) (hy : ref.year ≤ 9999) :
    0 < ref.year * 10000 + ref.month * 100 + ref.day ∧
      ref.year * 10000 + ref.month * 100 + ref.day < 100000000 ∧
      0 ≤ ref.hour * 100 + ref.minute ∧ ref.hour * 100 + ref.minute < 10000 := by
  obtain ⟨⟨hy0, hm, hd⟩, hh, hmin⟩ := h
  have hday := daym_bounds ref.year ref.month
  omega

theorem Dtarr.Valid.length_stamp (h : ref.Valid) (hy : ref.year ≤ 9999) :
    (fmt0 8 (ref.year * 10000 + ref.month * 100 + ref.day)).length = 8 ∧ ref.stamp.length = 13 := by
  obtain ⟨hd, hd', ht, ht'⟩ := h.numbers hy
  have hdate := length_fmt0_eq (w := 7) (Int.le_of_lt hd) (by norm_num; exact hd')
  have htime := length_fmt0_eq (w := 3) ht (by norm_num; exact ht')
  refine ⟨hdate, ?_⟩
  unfold Dtarr.stamp
  rw [List.length_append, List.length_append, hdate, htime]
  rfl

theorem Dtarr.Valid.stamp_inj {ref' : Dtarr} (h : ref.Valid) (hy : ref.year ≤ 9999) (h' : ref'.Valid)
    (hy' : ref'.year ≤ 9999) (heq : ref.stamp = ref'.stamp) : ref = ref' := by
  obtain ⟨hd, -, ht, -⟩ := h.numbers hy
  obtain ⟨hd', -, ht', -⟩ := h'.numbers hy'
  have hlen := (h.length_stamp hy).1.trans (h'.length_stamp hy').1.symm
  unfold Dtarr.stamp at heq
  rw [List.append_assoc, List.append_assoc] at heq
  obtain ⟨hdates, htail⟩ := List.append_inj heq hlen
  have hdate := fmt0_inj 8 (Int.le_of_lt hd) (Int.le_of_lt hd') hdates
  have htime := fmt0_inj 4 ht ht' (List.append_cancel_left htail)
  obtain ⟨⟨hy0, hm, hday⟩, hh, hmin⟩ := h
  obtain ⟨⟨hy0', hm', hday'⟩, hh', hmin'⟩ := h'
  have hmax := daym_bounds ref.year ref.month
  have hmax' := daym_bounds ref'.year ref'.month
  exact Dtarr.ext (by omega) (by omega) (by omega) (by omega) (by omega)

/-- A forecast from minute -59999 to minute 179999 has a number that is written with a letter of
its own. -/
theorem ftime_bounds (h : -60000 < x ∧ x < 180000) :
    0 < 100000 + x.tdiv 60 * 100 + x.tmod 60 ∧ 100000 + x.tdiv 60 * 100 + x.tmod 60 < 400000 := by
  obtain ⟨hsum, hrem⟩ := tdiv_tmod_60 x
  omega

theorem ftime_inj (h : 100000 + x.tdiv 60 * 100 + x.tmod 60 = 100000 + y.tdiv 60 * 100 + y.tmod 60) : x = y := by
  obtain ⟨hsum, hrem⟩ := tdiv_tmod_60 x
  obtain ⟨hsum', hrem'⟩ := tdiv_tmod_60 y
  omega

theorem tg_itoc_text {f : Int} (h : ref.Valid) (hy : ref.year ≤ 9999) (hf : 0 < f) :
    tg_itoc (ref.year * 10000 + ref.month * 100 + ref.day) (ref.hour * 100 + ref.minute) f 20 =
      some (0, ref.stamp ++ fstr f) := by
  have hfstr : (fstr f).length ≤ 6 := by
    rw [fstr_length hf]
    split_ifs <;> decide
  have hlen : (ref.stamp ++ fstr f).length ≤ 20 := by
    rw [List.length_append, (h.length_stamp hy).2]
    omega
  unfold tg_itoc
  rw [if_neg (by omega)]
  unfold Dtarr.stamp at hlen ⊢
  simp only [if_pos hf, if_pos hlen, List.take_of_length_le hlen]

theorem Timed.gb2_ftim (h : Timed idsect p) (hx : validAt idsect p - (refTime idsect).minutes = x) :
    gb2_ftim idsect p = some ⟨(refTime idsect).stamp ++ fstr (100000 + x.tdiv 60 * 100 + x.tmod 60),
      if castInt p.ipdtnum ≤ 7 then -9999
      else (validAt idsect p - ((refTime idsect).minutes + max (leadTime p) 0)).tdiv 60, 0⟩ := by
  have hforecast := h.forecast
  have hahead := h.ahead
  rw [hx] at hforecast hahead
  obtain ⟨hsum, hrem⟩ := tdiv_tmod_60 x
  obtain ⟨hd, hd', -, -⟩ := h.ref.numbers h.year.2
  unfold Noaaport.gb2_ftim
  rw [hforecast]
  simp only [Option.bind_eq_bind, Option.bind_some]
  rw [checked_some (by omega) (by omega), Option.bind_some, checked_some (by omega) (by omega), Option.bind_some,
    Int.one_mul, tg_itoc_text h.ref h.year.2 (ftime_bounds hahead).1, Option.bind_some]

/-- The text and the accumulation of a forecast: the period begins where the forecast time of the
template is added to the reference time, and not before that. -/
theorem gb2_ftim_accumulates (h : Timed idsect p) (h8 : 8 ≤ castInt p.ipdtnum) :
    (gb2_ftim idsect p).map (fun f => f.iaccm) =
      some (((endTime p).minutes - ((refTime idsect).minutes + max (leadTime p) 0)).tdiv 60) := by
  have hvalid : validAt idsect p = (endTime p).minutes := if_neg (by omega)
  rw [h.gb2_ftim rfl, Option.map_some, if_neg (by omega), hvalid]

/-- The rain of the six hours up to midnight, of a run at noon. -/
def someIdsect : List Int := [7, 0, 2, 1, 1, 2026, 5, 6, 12, 0, 0, 0, 1]

def someRain : G2.Product :=
  ⟨8, [1, 8, 2, 0, 96, 0, 0, 1, 6, 1, 0, 0, 255, 0, 0, 2026, 5, 7, 0, 0, 0, 1, 0, 1, 2, 1, 6, 255, 0], []⟩

/-- The temperature at that midnight. -/
def someTemperature : G2.Product := ⟨0, [0, 0, 2, 0, 96, 0, 0, 1, 12, 103, 0, 2, 255, 0, 0], []⟩

theorem someRef_valid : (refTime someIdsect).Valid :=
  ⟨⟨by decide, by decide, by decide⟩, by decide, by decide⟩

theorem someRain_ends : (endTime someRain).Valid :=
  ⟨⟨by decide, by decide, by decide⟩, by decide, by decide⟩

theorem someRain_timed : Timed someIdsect someRain := by
  have hdiff := ti_mdif_minutes someRain_ends someRef_valid
    (show ti_mdif (endTime someRain) (refTime someIdsect) = some (720, 0) by decide)
  have hahead : validAt someIdsect someRain - (refTime someIdsect).minutes = 720 :=
    (congrArg Prod.fst hdiff).symm
  exact ⟨by decide, someRef_valid, by decide, by decide, fun _ => someRain_ends, by rw [hahead]; decide⟩

theorem someTemperature_timed : Timed someIdsect someTemperature := by
  have hahead : validAt someIdsect someTemperature - (refTime someIdsect).minutes = 720 :=
    add_sub_cancel_left _ _
  exact ⟨by decide, someRef_valid, by decide, by decide, fun h => absurd h (by decide), by rw [hahead]; decide⟩

theorem gb2_ftim_accumulates_rain : (gb2_ftim someIdsect someRain).map (fun f => f.iaccm) = some 6 ∧
    ((endTime someRain).minutes - ((refTime someIdsect).minutes + max (leadTime someRain) 0)).tdiv 60 = 6 := by
  have hsix : (gb2_ftim someIdsect someRain).map (fun f => f.iaccm) = some 6 := by decide +kernel
  have haccum := gb2_ftim_accumulates someRain_timed (by decide)
  rw [hsix] at haccum
  exact ⟨hsix, (Option.some.inj haccum).symm⟩

/-- Two fields have one date/time text exactly where they have one reference time and are for one
minute. -/
theorem gb2_ftim_text_iff (h : Timed idsect p) (h' : Timed idsect' p') :
    ∃ f f', gb2_ftim idsect p = some f ∧ gb2_ftim idsect' p' = some f' ∧
      (f.gdattm = f'.gdattm ↔ refTime idsect = refTime idsect' ∧ validAt idsect p = validAt idsect' p') := by
  refine ⟨_, _, h.gb2_ftim rfl, h'.gb2_ftim rfl, ?_⟩
  constructor
  · intro htext
    have hlen := (h.ref.length_stamp h.year.2).2.trans (h'.ref.length_stamp h'.year.2).2.symm
    obtain ⟨hstamp, hfstr⟩ := List.append_inj htext hlen
    have href := h.ref.stamp_inj h.year.2 h'.ref h'.year.2 hstamp
    have hahead := ftime_inj (fstr_inj (ftime_bounds h.ahead) (ftime_bounds h'.ahead) hfstr)
    rw [href] at hahead
    exact ⟨href, by omega⟩
  · rintro ⟨href, hvalid⟩
    rw [href, hvalid]

theorem gb2_ftim_text_iff_midnight :
    (gb2_ftim someIdsect someRain).map (fun f => f.gdattm) = some (ascii "20260506/1200F012") ∧
    (gb2_ftim someIdsect someTemperature).map (fun f => f.gdattm) = some (ascii "20260506/1200F012") ∧
    validAt someIdsect someRain = validAt someIdsect someTemperature := by
  have hrain : (gb2_ftim someIdsect someRain).map (fun f => f.gdattm) = some (ascii "20260506/1200F012") := by
    decide +kernel
  have htemperature : (gb2_ftim someIdsect someTemperature).map (fun f => f.gdattm) =
      some (ascii "20260506/1200F012") := by decide +kernel
  refine ⟨hrain, htemperature, ?_⟩
  obtain ⟨f, f', hf, hf', htext⟩ := gb2_ftim_text_iff someRain_timed someTemperature_timed
  rw [hf, Option.map_some] at hrain
  rw [hf', Option.map_some] at htemperature
  exact (htext.1 (Option.some.inj (hrain.trans htemperature.symm))).2

end Fields
end Noaaport
