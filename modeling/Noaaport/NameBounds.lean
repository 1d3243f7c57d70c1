import Noaaport.Gribid
import Noaaport.RedbookBounds

/-! How long the name that `readpdb` formats becomes. -/
namespace Noaaport
open Lib

/-- The characters from 32 on of the line that is scanned, of 512 at most. -/
def scanned (buf : Buffer) (a : Nat) : Text := ((load buf a 512).takeWhile (· ≠ 10)).filter (32 ≤ ·)

/-- The PDB that the name is made of: of the block, of what it inflates to, or blank. -/
def namedPdb (lib : Library) (buf : Buffer) (a : Nat) (pdb : Pdb) (uncompr : Mem UInt8)
    (zflag : Bool) : Pdb :=
  let wmocnt := ((load buf a 512).takeWhile (· ≠ 10)).length
  let w := a + wmocnt + 1
  if zflag then
    match npunz lib buf w uncompr with
    | (none, _) =>
      { pdb with
        platform := 0, channel := 0, year := 0, month := 0, day := 0, hour := 0, minute := 0
        sector := 0, res := 0, len := -1 }
    | (some ioff, uncompr) => { pdbFields uncompr ioff pdb with len := 512 + wmocnt }
  else { pdbFields buf w pdb with len := 512 + wmocnt }

section Width
variable {pdb : Pdb} {order : List PdbArg} {m : IdBuf → Text} {i j : PdbArg} {pre pname : Text}
  {ptype : Nat}

/-- The number of a code that is not in its table. -/
def numberWidth (pdb : Pdb) (i : PdbArg) : Nat :=
  if switch i.cases (i.code pdb) = none then (decimal (i.code pdb)).length else 0

/-- The numbers share one buffer, and the longest of them may be in it. -/
def untabulatedWidth (pdb : Pdb) : Nat :=
  max (numberWidth pdb .platform) (max (numberWidth pdb .channel) (numberWidth pdb .sector))

def labelWidth (pdb : Pdb) (i : PdbArg) : Nat :=
  match switch i.cases (i.code pdb) with
  | some t => t.length
  | none => untabulatedWidth pdb

def dateWidth (pdb : Pdb) : Nat :=
  (fmt0 4 pdb.year).length + (fmt0 2 pdb.month).length + (fmt0 2 pdb.day).length + 1 +
    (fmt0 2 pdb.hour).length + (fmt0 2 pdb.minute).length

/-- The name with labels of these widths. -/
def nameWidth (pre : Text) (ptype : Nat) (pdb : Pdb) (pname : Text) (width : PdbArg → Nat) : Nat :=
  pre.length + (decimal ptype).length + width .platform + width .channel + dateWidth pdb +
    width .sector + (decimal pdb.res).length + pname.length + 12

theorem length_nameText (pre : Text) (ptype : Nat) (pdb : Pdb) (pname : Text)
    (text : PdbArg → Text) : (nameText pre ptype pdb pname text).length =
      nameWidth pre ptype pdb pname fun i => (text i).length := by
  have hch : (ascii "ch").length = 2 := rfl
  have hkm : (ascii "km").length = 2 := rfl
  simp only [nameText, slashed, nameWidth, dateWidth, List.length_append, List.length_cons,
    List.length_nil, hch, hkm]
  omega

theorem nameWidth_mono {width width' : PdbArg → Nat} (h : ∀ i, width i ≤ width' i) :
    nameWidth pre ptype pdb pname width ≤ nameWidth pre ptype pdb pname width' := by
  have hp := h .platform
  have hc := h .channel
  have hs := h .sector
  unfold nameWidth
  omega

theorem numberWidth_le (pdb : Pdb) (i : PdbArg) : numberWidth pdb i ≤ untabulatedWidth pdb := by
  unfold untabulatedWidth
  cases i <;> omega

theorem exists_numberWidth (pdb : Pdb) : ∃ i, numberWidth pdb i = untabulatedWidth pdb := by
  have h : untabulatedWidth pdb = numberWidth pdb .platform ∨
      untabulatedWidth pdb = numberWidth pdb .channel ∨
      untabulatedWidth pdb = numberWidth pdb .sector := by
    unfold untabulatedWidth
    omega
  obtain h | h | h := h
  · exact ⟨_, h.symm⟩
  · exact ⟨_, h.symm⟩
  · exact ⟨_, h.symm⟩

theorem numberWidth_pos (h : switch i.cases (i.code pdb) = none) : 0 < numberWidth pdb i := by
  rw [numberWidth, if_pos h, decimal, List.length_map]
  exact Nat.length_toDigits_pos

/-- What is read of a label, in whatever order the functions were called. -/
theorem length_read_le (m : IdBuf → Text) (hi : i ∈ order) :
    ((pdbCall pdb i).read (StaticResult.evaluate (pdbCall pdb) order m)).length ≤
      labelWidth pdb i := by
  unfold labelWidth
  cases h : switch i.cases (i.code pdb) with
  | some t =>
    rw [pdbCall_eq, label, h]
    exact Nat.le_refl _
  | none =>
    have hcall : pdbCall pdb i = .buffered .byte (decimal (i.code pdb)) := by
      rw [pdbCall_eq, label_none h]
    rw [hcall]
    change (StaticResult.evaluate (pdbCall pdb) order m .byte).length ≤ untabulatedWidth pdb
    obtain ⟨-, hnone⟩ | ⟨j, -, hj⟩ := StaticResult.evaluate_mem (pdbCall pdb) order m .byte
    · exact absurd hcall (hnone i hi _)
    · rw [pdbCall_eq] at hj
      obtain ⟨-, hun, htext⟩ := label_buffered hj
      rw [htext]
      have hle := numberWidth_le pdb j
      rwa [numberWidth, if_pos hun] at hle

/-- The order that calls the function with the longest number last. -/
theorem exists_order (pdb : Pdb) (m : IdBuf → Text) : ∃ order, order.Perm PdbArg.all ∧
    ∀ i, ((pdbCall pdb i).read (StaticResult.evaluate (pdbCall pdb) order m)).length =
      labelWidth pdb i := by
  obtain ⟨j, hj⟩ := exists_numberWidth pdb
  obtain ⟨front, rest, hall⟩ := List.append_of_mem j.mem_all
  refine ⟨front ++ rest ++ [j], ?_, fun i => ?_⟩
  · rw [hall]
    exact (List.perm_append_singleton j (front ++ rest)).trans List.perm_middle.symm
  · unfold labelWidth
    cases h : switch i.cases (i.code pdb) with
    | some t =>
      rw [pdbCall_eq, label, h]
      rfl
    | none =>
      have hun : switch j.cases (j.code pdb) = none := by
        by_contra htab
        have hpos := numberWidth_pos h
        have hle := numberWidth_le pdb i
        have hzero : numberWidth pdb j = 0 := if_neg htab
        omega
      have hcall : pdbCall pdb j = .buffered .byte (decimal (j.code pdb)) := by
        rw [pdbCall_eq, label_none hun]
      rw [pdbCall_eq pdb i, label_none h]
      change (StaticResult.evaluate (pdbCall pdb) (front ++ rest ++ [j]) m .byte).length =
        untabulatedWidth pdb
      rw [StaticResult.read_last (pdbCall pdb) _ m hcall, ← hj, numberWidth, if_pos hun]

/-- The longest of the names that an order of evaluation can yield. -/
theorem satName_le_iff {n : Nat} :
    (∀ order, order.Perm PdbArg.all → ∀ m, (satName order m pre ptype pdb pname).length ≤ n) ↔
      nameWidth pre ptype pdb pname (labelWidth pdb) ≤ n := by
  constructor
  · intro h
    obtain ⟨order, hperm, hread⟩ := exists_order pdb fun _ => []
    have hname := h order hperm fun _ => []
    rwa [satName, length_nameText, funext hread] at hname
  · intro h order hperm m
    rw [satName, length_nameText]
    exact Nat.le_trans (nameWidth_mono fun i => length_read_le m (hperm.mem_iff.2 i.mem_all)) h

end Width

section Name
variable {lib : Library} {buf : Buffer} {a : Nat} {psh : Psh} {pdb : Pdb} {uncompr : Mem UInt8}
  {zflag : Bool}

theorem readpdb_pname (f : Text → Nat → Pdb → Text → Text) :
    (readpdb (lib.naming f) buf a psh pdb uncompr zflag).psh.pname =
      f (ascii (if zflag then "satz" else "sat")) psh.ptype
        (namedPdb lib buf a pdb uncompr zflag) (scanned buf a) := by
  have hunz : ∀ w, npunz (lib.naming f) buf w uncompr = npunz lib buf w uncompr := fun w => rfl
  unfold readpdb namedPdb
  cases zflag with
  | false => rfl
  | true =>
    simp only [hunz, if_true]
    generalize npunz lib buf _ uncompr = r
    obtain ⟨_ | ioff, u⟩ := r
    · rfl
    · rfl

/-- `ldmname` has 256 bytes and `psh.pname` 1024, in every order the labels are evaluated in. -/
def NameFits (lib : Library) (buf : Buffer) (a : Nat) (psh : Psh) (pdb : Pdb)
    (uncompr : Mem UInt8) (zflag : Bool) : Prop :=
  (scanned buf a).length < 1024 ∧
    ∀ order, order.Perm PdbArg.all → ∀ m,
      (readpdb (lib.naming (satName order m)) buf a psh pdb uncompr zflag).psh.pname.length ≤ 255

theorem length_scanned_le (buf : Buffer) (a : Nat) : (scanned buf a).length ≤ 512 := by
  unfold scanned
  exact Nat.le_trans (List.length_filter_le _ _) (length_takeWhile_load _ a 512)

/-- The name fits exactly where the text that is scanned leaves room for the labels at their
longest, the numbers and the date. -/
theorem name_fits_iff (lib : Library) (buf : Buffer) (a : Nat) (psh : Psh) (pdb : Pdb)
    (uncompr : Mem UInt8) (zflag : Bool) :
    NameFits lib buf a psh pdb uncompr zflag ↔
      nameWidth (ascii (if zflag then "satz" else "sat")) psh.ptype
        (namedPdb lib buf a pdb uncompr zflag) (scanned buf a)
        (labelWidth (namedPdb lib buf a pdb uncompr zflag)) ≤ 255 := by
  have hscanned := length_scanned_le buf a
  rw [← satName_le_iff]
  unfold NameFits
  simp only [readpdb_pname]
  exact ⟨fun h => h.2, fun h => ⟨by omega, h⟩⟩

/-- Fields as they come from the bytes of a PDB, or blank. -/
structure Pdb.Decoded (pdb : Pdb) : Prop where
  codes : pdb.platform < 256 ∧ pdb.channel < 256 ∧ pdb.sector < 256
  year : pdb.year < 10000
  date : pdb.month < 256 ∧ pdb.day < 256 ∧ pdb.hour < 256 ∧ pdb.minute < 256
  res : pdb.res < 256

theorem pdbFields_decoded (wbuf : Mem UInt8) (w : Nat) (pdb : Pdb) (len : Int) :
    Pdb.Decoded { pdbFields wbuf w pdb with len } := by
  have hbyte := fun i => (wbuf (w + i)).toNat_lt
  refine ⟨⟨hbyte 1, hbyte 3, hbyte 2⟩, ?_, ⟨hbyte 9, hbyte 10, hbyte 11, hbyte 12⟩, hbyte 41⟩
  have h8 := hbyte 8
  change (if (wbuf (w + 8)).toNat > 70 then (wbuf (w + 8)).toNat + 1900
    else (wbuf (w + 8)).toNat + 2000) < 10000
  split_ifs <;> omega

theorem namedPdb_decoded : (namedPdb lib buf a pdb uncompr zflag).Decoded := by
  unfold namedPdb
  cases zflag with
  | false => exact pdbFields_decoded ..
  | true =>
    simp only [if_true]
    generalize npunz lib buf _ uncompr = r
    obtain ⟨_ | ioff, u⟩ := r
    · exact ⟨⟨by simp, by simp, by simp⟩, by simp, ⟨by simp, by simp, by simp, by simp⟩, by simp⟩
    · exact pdbFields_decoded ..

/-- The longest label of a table. -/
def PdbArg.widest : PdbArg → Nat
  | .platform => 8
  | .channel => 11
  | .sector => 14

theorem PdbArg.cases_widest (i : PdbArg) :
    3 ≤ i.widest ∧ ∀ e ∈ i.cases, (ascii e.2).length ≤ i.widest := by
  cases i <;> decide +kernel

theorem length_fmt0_byte {n : Nat} (h : n < 256) : (fmt0 2 n).length ≤ 3 := by
  have hdigits := length_decimal_byte h
  have hpos : ¬ (n : Int) < 0 := by omega
  rw [length_fmt0, if_neg hpos, Int.natAbs_natCast]
  omega

theorem labelWidth_le (h : pdb.Decoded) (i : PdbArg) : labelWidth pdb i ≤ i.widest := by
  obtain ⟨hmin, htable⟩ := i.cases_widest
  obtain ⟨hp, hc, hs⟩ := h.codes
  have hcode : ∀ j : PdbArg, numberWidth pdb j ≤ 3 := by
    intro j
    have hlt : j.code pdb < 256 := by
      cases j <;> assumption
    unfold numberWidth
    split_ifs
    · exact length_decimal_byte hlt
    · exact Nat.zero_le 3
  unfold labelWidth
  cases hswitch : switch i.cases (i.code pdb) with
  | some t =>
    obtain ⟨e, he, rfl⟩ := mem_of_switch hswitch
    exact htable e he
  | none =>
    obtain ⟨j, hj⟩ := exists_numberWidth pdb
    have := hcode j
    change untabulatedWidth pdb ≤ _
    omega

/-- Up to 183 characters of text always fit. -/
theorem short_line_fits (hptype : psh.ptype < 256) (h : (scanned buf a).length ≤ 183) :
    nameWidth (ascii (if zflag then "satz" else "sat")) psh.ptype
      (namedPdb lib buf a pdb uncompr zflag) (scanned buf a)
      (labelWidth (namedPdb lib buf a pdb uncompr zflag)) ≤ 255 := by
  have hdecoded : (namedPdb lib buf a pdb uncompr zflag).Decoded := namedPdb_decoded
  generalize namedPdb lib buf a pdb uncompr zflag = pdb at hdecoded ⊢
  have hpre : (ascii (if zflag then "satz" else "sat")).length ≤ 4 := by
    cases zflag <;> decide
  have htype := length_decimal_byte hptype
  have hres := length_decimal_byte hdecoded.res
  have hyear : (fmt0 4 pdb.year).length ≤ 4 := by
    have := hdecoded.year
    exact length_fmt0_le_iff.2 (by omega)
  obtain ⟨hm, hd, hh, hmin⟩ := hdecoded.date
  have hmonth := length_fmt0_byte hm
  have hday := length_fmt0_byte hd
  have hhour := length_fmt0_byte hh
  have hminute := length_fmt0_byte hmin
  have hplatform : _ ≤ 8 := labelWidth_le hdecoded .platform
  have hchannel : _ ≤ 11 := labelWidth_le hdecoded .channel
  have hsector : _ ≤ 14 := labelWidth_le hdecoded .sector
  unfold nameWidth dateWidth
  omega

/-- A block without a newline. -/
theorem long_line_outgrows : ¬ NameFits .plain (fun _ => 65) 0 default default (fun _ => 0) false := by
  intro h
  have hname := h.2 PdbArg.all (.refl _) fun _ => []
  revert hname
  decide +kernel

end Name
end Noaaport
