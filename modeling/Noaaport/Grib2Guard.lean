import Noaaport.AsciiCheck
import Noaaport.Grib2Info

/-! The guard of `process_prod` before a GRIB2 message is named, and the length that
`grib2name` and `g2_info` are given. -/
namespace Noaaport
open Lib

/-- The test in front of the indicator; `heapsize - 16` is a `size_t`. -/
def grib2Guard (heapsize : Nat) (psh : Psh) : Bool :=
  psh.metadata = ascii " !grib2/" ∧ psh.metaoff > 0 ∧ psh.metaoff.toNat < sub64 heapsize 16

/-- `lengrib`: an `int` of the indicator's last four bytes, widened to a `size_t`. -/
def lengrib (mem : Mem UInt8) (metaoff : Nat) : Nat := (be32 mem (metaoff + 12) % 2 ^ 64).toNat

/-- The message as `grib2name` and `g2_info` see it. -/
def message (mem : Mem UInt8) (metaoff : Nat) : G2.Cgrib := fun i => mem (metaoff + i)

/-- The same bytes as `g2_info` unpacks them. -/
def declared (mem : Mem UInt8) (metaoff : Nat) : Nat := G2.lensec (message mem metaoff) 12

/-- `Gribmsg.mlength` and the `sz` of `g2_info`: the size as an `int`. -/
def mlength (sz : Nat) : Int := intOfSize sz

/-- The indicator that is inspected and the lengths handed on, to `grib2name` and by it to
`g2_info`, are of the product; so `g2_info` turns away a message that declares more. -/
structure Grib2Inside (mem : Mem UInt8) (heapsize : Nat) (psh : Psh) : Prop where
  indicator : grib2Guard heapsize psh = true → ∀ i, i < 16 → psh.metaoff.toNat + i < heapsize
  length : isGrib2 mem heapsize psh = true →
    lengrib mem psh.metaoff.toNat ≤ heapsize - psh.metaoff.toNat
  checked : isGrib2 mem heapsize psh = true →
    mlength (lengrib mem psh.metaoff.toNat) ≤ (heapsize - psh.metaoff.toNat : Nat)
  refused : isGrib2 mem heapsize psh = true →
    heapsize - psh.metaoff.toNat + 1 < declared mem psh.metaoff.toNat →
    ∀ fuel, ∃ r, G2.g2_info fuel (message mem psh.metaoff.toNat)
      (mlength (lengrib mem psh.metaoff.toNat)) = some r ∧ r.ierr = 7

/-- What has to be true of a GRIB2 product with a message at `metaoff`. -/
structure Grib2Whole (mem : Mem UInt8) (heapsize : Nat) (psh : Psh) : Prop where
  room : 16 ≤ heapsize
  length : psh.metaoff.toNat + 16 < heapsize → load mem psh.metaoff.toNat 4 = ascii "GRIB" →
    (if declared mem psh.metaoff.toNat < 2 ^ 31 then declared mem psh.metaoff.toNat
      else declared mem psh.metaoff.toNat + (2 ^ 64 - 2 ^ 32)) ≤ heapsize - psh.metaoff.toNat

section Guard
variable {mem : Mem UInt8} {heapsize metaoff : Nat} {psh : Psh}

theorem isGrib2_iff : isGrib2 mem heapsize psh = true ↔
    grib2Guard heapsize psh = true ∧ load mem psh.metaoff.toNat 4 = ascii "GRIB" := by
  simp only [isGrib2, grib2Guard, decide_eq_true_eq, and_assoc]

theorem grib2Guard_iff : grib2Guard heapsize psh = true ↔
    psh.metadata = ascii " !grib2/" ∧ 0 < psh.metaoff ∧ psh.metaoff.toNat < sub64 heapsize 16 := by
  simp only [grib2Guard, decide_eq_true_eq, gt_iff_lt]

theorem declared_eq (mem : Mem UInt8) (metaoff : Nat) : declared mem metaoff =
    be16 mem (metaoff + 12) * 65536 + be16 mem (metaoff + 14) := by
  rw [declared, G2.lensec_bytes]
  simp only [message, be16, ← Nat.add_assoc, show metaoff + 14 = metaoff + 12 + 2 from rfl,
    show metaoff + 12 + 3 = metaoff + 12 + 2 + 1 from rfl]
  omega

theorem declared_lt (mem : Mem UInt8) (metaoff : Nat) : declared mem metaoff < 2 ^ 32 := by
  have h0 := (mem (metaoff + 12)).toNat_lt
  have h1 := (mem (metaoff + 12 + 1)).toNat_lt
  have h2 := (mem (metaoff + 14)).toNat_lt
  have h3 := (mem (metaoff + 14 + 1)).toNat_lt
  rw [declared_eq]
  unfold be16
  omega

/-- A length from 2^31 on comes out of the `int` as a huge one. -/
theorem lengrib_eq : lengrib mem metaoff =
    if declared mem metaoff < 2 ^ 31 then declared mem metaoff
    else declared mem metaoff + (2 ^ 64 - 2 ^ 32) := by
  have hlt := declared_lt mem metaoff
  have hbe : be32 mem (metaoff + 12) =
      if declared mem metaoff < 2 ^ 31 then (declared mem metaoff : Int)
      else (declared mem metaoff : Int) - 2 ^ 32 := by
    rw [declared_eq]
    rfl
  rw [lengrib, hbe]
  split_ifs
  · omega
  · omega

/-- `heapsize - 16` is what it says from 16 bytes on; below, it is larger than any offset. -/
theorem lt_sub64 (h : metaoff < 2 ^ 31) (hsize : heapsize < 2 ^ 64) :
    metaoff < sub64 heapsize 16 ↔ heapsize < 16 ∨ metaoff + 16 < heapsize := by
  by_cases h16 : 16 ≤ heapsize
  · rw [sub64_of_le h16 hsize]
    omega
  · unfold sub64
    omega

/-- And as a negative one where `g2_info` is called. -/
theorem mlength_lengrib : mlength (lengrib mem metaoff) =
    if declared mem metaoff < 2 ^ 31 then (declared mem metaoff : Int)
    else (declared mem metaoff : Int) - 2 ^ 32 := by
  have hlt := declared_lt mem metaoff
  rw [lengrib_eq, mlength, intOfSize]
  split_ifs <;> omega

theorem istart_message (h : load mem metaoff 4 = ascii "GRIB") :
    G2.istart (message mem metaoff) = some 0 := by
  have hcell : ∀ i (hi : i < 4), mem (metaoff + i) = (ascii "GRIB").getD i 0 := by
    intro i hi
    rw [← h, List.getD_eq_getElem _ _ (by simpa using hi), getElem_load]
  have hgrib : G2.isGrib (message mem metaoff) 0 = true :=
    decide_eq_true ⟨hcell 0 (by decide), hcell 1 (by decide), hcell 2 (by decide), hcell 3 (by decide)⟩
  rw [G2.istart, show List.range 100 = 0 :: (List.range 99).map Nat.succ from List.range_succ_eq_map,
    List.find?_cons_of_pos hgrib]

/-- `g2_info` compares the message's length with itself: it turns away those from 2^31 on only. -/
theorem g2_info_lengrib (h : load mem metaoff 4 = ascii "GRIB") (hlong : 2 ^ 31 ≤ declared mem metaoff)
    (fuel : Nat) :
    ∃ r, G2.g2_info fuel (message mem metaoff) (mlength (lengrib mem metaoff)) = some r ∧ r.ierr = 7 := by
  have hlengrib : (G2.gbit (message mem metaoff) (8 * (0 + 12)) 32).toNat = declared mem metaoff := rfl
  have hpast : ((0 : Nat) + declared mem metaoff : Int) > mlength (lengrib mem metaoff) + 1 := by
    rw [mlength_lengrib, if_neg (Nat.not_lt.2 hlong)]
    omega
  unfold G2.g2_info
  rw [istart_message h]
  simp only [hlengrib]
  rw [if_pos hpast]
  exact ⟨_, rfl, rfl⟩

end Guard

/-- The guard and the length are right exactly where the product has 16 bytes and declares no
more than it has. -/
theorem grib2_inside_iff (mem : Mem UInt8) (heapsize : Nat) (psh : Psh)
    (hsize : heapsize < 2 ^ 64) (hoff : psh.metaoff < 2 ^ 31) :
    Grib2Inside mem heapsize psh ↔
      (psh.metadata = ascii " !grib2/" → 0 < psh.metaoff → Grib2Whole mem heapsize psh) := by
  have hguard := lt_sub64 (show psh.metaoff.toNat < 2 ^ 31 by omega) hsize
  constructor
  · intro h hmeta hpos
    have hroom : 16 ≤ heapsize := by
      by_contra hshort
      have hpass := grib2Guard_iff.2 ⟨hmeta, hpos, hguard.2 (.inl (Nat.lt_of_not_le hshort))⟩
      have := h.indicator hpass 15 (by decide)
      omega
    refine ⟨hroom, fun hin hgrib => ?_⟩
    have hpass := grib2Guard_iff.2 ⟨hmeta, hpos, hguard.2 (.inr hin)⟩
    rw [← lengrib_eq]
    exact h.length (isGrib2_iff.2 ⟨hpass, hgrib⟩)
  · intro h
    have hlength : isGrib2 mem heapsize psh = true →
        lengrib mem psh.metaoff.toNat ≤ heapsize - psh.metaoff.toNat := by
      intro hgrib2
      obtain ⟨hpass, hgrib⟩ := isGrib2_iff.1 hgrib2
      obtain ⟨hmeta, hpos, hlt⟩ := grib2Guard_iff.1 hpass
      have hroom := (h hmeta hpos).room
      have hin := hguard.1 hlt
      rw [lengrib_eq]
      exact (h hmeta hpos).length (by omega) hgrib
    refine ⟨?_, hlength, ?_, ?_⟩
    · intro hpass i hi
      obtain ⟨hmeta, hpos, hlt⟩ := grib2Guard_iff.1 hpass
      have hroom := (h hmeta hpos).room
      have := hguard.1 hlt
      omega
    · intro hgrib2
      have hle := hlength hgrib2
      have hdeclared := declared_lt mem psh.metaoff.toNat
      rw [lengrib_eq] at hle
      rw [mlength_lengrib]
      split_ifs at hle ⊢ <;> omega
    · intro hgrib2 hpast
      have hle := hlength hgrib2
      refine g2_info_lengrib (isGrib2_iff.1 hgrib2).2 ?_
      by_contra hshort
      rw [lengrib_eq, if_pos (by omega)] at hle
      omega

/-- A product with a GRIB2 message at 1 that declares so many bytes. -/
def gribMem (len : UInt8) : Mem UInt8 := fun i =>
  ([10] ++ ascii "GRIB" ++ [0, 0, 0, 2, 0, 0, 0, 0, 0, 0, 0, len]).getD i 0

def gribPsh : Psh := { (default : Psh) with metadata := ascii " !grib2/", metaoff := 1 }

theorem grib2_inside_iff_run :
    isGrib2 (gribMem 19) 20 gribPsh = true ∧ Grib2Inside (gribMem 19) 20 gribPsh := by
  refine ⟨by decide +kernel, (grib2_inside_iff _ _ _ (by decide) (by decide)).2 fun _ _ => ⟨by decide, ?_⟩⟩
  intro _ _
  decide +kernel

theorem grib2_guard_passes_short :
    grib2Guard 10 gribPsh = true ∧ ¬ (∀ i, i < 16 → gribPsh.metaoff.toNat + i < 10) ∧
      isGrib2 (gribMem 255) 20 gribPsh = true ∧ lengrib (gribMem 255) gribPsh.metaoff.toNat = 255 ∧
      mlength (lengrib (gribMem 255) gribPsh.metaoff.toNat) = 255 := by
  decide +kernel

end Noaaport
