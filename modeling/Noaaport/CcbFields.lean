import Noaaport.Gribid

/-! What `readccb` keeps of a CCB: its length, mode, submode and users, and the text in the
metadata that tells products of category 2 apart. -/
namespace Noaaport
open Lib

/-- A product of category 2 outside mode 2 and submode 0, with a CCB that fits. -/
structure CcbGraphic (buf : Buffer) (a blen : Nat) (psh : Psh) : Prop where
  fits : 2 * (be16 buf a % 2 ^ 14) ≤ blen
  mode : ¬ (buf (a + 10) = 2 ∧ buf (a + 11) = 0)
  pcat : psh.pcat = 2

/-- The fields of the CCB in what `readccb` leaves. -/
structure CcbKept (buf : Buffer) (a blen : Nat) (psh : Psh) (r : Bool × Ccb × Psh) : Prop where
  fits : 2 * (be16 buf a % 2 ^ 14) ≤ blen →
    r.1 = true ∧ r.2.1.len = 2 * (be16 buf a % 2 ^ 14) ∧
      r.2.2.ccbmode = (buf (a + 10)).toNat ∧ r.2.2.ccbsubmode = (buf (a + 11)).toNat ∧
      r.2.1.user1 = (buf (a + 12)).toNat ∧ r.2.1.user2 = (buf (a + 13)).toNat
  long : blen < 2 * (be16 buf a % 2 ^ 14) → r.1 = false ∧ r.2.1.len = 0 ∧ r.2.2.pname ≠ []
  text : CcbGraphic buf a blen psh → ∃ kind ∈ ["redbook ", "graph "], ∃ rest,
    r.2.2.metadata = ascii " !" ++ (ascii kind ++ (decimal r.2.1.user1 ++ ascii "_" ++
      (decimal r.2.1.user2 ++ ascii "/")) ++ rest)

/-- The data behind the CCB has a redbook title. -/
def Titled (lib : Library) (buf : Buffer) (a blen : Nat) : Prop :=
  lib.redbookHeader buf (a + ccbLen buf a) (blen - ccbLen buf a) ≠ []

section Kept
variable {lib : Library} {buf : Buffer} {a blen : Nat} {ccb : Ccb} {psh : Psh}

theorem ccbLen_eq (buf : Buffer) (a : Nat) : ccbLen buf a = 2 * (be16 buf a % 2 ^ 14) := by
  have h0 := (buf a).toNat_lt
  have h1 := (buf (a + 1)).toNat_lt
  unfold ccbLen be16
  omega

theorem namedPsh_fields (lib : Library) (buf : Buffer) (a blen : Nat) (psh : Psh) :
    (namedPsh lib buf a blen psh).ccbmode = (buf (a + 10)).toNat ∧
      (namedPsh lib buf a blen psh).ccbsubmode = (buf (a + 11)).toNat ∧
      (namedPsh lib buf a blen psh).pcat = psh.pcat := by
  unfold namedPsh wmoName
  split_ifs <;> exact ⟨rfl, rfl, rfl⟩

theorem ccbPsh_modes (lib : Library) (buf : Buffer) (a blen : Nat) (psh : Psh) :
    (ccbPsh lib buf a blen psh).ccbmode = (buf (a + 10)).toNat ∧
      (ccbPsh lib buf a blen psh).ccbsubmode = (buf (a + 11)).toNat := by
  obtain ⟨hmode, hsubmode, -⟩ := namedPsh_fields lib buf a blen psh
  rw [ccbPsh_eq]
  unfold createMetadata dataType
  split_ifs <;> exact ⟨hmode, hsubmode⟩

theorem defaultName_ne_nil (buf : Buffer) (a : Nat) (pname : Text) :
    defaultName buf a pname ≠ [] := by
  unfold defaultName
  split_ifs with h
  · decide
  · exact List.append_ne_nil_of_right_ne_nil _ h

end Kept

section Told
variable {lib : Library} {buf buf' : Buffer} {a a' blen blen' m n : Nat} {ccb ccb' : Ccb}
  {psh psh' : Psh} {x y : Text}

/-- `"%d_%d/"` of one number twice. -/
theorem users_inj (h : decimal m ++ ascii "_" ++ x = decimal n ++ ascii "_" ++ y) : m = n := by
  have hdigits : ∀ k (z : Text), (decimal k ++ ascii "_" ++ z).takeWhile (· ≠ 95) = decimal k := by
    intro k z
    rw [List.append_assoc, List.takeWhile_append_of_pos]
    · exact List.append_nil _
    · intro b hb
      have := (decimal_digits hb).2
      refine decide_eq_true fun h95 => ?_
      rw [h95] at this
      exact absurd this (by decide)
  have htake := congrArg (List.takeWhile (· ≠ 95)) h
  rw [hdigits, hdigits] at htake
  exact decimal_inj htake

theorem kinds_ne (x y : Text) : ascii "redbook " ++ x ≠ ascii "graph " ++ y := fun h =>
  absurd (congrArg List.head? h) (show ¬ some (114 : UInt8) = some 103 by decide)

/-- The data type of a graphic. -/
theorem readccb_dtype (lib : Library) (ccb : Ccb) (h : CcbGraphic buf a blen psh) [Decidable (Titled lib buf a blen)] :
    (readccb lib buf a ccb psh blen).2.2.ccbdtype =
      ascii (if Titled lib buf a blen then "redbook " else "graph ") ++
        (decimal (buf (a + 12)).toNat ++ ascii "_" ++ (decimal (buf (a + 12)).toNat ++ ascii "/")) := by
  obtain ⟨hmode, hsubmode, hpcat⟩ := namedPsh_fields lib buf a blen psh
  have hnexrad : isNexrad (namedPsh lib buf a blen psh) = false := by
    unfold isNexrad
    rw [hmode, hsubmode]
    refine decide_eq_false fun hboth => h.mode ?_
    rwa [← UInt8.toNat_inj, ← UInt8.toNat_inj]
  have htitle : ccbTitle lib buf a blen psh =
      lib.redbookHeader buf (a + ccbLen buf a) (blen - ccbLen buf a) := by
    rw [ccbTitle_eq]
    exact if_pos ⟨h.mode, h.pcat⟩
  have hfits : ccbLen buf a ≤ blen := by
    rw [ccbLen_eq]
    exact h.fits
  rw [readccb_fits hfits]
  change (ccbPsh lib buf a blen psh).ccbdtype = _
  rw [ccbPsh_eq, htitle]
  change (dataType ..).ccbdtype = _
  unfold dataType
  rw [hnexrad, if_neg Bool.false_ne_true, hpcat, if_pos h.pcat]
  simp only [List.append_assoc]
  congr

/-- Two graphics have one data type exactly where their kind and byte 12 are the same. -/
theorem dtype_eq_iff (h : CcbGraphic buf a blen psh) (h' : CcbGraphic buf' a' blen' psh') :
    (readccb lib buf a ccb psh blen).2.2.ccbdtype = (readccb lib buf' a' ccb' psh' blen').2.2.ccbdtype ↔
      (Titled lib buf a blen ↔ Titled lib buf' a' blen') ∧ buf (a + 12) = buf' (a' + 12) := by
  classical
  rw [readccb_dtype lib ccb h, readccb_dtype lib ccb' h']
  constructor
  · intro heq
    by_cases ht : Titled lib buf a blen
    · by_cases ht' : Titled lib buf' a' blen'
      · rw [if_pos ht, if_pos ht'] at heq
        exact ⟨iff_of_true ht ht', UInt8.toNat_inj.1 (users_inj (List.append_cancel_left heq))⟩
      · rw [if_pos ht, if_neg ht'] at heq
        exact absurd heq (kinds_ne _ _)
    · by_cases ht' : Titled lib buf' a' blen'
      · rw [if_neg ht, if_pos ht'] at heq
        exact absurd heq.symm (kinds_ne _ _)
      · rw [if_neg ht, if_neg ht'] at heq
        exact ⟨iff_of_false ht ht', UInt8.toNat_inj.1 (users_inj (List.append_cancel_left heq))⟩
  · rintro ⟨hkind, hbyte⟩
    rw [hbyte]
    simp only [hkind]

/-- The metadata of a graphic starts with the data type. -/
theorem readccb_metadata (lib : Library) (ccb : Ccb) (h : CcbGraphic buf a blen psh) :
    ∃ rest, (readccb lib buf a ccb psh blen).2.2.metadata =
      ascii " !" ++ ((readccb lib buf a ccb psh blen).2.2.ccbdtype ++ rest) := by
  classical
  have hdtype := readccb_dtype lib ccb h
  have hfits : ccbLen buf a ≤ blen := by
    rw [ccbLen_eq]
    exact h.fits
  rw [readccb_fits hfits] at hdtype ⊢
  change (ccbPsh lib buf a blen psh).ccbdtype = _ at hdtype
  change ∃ rest, (ccbPsh lib buf a blen psh).metadata =
    ascii " !" ++ ((ccbPsh lib buf a blen psh).ccbdtype ++ rest)
  have hne : (ccbPsh lib buf a blen psh).ccbdtype ≠ [] := by
    rw [hdtype, ← List.append_assoc]
    exact List.append_ne_nil_of_right_ne_nil _ (List.append_ne_nil_of_right_ne_nil _ (by decide))
  rw [ccbPsh_metadata]
  dsimp only
  rw [if_neg fun hnil => hne (List.append_eq_nil_iff.1 hnil).1]
  exact ⟨_, rfl⟩

/-- All of the CCB is kept where both users are one byte. -/
theorem ccbKept_iff : CcbKept buf a blen psh (readccb lib buf a ccb psh blen) ↔
    (2 * (be16 buf a % 2 ^ 14) ≤ blen → buf (a + 13) = buf (a + 12)) := by
  classical
  rw [← ccbLen_eq]
  by_cases hfits : ccbLen buf a ≤ blen
  · rw [readccb_fits hfits]
    constructor
    · intro h _
      have huser := (h.fits (by rwa [← ccbLen_eq])).2.2.2.2.2
      exact (UInt8.toNat_inj.1 huser).symm
    · intro h
      obtain ⟨hmode, hsubmode⟩ := ccbPsh_modes lib buf a blen psh
      refine ⟨fun _ => ⟨rfl, ccbLen_eq buf a, hmode, hsubmode, rfl, ?_⟩, fun hlong => ?_, fun hg => ?_⟩
      · exact congrArg UInt8.toNat (h hfits).symm
      · rw [← ccbLen_eq] at hlong
        exact absurd hfits (Nat.not_le_of_gt hlong)
      · obtain ⟨rest, hrest⟩ := readccb_metadata lib ccb hg
        rw [readccb_dtype lib ccb hg, readccb_fits hfits] at hrest
        refine ⟨_, ?_, rest, hrest⟩
        split_ifs <;> decide
  · have hlong := Nat.lt_of_not_le hfits
    rw [readccb_long hlong]
    refine ⟨fun _ h => absurd h hfits, fun _ => ⟨fun h => ?_, fun _ => ?_, fun hg => ?_⟩⟩
    · rw [← ccbLen_eq] at h
      exact absurd h hfits
    · exact ⟨rfl, rfl, defaultName_ne_nil buf a psh.pname⟩
    · have hshort := hg.fits
      rw [← ccbLen_eq] at hshort
      exact absurd hshort hfits

/-- Products of category 2 whose user bytes differ have different texts. -/
def CcbTold (lib : Library) (buf : Buffer) (a blen : Nat) (ccb : Ccb) (psh : Psh)
    (buf' : Buffer) (a' blen' : Nat) (ccb' : Ccb) (psh' : Psh) : Prop :=
  CcbGraphic buf a blen psh → CcbGraphic buf' a' blen' psh' →
    ¬ (buf (a + 12) = buf' (a' + 12) ∧ buf (a + 13) = buf' (a' + 13)) →
      (readccb lib buf a ccb psh blen).2.2.ccbdtype ≠
        (readccb lib buf' a' ccb' psh' blen').2.2.ccbdtype

theorem ccbTold_iff : CcbTold lib buf a blen ccb psh buf' a' blen' ccb' psh' ↔
    ¬ (CcbGraphic buf a blen psh ∧ CcbGraphic buf' a' blen' psh' ∧
      (Titled lib buf a blen ↔ Titled lib buf' a' blen') ∧ buf (a + 12) = buf' (a' + 12) ∧
        buf (a + 13) ≠ buf' (a' + 13)) := by
  constructor
  · rintro h ⟨hg, hg', hkind, h12, h13⟩
    exact h hg hg' (fun hboth => h13 hboth.2) ((dtype_eq_iff hg hg').2 ⟨hkind, h12⟩)
  · intro h hg hg' hdiffer heq
    obtain ⟨hkind, h12⟩ := (dtype_eq_iff hg hg').1 heq
    exact h ⟨hg, hg', hkind, h12, fun h13 => hdiffer ⟨h12, h13⟩⟩

/-- The fields of a CCB that fits are kept exactly where bytes 12 and 13 are the same, and two
graphics are told apart by them except where they differ in byte 13 alone. -/
theorem ccb_fields_iff (lib : Library) (buf : Buffer) (a blen : Nat) (ccb : Ccb) (psh : Psh)
    (buf' : Buffer) (a' blen' : Nat) (ccb' : Ccb) (psh' : Psh) :
    (CcbKept buf a blen psh (readccb lib buf a ccb psh blen) ↔
      (2 * (be16 buf a % 2 ^ 14) ≤ blen → buf (a + 13) = buf (a + 12))) ∧
    (CcbTold lib buf a blen ccb psh buf' a' blen' ccb' psh' ↔
      ¬ (CcbGraphic buf a blen psh ∧ CcbGraphic buf' a' blen' psh' ∧
        (Titled lib buf a blen ↔ Titled lib buf' a' blen') ∧ buf (a + 12) = buf' (a' + 12) ∧
          buf (a + 13) ≠ buf' (a' + 13))) :=
  ⟨ccbKept_iff, ccbTold_iff⟩

/-- A CCB of 7 words, mode 1, with the user bytes 1 and `u`. -/
def ccbOf (u : UInt8) : Buffer := fun i => [64, 7, 0, 0, 0, 0, 0, 0, 0, 0, 1, 0, 1, u].getD i 0

/-- The second user byte is not kept, and graphics that differ in it alone are told as one. -/
theorem second_user_lost :
    ¬ CcbKept (ccbOf 2) 0 20 { (default : Psh) with pcat := 2 }
        (readccb (decoders .plain .plain 64) (ccbOf 2) 0 default { (default : Psh) with pcat := 2 } 20) ∧
      ¬ CcbTold (decoders .plain .plain 64) (ccbOf 2) 0 20 default { (default : Psh) with pcat := 2 }
        (ccbOf 3) 0 20 default { (default : Psh) with pcat := 2 } := by
  constructor
  · intro h
    have huser := (h.fits (by decide)).2.2.2.2.2
    revert huser
    decide +kernel
  · intro h
    have hgraphic : CcbGraphic (ccbOf 2) 0 20 { (default : Psh) with pcat := 2 } ∧
        CcbGraphic (ccbOf 3) 0 20 { (default : Psh) with pcat := 2 } := by
      constructor <;> exact ⟨by decide, by decide, rfl⟩
    have htexts := h hgraphic.1 hgraphic.2 (by decide)
    revert htexts
    decide +kernel

end Told
end Noaaport
