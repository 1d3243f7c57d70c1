import Noaaport.HeaderBounds
import Noaaport.Redbook

/-! The identity of a product and the bytes behind its data block: when `readccb` and `readpdb`
depend on the block alone. -/
namespace Noaaport
open Lib

/-- The routines of `wmo_header.c` and `redbook_header.c` in place of any. -/
def decoders (lib : Library) (t : GribText) (limit : Nat) : Library :=
  { lib with wmoHeader := wmoHeader t limit, redbookHeader := redbookHeader }

section Nids
variable {limit : Nat} {buf buf' m : Buffer} {a d n : Nat}

theorem wordScan_two (m : Buffer) (hd : d < limit) (h₀ : isalnum (m d) = true) (h₁ : isalnum (m (d + 1)) = true) :
    ∃ x, (wordScan limit 2).run m d = some (x, d + 2) := by
  have hblanks : blanks limit m d = 0 := by
    refine span_eq (Nat.zero_le _) (fun i hi => absurd hi (Nat.not_lt_zero i)) fun _ => ?_
    rw [Nat.add_zero]
    refine decide_eq_false fun h32 => ?_
    rw [h32] at h₀
    exact absurd h₀ (by decide)
  have hword : wordLen limit m d 2 = 2 := by
    unfold wordLen
    rw [hblanks]
    refine span_eq (Nat.le_refl 2) (fun i hi => ?_) fun h => absurd h (Nat.lt_irrefl 2)
    obtain rfl | rfl : i = 0 ∨ i = 1 := by omega
    · exact h₀
    · exact h₁
  have hne : m (d + 0) ≠ 0 := by
    rw [Nat.add_zero]
    intro h0
    rw [h0] at h₀
    exact absurd h₀ (by decide)
  refine ⟨load m d 2, ?_⟩
  change getWstr limit m d 2 = _
  rw [getWstr_eq, hblanks, hword, if_pos ⟨by omega, hne⟩]
  rfl

/-- `SDUS` and a digit are two groups and a number. -/
theorem isNids_seen (h : isNids m d = true) (hlimit : d + n < limit)
    (hseen : (groups limit).seen m d ≤ d + n) : 5 ≤ n := by
  have hcells : ∃ x, load m d 5 = [83, 68, 85, 83, x] := by
    unfold isNids at h
    have hmem := List.contains_iff_mem.1 h
    simp only [List.mem_cons, List.not_mem_nil, or_false] at hmem
    rcases hmem with h | h | h | h | h
    all_goals exact ⟨_, h⟩
  obtain ⟨x, hx⟩ := hcells
  have hcell : ∀ i, i < 5 → m (d + i) = [83, 68, 85, 83, x].getD i 0 := by
    intro i hi
    rw [← hx]
    simp [load, hi]
  obtain ⟨y, hy⟩ := wordScan_two m (show d < limit by omega)
    (by rw [show m d = 83 from hcell 0 (by decide)]; decide)
    (by rw [show m (d + 1) = 68 from hcell 1 (by decide)]; decide)
  unfold groups at hseen
  rw [Scanner.seen_bind_some hy] at hseen
  have hsecond := Nat.le_trans (Nat.le_max_right ..) hseen
  have h2 := Nat.lt_of_lt_of_le (Scanner.looks _ m (d + 2)) hsecond
  obtain ⟨z, hz⟩ := wordScan_two m (show d + 2 < limit by omega)
    (by rw [show m (d + 2) = 85 from hcell 2 (by decide)]; decide)
    (by rw [show m (d + 2 + 1) = 83 from hcell 3 (by decide)]; decide)
  rw [Scanner.seen_bind_some hz] at hsecond
  have hthird := Nat.le_trans (Nat.le_max_right ..) hsecond
  have h4 := Nat.lt_of_lt_of_le (Scanner.looks _ m (d + 2 + 2)) hthird
  omega

theorem isNids_agree (hag : AgreeOn d (d + n) buf buf') (hlimit : d + n < limit)
    (hseen : (groups limit).seen buf d ≤ d + n) : isNids buf' d = isNids buf d := by
  by_cases h5 : 5 ≤ n
  · unfold isNids
    rw [hag.load (Nat.le_refl d) (by omega)]
  · have hseen' : (groups limit).seen buf' d ≤ d + n := by
      rw [((groups limit).agrees buf buf' d (hag.mono (Nat.le_refl d) hseen)).2]
      exact hseen
    have hno : ∀ m : Buffer, (groups limit).seen m d ≤ d + n → isNids m d = false := fun m hm =>
      Bool.eq_false_iff.2 fun h => h5 (isNids_seen h hlimit hm)
    rw [hno buf hseen, hno buf' hseen']

end Nids

section Parts
variable (lib : Library) (buf : Buffer) (a blen : Nat) (psh : Psh)

/-- The PSH of `readccb` once the name is in it. -/
def namedPsh : Psh :=
  wmoName buf (a + ccbLen buf a) (lib.wmoHeader buf (a + ccbLen buf a) (blen - ccbLen buf a))
    { psh with
      ccbmode := (buf (a + 10)).toNat
      ccbsubmode := (buf (a + 11)).toNat
      hasccb := 1
      ccbdtype := [] }

def ccbTitle : Text :=
  redbookTitle lib buf (a + ccbLen buf a) (blen - ccbLen buf a) (namedPsh lib buf a blen psh)

theorem ccbPsh_eq : ccbPsh lib buf a blen psh =
    createMetadata (ccbTitle lib buf a blen psh)
      (lib.wmoHeader buf (a + ccbLen buf a) (blen - ccbLen buf a)).wmometa
      (dataType buf (a + ccbLen buf a) (buf (a + 12)).toNat (buf (a + 12)).toNat
        (ccbTitle lib buf a blen psh) (namedPsh lib buf a blen psh)) := rfl

theorem ccbTitle_eq : ccbTitle lib buf a blen psh =
    if ¬ (buf (a + 10) = 2 ∧ buf (a + 11) = 0) ∧ psh.pcat = 2 then
      lib.redbookHeader buf (a + ccbLen buf a) (blen - ccbLen buf a)
    else [] := by
  have hmode : (namedPsh lib buf a blen psh).ccbmode = (buf (a + 10)).toNat ∧
      (namedPsh lib buf a blen psh).ccbsubmode = (buf (a + 11)).toNat ∧
      (namedPsh lib buf a blen psh).pcat = psh.pcat := by
    unfold namedPsh wmoName
    split_ifs <;> exact ⟨rfl, rfl, rfl⟩
  have hnexrad : isNexrad (namedPsh lib buf a blen psh) = true ↔ buf (a + 10) = 2 ∧ buf (a + 11) = 0 := by
    unfold isNexrad
    rw [hmode.1, hmode.2.1, decide_eq_true_iff, ← UInt8.toNat_inj, ← UInt8.toNat_inj]
    rfl
  unfold ccbTitle redbookTitle
  exact if_congr (and_congr (not_congr hnexrad) (by rw [hmode.2.2])) rfl rfl

theorem ccbPsh_pname : (ccbPsh lib buf a blen psh).pname = (namedPsh lib buf a blen psh).pname := by
  rw [ccbPsh_eq]
  unfold createMetadata dataType
  split_ifs <;> rfl

theorem ccbPsh_metadata : (ccbPsh lib buf a blen psh).metadata =
    let text := (ccbPsh lib buf a blen psh).ccbdtype ++ (ccbTitle lib buf a blen psh ++
      (lib.wmoHeader buf (a + ccbLen buf a) (blen - ccbLen buf a)).wmometa)
    if text = [] then [] else ascii " !" ++ text := by
  rw [ccbPsh_eq, createMetadata, List.append_assoc]

end Parts

section Inside
variable {lib : Library} {t : GribText} {limit : Nat} {buf buf' : Buffer} {a d n blen : Nat}
  {ccb : Ccb} {psh : Psh}

/-- The parts of a product's identity. -/
structure SameIdentity (r r' : Bool × Ccb × Psh) : Prop where
  ccb : r.2.1 = r'.2.1
  pname : r.2.2.pname = r'.2.2.pname
  metadata : r.2.2.metadata = r'.2.2.metadata
  metaoff : r.2.2.metaoff = r'.2.2.metaoff
  ccbdtype : r.2.2.ccbdtype = r'.2.2.ccbdtype
  pcat : r.2.2.pcat = r'.2.2.pcat

theorem SameIdentity.refl (r : Bool × Ccb × Psh) : SameIdentity r r := ⟨rfl, rfl, rfl, rfl, rfl, rfl⟩

theorem SameIdentity.symm {r r' : Bool × Ccb × Psh} (h : SameIdentity r r') : SameIdentity r' r :=
  ⟨h.ccb.symm, h.pname.symm, h.metadata.symm, h.metaoff.symm, h.ccbdtype.symm, h.pcat.symm⟩

theorem SameIdentity.trans {r r' r'' : Bool × Ccb × Psh} (h : SameIdentity r r')
    (h' : SameIdentity r' r'') : SameIdentity r r'' :=
  ⟨h.ccb.trans h'.ccb, h.pname.trans h'.pname, h.metadata.trans h'.metadata,
    h.metaoff.trans h'.metaoff, h.ccbdtype.trans h'.ccbdtype, h.pcat.trans h'.pcat⟩

/-- A CCB that does not fit, as the block itself shows; the name then is its printable start. -/
structure NoCcbInside (buf : Buffer) (a blen : Nat) : Prop where
  long : blen < ccbLen buf a
  head : 1 ≤ blen
  second : blen = 1 → (buf a).toNat % 64 ≠ 0
  run : RunInside buf a blen

/-- A CCB that fits, with everything that is looked at behind it. -/
structure CcbFits (t : GribText) (limit : Nat) (buf : Buffer) (a blen pcat : Nat) : Prop where
  fits : ccbLen buf a ≤ blen
  user : 13 ≤ blen
  wmo : WmoInside t limit buf (a + ccbLen buf a) (blen - ccbLen buf a)
  title : ¬ (buf (a + 10) = 2 ∧ buf (a + 11) = 0) → pcat = 2 →
    TitleInside buf (a + ccbLen buf a) (blen - ccbLen buf a)

def CcbInside (t : GribText) (limit : Nat) (buf : Buffer) (a blen pcat : Nat) : Prop :=
  NoCcbInside buf a blen ∨ CcbFits t limit buf a blen pcat

theorem readccb_long (h : blen < ccbLen buf a) : readccb lib buf a ccb psh blen =
    (false, { ccb with b1 := (buf a).toNat, len := 0 },
      { psh with pname := defaultName buf a psh.pname }) := by
  unfold readccb
  rw [if_pos h]

theorem readccb_fits (h : ccbLen buf a ≤ blen) : readccb lib buf a ccb psh blen =
    (true,
      { b1 := (buf a).toNat
        len := ccbLen buf a
        user1 := (buf (a + 12)).toNat
        user2 := (buf (a + 12)).toNat },
      ccbPsh lib buf a blen psh) := by
  unfold readccb
  rw [if_neg (Nat.not_lt.2 h)]

theorem ccbLen_agree (h2 : 2 ≤ blen) (hag : AgreeOn a (a + blen) buf buf') :
    ccbLen buf' a = ccbLen buf a := by
  unfold ccbLen
  rw [hag a (Nat.le_refl a) (by omega), hag (a + 1) (by omega) (by omega)]

/-- The printable run ends inside: at the newline behind the groups, if there is one. -/
theorem WmoInside.runInside (hin : WmoInside t limit buf d n) : RunInside buf d n := by
  cases hw : wmoGroups limit buf d with
  | none => exact hin.run hw
  | some x =>
    obtain ⟨hdc, hseen, h10, -⟩ := wmoGroups_some (show wmoGroups limit buf d = some (x.1, x.2) from hw)
    have hend := hin.groups
    refine .inl (Nat.lt_of_le_of_lt (m := x.2 - 1 - d) ?_ (by omega))
    by_contra hlt
    have h := (span_spec (fun b => decide (32 ≤ b ∧ b < 128)) buf d 256).1 (x.2 - 1 - d)
      (Nat.lt_of_not_le hlt)
    rw [show d + (x.2 - 1 - d) = x.2 - 1 by omega, h10] at h
    exact absurd h (by decide)

theorem ccbPsh_agree (h : CcbFits t limit buf a blen psh.pcat) (hlimit : a + blen < limit)
    (hag : AgreeOn a (a + blen) buf buf') :
    ccbPsh (decoders lib t limit) buf' a blen psh = ccbPsh (decoders lib t limit) buf a blen psh := by
  have hfits := h.fits
  have huser := h.user
  have hdata : AgreeOn (a + ccbLen buf a) (a + ccbLen buf a + (blen - ccbLen buf a)) buf buf' :=
    hag.mono (Nat.le_add_right ..) (by omega)
  have hwmo : (decoders lib t limit).wmoHeader buf' (a + ccbLen buf a) (blen - ccbLen buf a) =
      (decoders lib t limit).wmoHeader buf (a + ccbLen buf a) (blen - ccbLen buf a) :=
    wmoHeader_agree hdata h.wmo
  have hnamed : namedPsh (decoders lib t limit) buf' a blen psh =
      namedPsh (decoders lib t limit) buf a blen psh := by
    unfold namedPsh wmoName defaultName
    rw [ccbLen_agree (by omega) hag, hag (a + 10) (by omega) (by omega),
      hag (a + 11) (by omega) (by omega), hwmo, printable_agree hdata h.wmo.runInside]
  have htitle : ccbTitle (decoders lib t limit) buf' a blen psh =
      ccbTitle (decoders lib t limit) buf a blen psh := by
    rw [ccbTitle_eq, ccbTitle_eq, ccbLen_agree (by omega) hag, ← hag (a + 10) (by omega) (by omega),
      ← hag (a + 11) (by omega) (by omega)]
    split_ifs with hred
    · exact redbookHeader_agree hdata (h.title hred.1 hred.2)
    · rfl
  rw [ccbPsh_eq, ccbPsh_eq, hnamed, htitle, ccbLen_agree (by omega) hag,
    hwmo, hag (a + 12) (by omega) (by omega)]
  unfold dataType
  rw [isNids_agree hdata (by omega) h.wmo.groups]

theorem NoCcbInside.long_agree (h : NoCcbInside buf a blen) (hag : AgreeOn a (a + blen) buf buf') :
    blen < ccbLen buf' a := by
  have hhead := h.head
  by_cases h2 : 2 ≤ blen
  · rw [ccbLen_agree h2 hag]
    exact h.long
  · -- one byte is enough where its six low bits are not zero
    have hsecond := h.second (by omega)
    unfold ccbLen
    rw [← hag a (Nat.le_refl a) (by omega)]
    omega

/-- What is inside the block decides. -/
theorem readccb_agree (h : CcbInside t limit buf a blen psh.pcat) (hlimit : a + blen < limit)
    (hag : AgreeOn a (a + blen) buf buf') :
    SameIdentity (readccb (decoders lib t limit) buf' a ccb psh blen)
      (readccb (decoders lib t limit) buf a ccb psh blen) := by
  rcases h with h | h
  · have hhead := h.head
    rw [readccb_long (h.long_agree hag), readccb_long h.long, ← hag a (Nat.le_refl a) (by omega)]
    unfold defaultName
    rw [printable_agree hag h.run]
    exact .refl _
  · have huser := h.user
    have hlen : ccbLen buf' a = ccbLen buf a := ccbLen_agree (by omega) hag
    have hfits' : ccbLen buf' a ≤ blen := by
      rw [hlen]
      exact h.fits
    rw [readccb_fits h.fits, readccb_fits hfits', ccbPsh_agree h hlimit hag, hlen,
      ← hag a (Nat.le_refl a) (by omega), ← hag (a + 12) (by omega) (by omega)]
    exact .refl _

end Inside

end Noaaport
