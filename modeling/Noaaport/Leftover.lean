import Noaaport.Identity

/-! The other direction: a product whose identity no leftover changes has everything that is
looked at inside its block. -/
namespace Noaaport
open Lib

section Decides
variable {lib : Library} {t : GribText} {limit : Nat} {buf m m' : Buffer} {a d n c blen : Nat}
  {hdr : WmoHdr} {ccb : Ccb} {psh : Psh}

/-- `readccb` makes the same of every buffer with this block. -/
def CcbStable (lib : Library) (buf : Buffer) (a blen : Nat) (ccb : Ccb) (psh : Psh) : Prop :=
  ∀ buf', AgreeOn a (a + blen) buf buf' →
    SameIdentity (readccb lib buf' a ccb psh blen) (readccb lib buf a ccb psh blen)

theorem CcbStable.pair (h : CcbStable lib buf a blen ccb psh) (hm : AgreeOn a (a + blen) buf m)
    (hm' : AgreeOn a (a + blen) buf m') :
    SameIdentity (readccb lib m a ccb psh blen) (readccb lib m' a ccb psh blen) :=
  (h m hm).trans (h m' hm').symm

theorem readccb_b1 : (readccb lib buf a ccb psh blen).2.1.b1 = (buf a).toNat := by
  unfold readccb
  split_ifs <;> rfl

theorem CcbStable.head (h : CcbStable lib buf a blen ccb psh) : 1 ≤ blen := by
  by_contra h0
  have hag : ∀ b : UInt8, AgreeOn a (a + blen) buf (store buf a [b]) :=
    fun b => agreeOn_store buf [b] (by omega)
  have hb1 := congrArg Ccb.b1 (h.pair (hag 0) (hag 1)).ccb
  rw [readccb_b1, readccb_b1, store_head,
    store_head] at hb1
  exact absurd hb1 (by decide)

/-- A block that is taken for one with a CCB has its byte 12. -/
theorem CcbStable.user (h : CcbStable lib buf a blen ccb psh) (hm : AgreeOn a (a + blen) buf m)
    (hfits : ccbLen m a ≤ blen) : 13 ≤ blen := by
  by_contra h13
  have hag : ∀ b : UInt8, AgreeOn a (a + blen) buf (store m (a + 12) [b]) := fun b i hi hi' => by
    rw [hm i hi hi', store_before _ _ _ _ (by omega)]
  have huser : ∀ b : UInt8, (readccb lib (store m (a + 12) [b]) a ccb psh blen).2.1.user1 = b.toNat := by
    intro b
    have hlen : ccbLen (store m (a + 12) [b]) a = ccbLen m a := by
      unfold ccbLen
      rw [store_before _ _ _ _ (by omega), store_before _ _ _ _ (by omega)]
    rw [readccb_fits (by rw [hlen]; exact hfits), store_head]
  have huser1 := congrArg Ccb.user1 (h.pair (hag 0) (hag 1)).ccb
  rw [huser, huser] at huser1
  exact absurd huser1 (by decide)

theorem defaultName_length (h : printable buf a ≠ []) (pname : Text) :
    (defaultName buf a pname).length = pname.length + (printable buf a).length := by
  rw [defaultName, if_neg h, List.length_append]

/-- A name that goes on behind the block. -/
theorem defaultName_open (h : ¬ RunInside buf a n) (hn : 1 ≤ n) (pname : Text) :
    defaultName (store buf (a + n) [65, 0]) a pname ≠ defaultName (store buf (a + n) [0]) a pname := by
  obtain ⟨hlong, hshort⟩ := printable_open h
  intro heq
  have hlen := congrArg List.length heq
  rw [defaultName_length (List.ne_nil_of_length_pos (by omega)),
    defaultName_length (List.ne_nil_of_length_pos (by omega))] at hlen
  omega

theorem CcbStable.noCcb (h : CcbStable lib buf a blen ccb psh) (hlong : blen < ccbLen buf a) :
    NoCcbInside buf a blen := by
  have hhead := h.head
  have hsecond : blen = 1 → (buf a).toNat % 64 ≠ 0 := by
    intro h1 hzero
    -- with a zero behind it, the CCB is empty
    have hfits : ccbLen (store buf (a + 1) [0]) a ≤ blen := by
      unfold ccbLen
      rw [store_before _ _ _ _ (by omega), hzero, store_head]
      exact Nat.zero_le _
    have h13 := h.user (agreeOn_store buf [0] (by omega)) hfits
    omega
  refine ⟨hlong, hhead, hsecond, ?_⟩
  by_contra hrun
  have hag : ∀ bs, AgreeOn a (a + blen) buf (store buf (a + blen) bs) :=
    fun bs => agreeOn_store buf bs (Nat.le_refl _)
  have hlong' : ∀ bs, blen < ccbLen (store buf (a + blen) bs) a := by
    intro bs
    by_cases h2 : 2 ≤ blen
    · rw [ccbLen_agree h2 (hag bs)]
      exact hlong
    · have hbyte := hsecond (by omega)
      unfold ccbLen
      rw [store_before _ _ _ _ (by omega)]
      omega
  have hname := (h.pair (hag [65, 0]) (hag [0])).pname
  rw [readccb_long (hlong' _), readccb_long (hlong' _)] at hname
  exact defaultName_open hrun hhead psh.pname hname

theorem metadata_inj {x y : Text}
    (h : (if x = [] then [] else ascii " !" ++ x) = if y = [] then [] else ascii " !" ++ y) : x = y := by
  split_ifs at h with hx hy hy
  · rw [hx, hy]
  · cases h
  · cases h
  · exact List.append_cancel_left h

/-- Two buffers with the block have one name and one metadata text. -/
theorem CcbStable.texts (h : CcbStable lib buf a blen ccb psh) (hfits : ccbLen buf a ≤ blen)
    (huser : 13 ≤ blen) (hm : AgreeOn a (a + blen) buf m) (hm' : AgreeOn a (a + blen) buf m') :
    (namedPsh lib m a blen psh).pname = (namedPsh lib m' a blen psh).pname ∧
      ccbTitle lib m a blen psh ++
          (lib.wmoHeader m (a + ccbLen buf a) (blen - ccbLen buf a)).wmometa =
        ccbTitle lib m' a blen psh ++
          (lib.wmoHeader m' (a + ccbLen buf a) (blen - ccbLen buf a)).wmometa := by
  have hlen : ∀ m, AgreeOn a (a + blen) buf m → ccbLen m a = ccbLen buf a :=
    fun m hm => ccbLen_agree (by omega) hm
  have hread : ∀ m, AgreeOn a (a + blen) buf m →
      (readccb lib m a ccb psh blen).2.2 = ccbPsh lib m a blen psh := by
    intro m hm
    rw [readccb_fits (by rw [hlen m hm]; exact hfits)]
  have hsame := h.pair hm hm'
  have hpname := hsame.pname
  have hdtype := hsame.ccbdtype
  have hmetadata := hsame.metadata
  rw [hread m hm, hread m' hm'] at hpname hdtype hmetadata
  rw [ccbPsh_pname, ccbPsh_pname] at hpname
  rw [ccbPsh_metadata, ccbPsh_metadata, hlen m hm, hlen m' hm', hdtype] at hmetadata
  exact ⟨hpname, List.append_cancel_left (metadata_inj hmetadata)⟩

/-- The message kinds that `wmo_header` tells apart show in the metadata. -/
theorem CcbStable.not_leaks (h : CcbStable (decoders lib t limit) buf a blen ccb psh)
    (hfits : ccbLen buf a ≤ blen) (huser : 13 ≤ blen) :
    ¬ Leaks t limit buf (a + ccbLen buf a) (blen - ccbLen buf a) := by
  rintro ⟨m, m', hm, hm', hgrib2, hgribx⟩
  obtain ⟨-, htext⟩ := h.texts hfits huser (hm.mono (Nat.zero_le a) (by omega))
    (hm'.mono (Nat.zero_le a) (by omega))
  change _ ++ (wmoHeader t limit m _ _).wmometa = _ ++ (wmoHeader t limit m' _ _).wmometa at htext
  rw [hgrib2, hgribx] at htext
  obtain ⟨hlength, hne⟩ : (ascii "grib2/").length = (ascii "gribx/").length ∧
      ascii "grib2/" ≠ ascii "gribx/" := by decide
  exact hne (List.append_inj_right' htext hlength)

/-- A GRIB message takes its first four bytes for a block that is too long. -/
theorem redbookHeader_grib (hw : wmoGroups limit buf d = some (hdr, c))
    (hmagic : load buf c 4 = ascii "GRIB") (hc : c < d + n) (h33 : d + n ≤ c + 33) :
    redbookHeader buf d n = [] := by
  obtain ⟨hdc, -, h10, hno⟩ := wmoGroups_some hw
  have hspan : span (· ≠ 10) buf d n = c - 1 - d := by
    refine span_eq (by omega) (fun i hi => decide_eq_true (hno _ (by omega) (by omega))) fun _ => ?_
    rw [show d + (c - 1 - d) = c - 1 by omega, h10]
    rfl
  have hcell : ∀ i, i < 4 → buf (c + i) = (ascii "GRIB").getD i 0 := by
    intro i hi
    rw [← hmagic]
    simp [load, hi]
  have hlen : (getBlock buf d (c - d)).len = 1874 := by
    have h0 : buf c = 71 := hcell 0 (by decide)
    have h1 : buf (c + 1) = 82 := hcell 1 (by decide)
    change be16 buf (d + (c - d)) % 16384 = 1874
    rw [Nat.add_sub_cancel' (Nat.le_of_lt hdc), be16, h0, h1]
    decide
  have hlong : n < c - d + (getBlock buf d (c - d)).len * 2 := by
    rw [hlen]
    omega
  have hblocks : ∀ fuel, redbookBlocks buf d n fuel (c - d) = [] := by
    intro fuel
    cases fuel with
    | zero => rfl
    | succ fuel =>
      unfold redbookBlocks
      dsimp only
      rw [if_pos (show (getBlock buf d (c - d)).ff ≠ 1 ∨ (getBlock buf d (c - d)).len = 0 ∨
        n < c - d + (getBlock buf d (c - d)).len * 2 from .inr (.inr hlong))]
      exact ite_self _
  rw [redbookHeader, blocksOf, hspan, show c - 1 - d + 1 = c - d by omega, hblocks]
  rfl

theorem identify_ok_ne {pil model wmometa : Text} {metaoff : Int}
    (h : (identify hdr pil model wmometa metaoff).ok = true) :
    (identify hdr pil model wmometa metaoff).wmohead ≠ [] := by
  unfold identify at h ⊢
  dsimp only at h ⊢
  split_ifs at h ⊢
  have hpos : 0 < (wmoid hdr pil model).length := by omega
  exact List.ne_nil_of_length_pos hpos

theorem wmoHeader_ok_ne (h : (wmoHeader t limit buf d n).ok = true) :
    (wmoHeader t limit buf d n).wmohead ≠ [] := by
  unfold wmoHeader at h ⊢
  split at h
  · cases h
  · dsimp only at h ⊢
    split_ifs at h ⊢
    all_goals exact identify_ok_ne h

theorem wmoHeader_none (h : wmoGroups limit buf d = none) :
    (wmoHeader t limit buf d n).ok = false := by
  unfold wmoHeader
  rw [h]

theorem namedPsh_pname_ok (h : (lib.wmoHeader m (a + ccbLen m a) (blen - ccbLen m a)).ok = true)
    (hne : (lib.wmoHeader m (a + ccbLen m a) (blen - ccbLen m a)).wmohead ≠ []) :
    (namedPsh lib m a blen psh).pname =
      psh.pname ++ (lib.wmoHeader m (a + ccbLen m a) (blen - ccbLen m a)).wmohead := by
  rw [namedPsh, wmoName, if_pos h, if_pos hne]

theorem namedPsh_pname_bad (h : (lib.wmoHeader m (a + ccbLen m a) (blen - ccbLen m a)).ok = false) :
    (namedPsh lib m a blen psh).pname = defaultName m (a + ccbLen m a) psh.pname := by
  rw [namedPsh, wmoName, h, if_neg (by decide)]

/-- The octets that get into the name of a GRIB message. -/
theorem CcbStable.grib (h : CcbStable (decoders lib t limit) buf a blen ccb psh)
    (hfits : ccbLen buf a ≤ blen) (huser : 13 ≤ blen)
    (hw : wmoGroups limit buf (a + ccbLen buf a) = some (hdr, c))
    (hseen : (groups limit).seen buf (a + ccbLen buf a) ≤ a + blen)
    (hnot : ¬ NotGrib buf c (a + blen)) : GribInside t buf c (a + blen) := by
  obtain ⟨hdc, hc, -⟩ := wmoGroups_some hw
  have hend : a + ccbLen buf a + (blen - ccbLen buf a) = a + blen := by omega
  have hopen : ∀ i, i < 4 → c + i < a + blen → buf (c + i) = (ascii "GRIB").getD i 0 := by
    intro i hi hie
    by_contra hne
    exact hnot ⟨i, hi, hie, hne⟩
  have h8 : c + 8 ≤ a + blen := by
    by_contra hlt
    refine h.not_leaks hfits huser (leaks_of_grib hw (by omega) (by omega) fun i hi hie => ?_)
    exact hopen i hi (by omega)
  have hmagic : load buf c 4 = ascii "GRIB" := load_grib fun i hi => hopen i hi (by omega)
  -- for editions 0 and 1, where no title is taken from the message, the metadata is the octets'
  have hmeta : ∀ {m}, AgreeOn a (a + blen) buf m → buf (c + 7) = 0 ∨ buf (c + 7) = 1 →
      a + blen ≤ c + 33 → ccbTitle (decoders lib t limit) m a blen psh ++
        ((decoders lib t limit).wmoHeader m (a + ccbLen buf a) (blen - ccbLen buf a)).wmometa =
          gribMeta t m c := by
    intro m hm hed h33
    have hwm : wmoGroups limit m (a + ccbLen buf a) = some (hdr, c) := by
      rw [wmoGroups_agree (hm.mono (Nat.le_add_right ..) hseen), hw]
    have hmagicm : load m c 4 = ascii "GRIB" := by
      rw [← hm.load (by omega) (by omega), hmagic]
    have htitle : ccbTitle (decoders lib t limit) m a blen psh = [] := by
      rw [ccbTitle_eq, ccbLen_agree (by omega) hm]
      split_ifs
      · exact redbookHeader_grib hwm hmagicm (by omega) (by omega)
      · rfl
    rw [htitle]
    refine wmometa_grib1 hwm hmagicm ?_
    rw [← hm (c + 7) (by omega) (by omega)]
    exact hed
  have hsame : ∀ {m m'}, AgreeOn a (a + blen) buf m → AgreeOn a (a + blen) buf m' →
      buf (c + 7) = 0 ∨ buf (c + 7) = 1 → a + blen ≤ c + 33 → gribMeta t m c = gribMeta t m' c := by
    intro m m' hm hm' hed h33
    rw [← hmeta hm hed h33, ← hmeta hm' hed h33]
    exact (h.texts hfits huser hm hm').2
  refine ⟨hmagic, h8, fun hed => ?_, fun hed h33 b => ?_⟩
  · by_contra hlt
    exact gribMeta_century t buf c (hsame (agreeOn_store buf [20] (by omega))
      (agreeOn_store buf [21] (by omega)) hed (by omega))
  · by_contra hne
    exact gribMeta_subcenter hne (hsame (agreeOn_store buf [b] (by omega)) (AgreeOn.refl _ _ buf) hed
      (by omega))

/-- The name is either the heading's or the printable start, and both stay inside. -/
theorem CcbStable.wmo (h : CcbStable (decoders lib t limit) buf a blen ccb psh)
    (hfits : ccbLen buf a ≤ blen) (hlimit : a + blen < limit) :
    WmoInside t limit buf (a + ccbLen buf a) (blen - ccbLen buf a) := by
  have huser := h.user (AgreeOn.refl a _ buf) hfits
  have hend : a + ccbLen buf a + (blen - ccbLen buf a) = a + blen := by omega
  have hleft : ∀ {m}, AgreeOn 0 (a + ccbLen buf a + (blen - ccbLen buf a)) buf m →
      AgreeOn a (a + blen) buf m := fun hm => hm.mono (Nat.zero_le a) (by omega)
  have hlen : ∀ {m}, AgreeOn a (a + blen) buf m → ccbLen m a = ccbLen buf a :=
    fun hm => ccbLen_agree (by omega) hm
  have hstored : ∀ bs, AgreeOn a (a + blen) buf (store buf (a + ccbLen buf a + (blen - ccbLen buf a)) bs) :=
    fun bs => agreeOn_store buf bs (by omega)
  have hseen : (groups limit).seen buf (a + ccbLen buf a) ≤
      a + ccbLen buf a + (blen - ccbLen buf a) := by
    by_contra hlt
    exact h.not_leaks hfits huser (leaks_of_groups (Nat.lt_of_not_le hlt) (by omega))
  refine ⟨hseen, fun hnone => ?_, fun hdr c hw => ?_⟩
  · by_contra hrun
    have hpos := (groups limit).looks buf (a + ccbLen buf a)
    have hbad : ∀ {m}, AgreeOn a (a + blen) buf m →
        (namedPsh (decoders lib t limit) m a blen psh).pname =
          defaultName m (a + ccbLen buf a) psh.pname := by
      intro m hm
      rw [← hlen hm]
      refine namedPsh_pname_bad (wmoHeader_none ?_)
      rw [hlen hm, wmoGroups_agree (hm.mono (Nat.le_add_right ..) (by omega)), hnone]
    have hname := (h.texts hfits huser (hstored [65, 0]) (hstored [0])).1
    rw [hbad (hstored _), hbad (hstored _)] at hname
    exact defaultName_open hrun (by omega) psh.pname hname
  · by_cases hnot : NotGrib buf c (a + ccbLen buf a + (blen - ccbLen buf a))
    · refine .inl ⟨hnot, ?_⟩
      by_contra hpil
      obtain ⟨m, m', hm, hm', hok, hok', hne⟩ := leaks_of_pil (t := t) hw hseen hnot hpil
      have hnamed : ∀ {m}, AgreeOn a (a + blen) buf m →
          (wmoHeader t limit m (a + ccbLen buf a) (blen - ccbLen buf a)).ok = true →
          (namedPsh (decoders lib t limit) m a blen psh).pname =
            psh.pname ++ (wmoHeader t limit m (a + ccbLen buf a) (blen - ccbLen buf a)).wmohead := by
        intro m hm hok
        rw [← hlen hm] at hok ⊢
        exact namedPsh_pname_ok hok (wmoHeader_ok_ne hok)
      have hname := (h.texts hfits huser (hleft hm) (hleft hm')).1
      rw [hnamed (hleft hm) hok, hnamed (hleft hm') hok'] at hname
      exact hne (congrArg List.length (List.append_cancel_left hname))
    · rw [hend] at hseen hnot ⊢
      exact .inr (h.grib hfits huser hw hseen hnot)

/-- So does the title of a graphic. -/
theorem CcbStable.title (h : CcbStable (decoders lib t limit) buf a blen ccb psh)
    (hfits : ccbLen buf a ≤ blen) (hlimit : a + blen < limit)
    (hmode : ¬ (buf (a + 10) = 2 ∧ buf (a + 11) = 0)) (hpcat : psh.pcat = 2) :
    TitleInside buf (a + ccbLen buf a) (blen - ccbLen buf a) := by
  have huser := h.user (AgreeOn.refl a _ buf) hfits
  have hwmo := h.wmo hfits hlimit
  by_contra hopen
  obtain ⟨x, hx, hne⟩ := redbookHeader_open hopen
  have hag : ∀ b : UInt8, AgreeOn a (a + blen) buf (store buf x [b]) :=
    fun b => agreeOn_store buf [b] (by omega)
  have htitle : ∀ b : UInt8, ccbTitle (decoders lib t limit) (store buf x [b]) a blen psh =
      redbookHeader (store buf x [b]) (a + ccbLen buf a) (blen - ccbLen buf a) := by
    intro b
    rw [ccbTitle_eq, ccbLen_agree (by omega) (hag b), ← hag b (a + 10) (by omega) (by omega),
      ← hag b (a + 11) (by omega) (by omega)]
    exact if_pos ⟨hmode, hpcat⟩
  have hheader : ∀ b : UInt8, (decoders lib t limit).wmoHeader (store buf x [b]) (a + ccbLen buf a)
      (blen - ccbLen buf a) = wmoHeader t limit buf (a + ccbLen buf a) (blen - ccbLen buf a) :=
    fun b => wmoHeader_agree ((hag b).mono (Nat.le_add_right ..) (by omega)) hwmo
  have htext := (h.texts hfits huser (hag 0) (hag 1)).2
  rw [htitle, htitle, hheader, hheader] at htext
  exact hne (List.append_cancel_right htext)

/-- The identity of a product is its block's alone exactly where all that is looked at is
inside the block. -/
theorem ccbStable_iff (hlimit : a + blen < limit) :
    CcbStable (decoders lib t limit) buf a blen ccb psh ↔ CcbInside t limit buf a blen psh.pcat := by
  constructor
  · intro h
    by_cases hfits : ccbLen buf a ≤ blen
    · exact .inr ⟨hfits, h.user (AgreeOn.refl a _ buf) hfits, h.wmo hfits hlimit,
        h.title hfits hlimit⟩
    · exact .inl (h.noCcb (Nat.lt_of_not_le hfits))
  · exact fun h buf' hag => readccb_agree h hlimit hag

end Decides

section Pdb
variable {lib : Library} {buf buf' : Buffer} {a blen : Nat} {psh : Psh} {pdb : Pdb} {u : Mem UInt8}

/-- The line and the 42 bytes behind it that `readpdb` reads. -/
def PdbInside (buf : Buffer) (a blen : Nat) : Prop := span (· ≠ 10) buf a 512 + 43 ≤ blen

def PdbStable (lib : Library) (buf : Buffer) (a blen : Nat) (psh : Psh) (pdb : Pdb)
    (u : Mem UInt8) : Prop :=
  ∀ buf', AgreeOn a (a + blen) buf buf' →
    (readpdb lib buf' a psh pdb u false).psh.pname = (readpdb lib buf a psh pdb u false).psh.pname ∧
      (readpdb lib buf' a psh pdb u false).pdb = (readpdb lib buf a psh pdb u false).pdb

theorem readpdb_plain : (readpdb lib buf a psh pdb u false).pdb =
      { pdbFields buf (a + span (· ≠ 10) buf a 512 + 1) pdb with
        len := 512 + (span (· ≠ 10) buf a 512 : Nat) } ∧
    (readpdb lib buf a psh pdb u false).psh.pname =
      lib.satName (ascii "sat") psh.ptype (readpdb lib buf a psh pdb u false).pdb
        ((load buf a (span (· ≠ 10) buf a 512)).filter (32 ≤ ·)) := by
  rw [← takeWhile_load]
  unfold readpdb span
  rw [if_neg (by decide)]
  exact ⟨rfl, rfl⟩

theorem pdbFields_agree {w : Nat} (h : AgreeOn w (w + 42) buf buf') :
    pdbFields buf' w pdb = pdbFields buf w pdb := by
  have hcell : ∀ i, i < 42 → buf' (w + i) = buf (w + i) :=
    fun i hi => (h (w + i) (by omega) (by omega)).symm
  have hbe : ∀ i, i < 40 → be16 buf' (w + i) = be16 buf (w + i) :=
    fun i hi => be16_congr fun j hj => by
      rw [Nat.add_assoc]
      exact hcell (i + j) (by omega)
  unfold pdbFields
  simp only [hbe, hcell, Nat.reduceLT]

theorem pdbStable_iff : PdbStable lib buf a blen psh pdb u ↔ PdbInside buf a blen := by
  constructor
  · intro h
    by_contra hcut
    have hlt : blen < span (· ≠ 10) buf a 512 + 43 := Nat.lt_of_not_le hcut
    -- the resolution is the last byte
    have hres : ∀ b : UInt8, (readpdb lib (store buf (a + span (· ≠ 10) buf a 512 + 42) [b]) a psh pdb
        u false).pdb.res = b.toNat := by
      intro b
      have hspan : span (· ≠ 10) (store buf (a + span (· ≠ 10) buf a 512 + 42) [b]) a 512 =
          span (· ≠ 10) buf a 512 := span_agree (agreeOn_store buf [b] (by omega))
      rw [readpdb_plain.1, hspan]
      unfold pdbFields
      dsimp only
      rw [Nat.add_assoc _ 1 41, store_head]
    have hag : ∀ b : UInt8, AgreeOn a (a + blen) buf
        (store buf (a + span (· ≠ 10) buf a 512 + 42) [b]) := fun b => agreeOn_store buf [b] (by omega)
    have hsame := congrArg Pdb.res ((h _ (hag 0)).2.trans (h _ (hag 1)).2.symm)
    rw [hres, hres] at hsame
    exact absurd hsame (by decide)
  · intro h buf' hag
    unfold PdbInside at h
    have hspan : span (· ≠ 10) buf' a 512 = span (· ≠ 10) buf a 512 :=
      span_agree (hag.mono (Nat.le_refl a) (by omega))
    have hpdb : (readpdb lib buf' a psh pdb u false).pdb = (readpdb lib buf a psh pdb u false).pdb := by
      rw [readpdb_plain.1, readpdb_plain.1, hspan, pdbFields_agree (hag.mono (by omega) (by omega))]
    rw [readpdb_plain.2, readpdb_plain.2, hpdb, hspan, hag.load (Nat.le_refl a) (by omega)]
    exact ⟨rfl, rfl⟩

end Pdb

section Inside

/-- A product's identity is its own bytes' exactly where the readers stay inside the block. -/
theorem identity_inside_iff (lib : Library) (t : GribText) {limit : Nat} (buf : Buffer)
    {a blen : Nat} (hlimit : a + blen < limit) (ccb : Ccb) (psh : Psh) (pdb : Pdb) (u : Mem UInt8) :
    (CcbStable (decoders lib t limit) buf a blen ccb psh ↔ CcbInside t limit buf a blen psh.pcat) ∧
      (PdbStable (decoders lib t limit) buf a blen psh pdb u ↔ PdbInside buf a blen) :=
  ⟨ccbStable_iff hlimit, pdbStable_iff⟩

/-- No names of centers and parameters. -/
def GribText.plain : GribText where
  origin _ _ := []
  model _ _ := []
  fhour _ _ := 0
  k5toa _ _ _ _ _ := []
  levels _ _ _ := []

/-- A CCB of 14 bytes, a heading, a PIL and text. -/
def textBuf : Buffer :=
  store (fun _ => 0) 0
    ([0, 7] ++ List.replicate 12 0 ++ ascii "TTAA01 CCCC 121212\nXXXYYY\n" ++ List.replicate 40 65)

/-- Both readers stay inside a block of 80 bytes. -/
theorem identity_inside_iff_run : 0 + 80 < 128 ∧
    CcbStable (decoders .plain .plain 128) textBuf 0 80 default default ∧
    PdbStable (decoders .plain .plain 128) textBuf 0 80 default default (fun _ => 0) := by
  have hwmo : (groups 128).seen textBuf 14 ≤ 14 + 66 ∧ (wmoGroups 128 textBuf 14).map (·.2) = some 33 ∧
      nmcPos textBuf 33 = 33 ∧ textBuf 39 = 10 ∧ textBuf 33 ≠ (ascii "GRIB").getD 0 0 := by
    decide +kernel
  have hbody (hdr : WmoHdr) (c : Nat) (h : wmoGroups 128 textBuf 14 = some (hdr, c)) :
      NotGrib textBuf c (14 + 66) ∧ PilInside textBuf (nmcPos textBuf c) (14 + 66) := by
    obtain rfl : c = 33 := by simpa [h] using hwmo.2.1
    refine ⟨⟨0, by decide, by decide, hwmo.2.2.2.2⟩, fun _ hno => ?_⟩
    exact absurd hwmo.2.2.2.1 (hno 39 (by omega) (by decide))
  have hinside : WmoInside .plain 128 textBuf 14 66 :=
    ⟨hwmo.1, fun hnone => by simp [hnone] at hwmo, fun hdr c h => .inl (hbody hdr c h)⟩
  have hlen : ccbLen textBuf 0 = 14 := by decide
  have hfits : CcbFits .plain 128 textBuf 0 80 (default : Psh).pcat :=
    ⟨by decide, by decide, by rwa [hlen], fun _ hpcat => absurd hpcat (by decide)⟩
  have hline : PdbInside textBuf 0 80 := by
    unfold PdbInside
    decide +kernel
  obtain ⟨hccb, hpdb⟩ := identity_inside_iff .plain .plain textBuf (show 0 + 80 < 128 by decide) default default
    default (fun _ => 0)
  exact ⟨by decide, hccb.2 (.inr hfits), hpdb.2 hline⟩

/-- A CCB of 14 bytes and a heading that fills its block, with a newline behind it. -/
def headingBuf : Buffer :=
  store (fun _ => 0) 0 ([0, 7] ++ List.replicate 12 0 ++ ascii "TTAA01 CCCC 121212\n")

/-- The heading's group `BBB` is taken from the leftover. -/
theorem leftover_in_name : ¬ CcbStable (decoders .plain .plain 64) headingBuf 0 32 default default := by
  intro h
  have hname := (h (store headingBuf 32 (ascii " RRA\n")) (agreeOn_store _ _ (Nat.le_refl _))).pname
  revert hname
  decide +kernel

end Inside
end Noaaport
