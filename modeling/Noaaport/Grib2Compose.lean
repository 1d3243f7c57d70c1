import Noaaport.Grib2Encode

/-! What the calls that put a message together leave in it: sections one behind the other, each
readable by its own unpacker whatever is written elsewhere. -/
namespace Noaaport.G2
open Lib

/-- What a section says. -/
inductive Content where
  | ident (ids : List Int)
  | loc (bytes : List UInt8)
  | grid (g : Grid)
  | prod (p : Product)
  | pack (p : Packing)
  | bitmap (ibmap : Int)
  | data

def Content.num : Content → Nat
  | .ident _ => 1
  | .loc _ => 2
  | .grid _ => 3
  | .prod _ => 4
  | .pack _ => 5
  | .bitmap _ => 6
  | .data => 7

/-- The unpacker of the section finds it at byte `a`. -/
def Content.At (cgrib : Cgrib) (a : Nat) : Content → Prop
  | .ident ids => g2_unpack1 cgrib a = .ok ids
  | .loc bytes => g2_unpack2 cgrib a = .ok (bytes.length, bytes)
  | .grid g => g2_unpack3 cgrib a = .ok g
  | .prod p => g2_unpack4 cgrib a = some (.ok p)
  | .pack p => g2_unpack5 cgrib a = .ok p
  | .bitmap ibmap => gbit cgrib (a * 8 + 40) 8 = ibmap
  | .data => True

/-- A section of `len` bytes at byte `a` that depends on no others. -/
def Solid (cgrib : Cgrib) (a len : Nat) (c : Content) : Prop :=
  ∀ cgrib', SameBits cgrib cgrib' (a * 8) ((a + len) * 8) →
    lensec cgrib' a = len ∧ isecnum cgrib' a = c.num ∧ c.At cgrib' a

/-- Sections from one byte up to another, none of no length. -/
inductive Layout (cgrib : Cgrib) : Nat → List Content → Nat → Prop
  | nil (a : Nat) : Layout cgrib a [] a
  | cons {a b len : Nat} {c : Content} {cs : List Content} (hpos : 0 < len) (hsolid : Solid cgrib a len c)
      (rest : Layout cgrib (a + len) cs b) : Layout cgrib a (c :: cs) b

section Frames
variable {c c' c'' : Cgrib} {p q n a b len : Nat}

theorem gbit_kept (h : Kept c c' a b) (hd : q + n ≤ a ∨ b ≤ q) : gbit c' q n = gbit c q n :=
  (gbit_same (h.same (c := q) (d := q + n) (by omega)) (Nat.le_refl q) (Nat.le_refl _)).symm

theorem store_kept (c : Cgrib) (a : Nat) (bytes : List UInt8) :
    Kept c (store c a bytes) (a * 8) (a * 8 + bytes.length * 8) := by
  have h : Kept c (store c a bytes) (8 * a) (8 * (a + bytes.length)) := by
    apply kept_of_cells
    intro i hi
    rw [store_outside]
    omega
  exact h.mono (by omega) (by omega)

theorem sbits_kept (c : Cgrib) (p : Nat) (hn : 0 < n) (xs : List Int) :
    Kept c (sbits c p n 0 xs) p (p + n * xs.length) := by
  intro q hq
  refine (sbits_frame c hn 0 xs ?_).symm
  intro i hi
  have hle := Nat.mul_le_mul_left n (show i + 1 ≤ xs.length from hi)
  rw [Nat.mul_add, Nat.mul_one] at hle
  rw [Nat.add_zero, Nat.mul_comm i n]
  omega

theorem gbits_same {count : Nat} (h : SameBits c c' p (p + n * count)) :
    gbits c p n 0 count = gbits c' p n 0 count := by
  induction count generalizing p with
  | zero => rfl
  | succ count ih =>
    rw [Nat.mul_succ] at h
    rw [gbits, gbits, gbit_same h (Nat.le_refl p) (by omega), ih (h.mono (by omega) (by omega))]

/-- Numbers that fit are read as they were packed. -/
theorem gbits_packed {xs : List Int} (hn : 0 < n) (hn' : n ≤ 63) (hxs : ∀ x ∈ xs, 0 ≤ x ∧ x < 2 ^ n)
    (h : SameBits (sbits c p n 0 xs) c' p (p + n * xs.length)) : gbits c' p n 0 xs.length = xs := by
  rw [← gbits_same h, gbits_of_sbits c p hn hn' 0 xs]
  have heq : xs.map (fun x => x % 2 ^ n) = xs.map id :=
    List.map_congr_left fun x hx => Int.emod_eq_of_lt (hxs x hx).1 (hxs x hx).2
  rw [heq, List.map_id]

/-- A section is closed over what was written between its number and its end. -/
theorem endSection_spec {num : Nat} (hnum : num < 256) (hbody : Kept (beginSection c (a * 8) num) c' (a * 8 + 40)
      ((a + len) * 8)) (hlen : 5 ≤ len) (hlen' : len < 2 ^ 32) :
    Kept c (endSection c' (a * 8) ((a + len) * 8)) (a * 8) ((a + len) * 8) ∧
      ∀ cgrib', SameBits (endSection c' (a * 8) ((a + len) * 8)) cgrib' (a * 8) ((a + len) * 8) →
        lensec cgrib' a = len ∧ isecnum cgrib' a = num ∧
          SameBits c' cgrib' (a * 8 + 40) ((a + len) * 8) := by
  have hbytes : ((a + len) * 8 - a * 8) / 8 = len := by omega
  have hfirst := sbit_kept c num (a * 8 + 32) (n := 8) (by decide)
  have hlast := sbit_kept c' len (a * 8) (n := 32) (by decide)
  rw [endSection, hbytes]
  constructor
  · exact ((hfirst.mono (c := a * 8) (d := (a + len) * 8) (by omega) (by omega)).trans
      (hbody.mono (by omega) (Nat.le_refl _))).trans (hlast.mono (Nat.le_refl _) (by omega))
  · intro cgrib' hsame
    have hlensec : gbit cgrib' (a * 8) 32 = len := by
      rw [← gbit_same hsame (Nat.le_refl _) (by omega)]
      exact gbit_sbit c' (a * 8) (by decide) (by decide) (Int.natCast_nonneg _) (by exact_mod_cast hlen')
    have hisecnum : gbit cgrib' (a * 8 + 32) 8 = num := by
      rw [← gbit_same hsame (by omega) (by omega), gbit_kept hlast (by omega), gbit_kept hbody (by omega)]
      exact gbit_sbit c _ (by decide) (by decide) (Int.natCast_nonneg _) (by exact_mod_cast hnum)
    refine ⟨by rw [lensec, hlensec, Int.toNat_natCast], by rw [isecnum, hisecnum, Int.toNat_natCast], ?_⟩
    exact (hlast.same (.inr (by omega))).trans (hsame.mono (by omega) (Nat.le_refl _))

end Frames

/-- A section of `len` bytes that was put at byte `a`, with nothing else changed. -/
structure Makes (c : Cgrib) (a len : Nat) (c' : Cgrib) (content : Content) : Prop where
  kept : Kept c c' (a * 8) ((a + len) * 8)
  pos : 0 < len
  solid : Solid c' a len content

/-- What a grid needs to be as its section can hold it. -/
structure Grid.Fits (g : Grid) : Prop where
  ngrdpts : 0 ≤ g.ngrdpts ∧ g.ngrdpts < 2 ^ 32
  numoct : 0 ≤ g.numoct_opt ∧ g.numoct_opt ≤ 7
  interp : 0 ≤ g.interp_opt ∧ g.interp_opt < 256
  template : ∀ t, getgridtemplate g.igdtnum = some t → Suits extgridtemplate t g.igdtmpl
  without : g.numoct_opt = 0 → g.list_opt = []
  list : g.numoct_opt ≠ 0 → g.list_opt ≠ [] ∧ ∀ x ∈ g.list_opt, 0 ≤ x ∧ x < 2 ^ (g.numoct_opt * 8).toNat

def FieldSpec.product (f : FieldSpec) : Product := ⟨f.ipdsnum, f.ipdstmpl, f.coordlist⟩

/-- The same of a field. -/
structure FieldSpec.Fits (f : FieldSpec) : Prop where
  template : ∀ t, getpdstemplate f.ipdsnum = some t → Suits extpdstemplate t f.ipdstmpl
  coords : f.coordlist.length < 2 ^ 16
  words : ∀ w ∈ f.coordlist, 0 ≤ w ∧ w < 2 ^ 32
  ngrdpts : f.ngrdpts < 2 ^ 32
  ibmap : 0 ≤ f.ibmap ∧ f.ibmap < 256
  packed : ∀ t packed, getdrstemplate f.idrsnum = some t → f.packed = .ok packed →
    Suits (fun t _ => t) t packed.1
  codes : ∀ ierr, f.packed = .error ierr → ierr < 0

theorem FieldSpec.Fits.ndpts {f : FieldSpec} (hf : f.Fits) : f.ndpts < 2 ^ 32 := by
  have hlt := hf.ngrdpts
  have htake := List.length_take_le f.ngrdpts f.bmap
  have hcount := List.countP_le_length (p := fun b => b = 1) (l := f.bmap.take f.ngrdpts)
  rw [FieldSpec.ndpts]
  split_ifs <;> omega

section Parts
variable {c c' : Cgrib} {a len : Nat} {content : Content} {g : Grid} {f : FieldSpec} {t : Gtemplate}

theorem Content.num_lt (content : Content) : content.num < 256 := by
  cases content <;> simp [Content.num]

theorem makes_of_body (hbody : Kept (beginSection c (a * 8) content.num) c' (a * 8 + 40) ((a + len) * 8))
    (hlen : 5 ≤ len) (hlen' : len < 2 ^ 32)
    (hat : ∀ cgrib', lensec cgrib' a = len → isecnum cgrib' a = content.num →
      SameBits c' cgrib' (a * 8 + 40) ((a + len) * 8) → content.At cgrib' a) :
    Makes c a len (endSection c' (a * 8) ((a + len) * 8)) content := by
  obtain ⟨hkept, hread⟩ := endSection_spec content.num_lt hbody hlen hlen'
  refine ⟨hkept, by omega, ?_⟩
  intro cgrib' hsame
  obtain ⟨hlensec, hisecnum, hrest⟩ := hread cgrib' hsame
  exact ⟨hlensec, hisecnum, hat cgrib' hlensec hisecnum hrest⟩

theorem load_same {bytes : List UInt8} (h : SameBits (store c a bytes) c' (a * 8) ((a + bytes.length) * 8)) :
    load c' a bytes.length = bytes := by
  have hload : load c' a bytes.length = load (store c a bytes) a bytes.length := by
    apply load_congr
    intro i hi
    exact (h.cell (by omega) (by omega)).symm
  rw [hload, load_store]

/-- A local section. -/
theorem local_makes (bytes : List UInt8) (hlen : bytes.length + 5 < 2 ^ 32) :
    Makes c a (bytes.length + 5) (endSection (store (beginSection c (a * 8) 2) (a + 5) bytes) (a * 8)
      ((a + (bytes.length + 5)) * 8)) (.loc bytes) := by
  have hstore := store_kept (beginSection c (a * 8) 2) (a + 5) bytes
  apply makes_of_body
  · exact hstore.mono (by omega) (by omega)
  · omega
  · exact hlen
  · intro cgrib' hlensec hisecnum hsame
    have hload : load cgrib' (a + 5) bytes.length = bytes :=
      load_same (hsame.mono (by omega) (by omega))
    have hsize : ((bytes.length + 5 : Nat) : Int) - 5 = bytes.length := by omega
    rw [Content.At, g2_unpack2, hlensec, hisecnum]
    simp only [hsize, Int.toNat_natCast, hload]
    rw [if_neg (by simp [Content.num]), if_neg (by omega)]

/-- The data of a field. -/
theorem section7_makes (bytes : List UInt8) (hlen : bytes.length + 5 < 2 ^ 32) :
    (section7 c (a * 8) bytes).2 = (a + (bytes.length + 5)) * 8 ∧
      Makes c a (bytes.length + 5) (section7 c (a * 8) bytes).1 .data := by
  have hend : a * 8 + 40 + 8 * bytes.length = (a + (bytes.length + 5)) * 8 := by omega
  have hstart : (a * 8 + 40) / 8 = a + 5 := by omega
  simp only [section7, hend, hstart, true_and]
  have hstore := store_kept (beginSection c (a * 8) 7) (a + 5) bytes
  apply makes_of_body
  · exact hstore.mono (by omega) (by omega)
  · omega
  · exact hlen
  · intros
    trivial

/-- Where a bitmap ends, before and after its last byte is filled up. -/
theorem bitmap_kept (c : Cgrib) (a : Nat) (f : FieldSpec) :
    Kept (beginSection c (a * 8) 6) (bitmap c (a * 8) f) (a * 8 + 40)
        (if f.ibmap = 0 then a * 8 + 48 + f.ngrdpts else a * 8 + 48) ∧
      (f.Fits → gbit (bitmap c (a * 8) f) (a * 8 + 40) 8 = f.ibmap) := by
  have hhead := sbit_kept (beginSection c (a * 8) 6) f.ibmap (a * 8 + 40) (n := 8) (by decide)
  have hread : f.Fits → gbit (sbit (beginSection c (a * 8) 6) f.ibmap (a * 8 + 40) 8) (a * 8 + 40) 8 = f.ibmap :=
    fun hf => gbit_sbit _ _ (by decide) (by decide) hf.ibmap.1 hf.ibmap.2
  simp only [bitmap]
  by_cases h0 : f.ibmap = 0
  · rw [if_pos h0, if_pos h0]
    have hbits := sbits_kept (sbit (beginSection c (a * 8) 6) f.ibmap (a * 8 + 40) 8) (a * 8 + 48)
      (n := 1) (by decide) (f.bmap.take f.ngrdpts)
    have htake := List.length_take_le f.ngrdpts f.bmap
    constructor
    · exact hhead.append (hbits.mono (Nat.le_refl _) (by omega)) (by omega) (by omega)
    · intro hf
      rw [gbit_kept hbits (by omega), hread hf]
  · rw [if_neg h0, if_neg h0]
    exact ⟨hhead, hread⟩

/-- The bitmap indicator of a field, whatever bitmap follows it. -/
theorem section6_makes (hf : f.Fits) :
    ∃ len, (section6 c (a * 8) f).2 = (a + len) * 8 ∧ Makes c a len (section6 c (a * 8) f).1 (.bitmap f.ibmap) := by
  obtain ⟨hkept, hread⟩ := bitmap_kept c a f
  have hread := hread hf
  have hlen := hf.ngrdpts
  simp only [section6]
  obtain ⟨iofst, hiofst⟩ : ∃ iofst, iofst = if f.ibmap = 0 then a * 8 + 48 + f.ngrdpts else a * 8 + 48 := ⟨_, rfl⟩
  rw [← hiofst] at hkept ⊢
  have hbounds : a * 8 + 48 ≤ iofst ∧ iofst ≤ a * 8 + 48 + f.ngrdpts := by
    rw [hiofst]
    split_ifs <;> omega
  by_cases hleft : 8 - iofst % 8 ≠ 8
  · rw [if_pos hleft, if_pos hleft]
    have hpad := sbit_kept (bitmap c (a * 8) f) 0 iofst (n := 8 - iofst % 8) (by omega)
    obtain ⟨n, hend⟩ : ∃ n, iofst + (8 - iofst % 8) = (a + n) * 8 :=
      ⟨(iofst + (8 - iofst % 8)) / 8 - a, by omega⟩
    refine ⟨n, hend, ?_⟩
    rw [hend] at hpad ⊢
    apply makes_of_body
    · exact hkept.append hpad (by omega) (by omega)
    · omega
    · omega
    · intro cgrib' _ _ hsame
      rw [Content.At, ← gbit_same hsame (Nat.le_refl _) (by omega), gbit_kept hpad (by omega), hread]
  · rw [if_neg hleft, if_neg hleft]
    obtain ⟨n, hend⟩ : ∃ n, iofst = (a + n) * 8 := ⟨iofst / 8 - a, by omega⟩
    refine ⟨n, hend, ?_⟩
    rw [hend] at hkept ⊢
    apply makes_of_body
    · exact hkept
    · omega
    · omega
    · intro cgrib' _ _ hsame
      rw [Content.At, ← gbit_same hsame (Nat.le_refl _) (by omega), hread]

/-- A product template whose extension is as long as its values say is read back without a store
outside its block. -/
theorem faults_packed {number : Int} {p : Nat} {vs : List Int} (ht : getpdstemplate number = some t)
    (hvs : Suits extpdstemplate t vs) (h : SameBits (packEntries c p (mapOf extpdstemplate t vs) vs) c' p
      (p + octets (mapOf extpdstemplate t vs) * 8)) : t.faults (unpackEntries c' p t.map) = false := by
  rw [Gtemplate.faults, Bool.and_eq_false_iff]
  by_cases hext : t.needext = true
  · have hinside := stored_inside (hvs.length hext).symm
    rw [← extend_packed extpdstemplate_extension templatespds_sound ht hvs h hext] at hinside
    exact .inr (decide_eq_false (not_not.2 hinside))
  · exact .inl (Bool.eq_false_iff.2 hext)

/-- The product of a field. -/
theorem section4_makes (hf : f.Fits) (ht : getpdstemplate f.ipdsnum = some t)
    (hlen : octets (mapOf extpdstemplate t f.ipdstmpl) < 2 ^ 31) :
    (section4 c (a * 8) f t).2 =
        (a + (9 + octets (mapOf extpdstemplate t f.ipdstmpl) + 4 * f.coordlist.length)) * 8 ∧
      Makes c a (9 + octets (mapOf extpdstemplate t f.ipdstmpl) + 4 * f.coordlist.length)
        (section4 c (a * 8) f t).1 (.prod f.product) := by
  have hentries := mapOf_entries extpdstemplate_extension templatespds_sound ht f.ipdstmpl
  obtain ⟨map, hmap⟩ : ∃ map, map = mapOf extpdstemplate t f.ipdstmpl := ⟨_, rfl⟩
  have hend : a * 8 + 72 + octets map * 8 + 32 * f.coordlist.length =
      (a + (9 + octets map + 4 * f.coordlist.length)) * 8 := by omega
  simp only [section4, productHead]
  rw [← hmap] at hlen hentries ⊢
  rw [hend]
  refine ⟨rfl, ?_⟩
  have hnumcoord := sbit_kept (beginSection c (a * 8) 4) f.coordlist.length (a * 8 + 40) (n := 16) (by decide)
  obtain ⟨c1, hc1⟩ : ∃ c1, c1 = sbit (beginSection c (a * 8) 4) f.coordlist.length (a * 8 + 40) 16 := ⟨_, rfl⟩
  have hread1 : gbit c1 (a * 8 + 40) 16 = f.coordlist.length := by
    rw [hc1]
    exact gbit_sbit _ _ (by decide) (by decide) (Int.natCast_nonneg _) (by exact_mod_cast hf.coords)
  rw [← hc1] at hnumcoord ⊢
  have hpdsnum := sbit_kept c1 f.ipdsnum (a * 8 + 56) (n := 16) (by decide)
  obtain ⟨c2, hc2⟩ : ∃ c2, c2 = sbit c1 f.ipdsnum (a * 8 + 56) 16 := ⟨_, rfl⟩
  have hread2 : gbit c2 (a * 8 + 56) 16 = f.ipdsnum := by
    have hnum : 0 ≤ f.ipdsnum ∧ f.ipdsnum < 2 ^ 16 := by
      obtain ⟨row, hrow, _, hnumber⟩ := gettemplate_row templatespds_sound ht
      have hnums : ∀ row ∈ templatespds, row.template_num < 2 ^ 16 := by decide
      have hlt := hnums row hrow
      omega
    rw [hc2]
    exact gbit_sbit _ _ (by decide) (by decide) hnum.1 hnum.2
  rw [← hc2] at hpdsnum ⊢
  have htmpl := packEntries_kept c2 (a * 8 + 72) f.ipdstmpl (fun m hm => (hentries m hm).1)
  obtain ⟨c3, hc3⟩ : ∃ c3, c3 = packEntries c2 (a * 8 + 72) map f.ipdstmpl := ⟨_, rfl⟩
  rw [← hc3] at htmpl ⊢
  have hcoords := sbits_kept c3 (a * 8 + 72 + octets map * 8) (n := 32) (by decide) f.coordlist
  obtain ⟨c4, hc4⟩ : ∃ c4, c4 = sbits c3 (a * 8 + 72 + octets map * 8) 32 0 f.coordlist := ⟨_, rfl⟩
  rw [← hc4, hend] at hcoords
  rw [← hc4]
  apply makes_of_body
  · exact ((hnumcoord.append hpdsnum (by omega) (by omega)).append htmpl (by omega) (by omega)).append
      hcoords (by omega) (by omega)
  · omega
  · have hcoordslt := hf.coords
    omega
  · intro cgrib' _ hisecnum hsame
    have h1 : gbit cgrib' (a * 8 + 40) 16 = f.coordlist.length := by
      rw [← gbit_same hsame (Nat.le_refl _) (by omega), gbit_kept hcoords (by omega),
        gbit_kept htmpl (by omega), gbit_kept hpdsnum (by omega), hread1]
    have h2 : gbit cgrib' (a * 8 + 56) 16 = f.ipdsnum := by
      rw [← gbit_same hsame (by omega) (by omega), gbit_kept hcoords (by omega),
        gbit_kept htmpl (by omega), hread2]
    have hpacked : SameBits (packEntries c2 (a * 8 + 72) (mapOf extpdstemplate t f.ipdstmpl) f.ipdstmpl) cgrib'
        (a * 8 + 72) (a * 8 + 72 + octets (mapOf extpdstemplate t f.ipdstmpl) * 8) := by
      rw [← hmap, ← hc3]
      exact (hcoords.same (.inl (by omega))).trans (hsame.mono (by omega) (by omega))
    have h3 : unpackTemplate extpdstemplate cgrib' (a * 8 + 72) t = (f.ipdstmpl, octets map) := by
      rw [hmap]
      exact unpackTemplate_packed extpdstemplate_extension templatespds_sound ht (hf.template t ht) hpacked
    have h4 : gbits cgrib' (a * 8 + 72 + octets map * 8) 32 0 f.coordlist.length = f.coordlist := by
      apply gbits_packed (c := c3) (by decide) (by decide) hf.words
      rw [← hc4]
      exact hsame.mono (by omega) (by omega)
    have h5 : t.faults (unpackEntries cgrib' (a * 8 + 72) t.map) = false :=
      faults_packed ht (hf.template t ht) hpacked
    rw [Content.At, g2_unpack4, if_neg (by simp [hisecnum, Content.num]), h1, h2]
    simp only [ht, h3, h5, Int.toNat_natCast, h4]
    rfl

theorem mapOf_drs {number : Int} (ht : getdrstemplate number = some t) (vs : List Int) :
    mapOf (fun t _ => t) t vs = t.map := by
  obtain ⟨row, _, rfl, _⟩ := gettemplate_row templatesdrs_sound ht
  simp [mapOf]

/-- How the data of a field are packed. -/
theorem section5_makes (hf : f.Fits) (ht : getdrstemplate f.idrsnum = some t)
    {packed : List Int × List UInt8} (hpacked : f.packed = .ok packed) :
    (section5 c (a * 8) f t packed.1).2 = (a + (11 + octets t.map)) * 8 ∧
      Makes c a (11 + octets t.map) (section5 c (a * 8) f t packed.1).1
        (.pack ⟨f.ndpts, f.idrsnum, packed.1⟩) := by
  have hentries := mapOf_entries extdrstemplate_extension templatesdrs_sound ht packed.1
  have hmap := mapOf_drs ht packed.1
  rw [hmap] at hentries
  have hend : a * 8 + 88 + octets t.map * 8 = (a + (11 + octets t.map)) * 8 := by omega
  have hrow : (0 ≤ f.idrsnum ∧ f.idrsnum < 2 ^ 16) ∧ octets t.map < 2 ^ 16 := by
    obtain ⟨row, hrow, rfl, hnumber⟩ := gettemplate_row templatesdrs_sound ht
    have hnums : ∀ row ∈ templatesdrs, row.template_num < 2 ^ 16 ∧ octets row.map < 2 ^ 16 := by decide
    have hlt := hnums row hrow
    exact ⟨by omega, hlt.2⟩
  simp only [section5]
  rw [hend]
  refine ⟨rfl, ?_⟩
  have hndpts := sbit_kept (beginSection c (a * 8) 5) f.ndpts (a * 8 + 40) (n := 32) (by decide)
  obtain ⟨c1, hc1⟩ : ∃ c1, c1 = sbit (beginSection c (a * 8) 5) f.ndpts (a * 8 + 40) 32 := ⟨_, rfl⟩
  have hread1 : gbit c1 (a * 8 + 40) 32 = f.ndpts := by
    rw [hc1]
    exact gbit_sbit _ _ (by decide) (by decide) (Int.natCast_nonneg _) (by exact_mod_cast hf.ndpts)
  rw [← hc1] at hndpts ⊢
  have hdrsnum := sbit_kept c1 f.idrsnum (a * 8 + 72) (n := 16) (by decide)
  obtain ⟨c2, hc2⟩ : ∃ c2, c2 = sbit c1 f.idrsnum (a * 8 + 72) 16 := ⟨_, rfl⟩
  have hread2 : gbit c2 (a * 8 + 72) 16 = f.idrsnum := by
    rw [hc2]
    exact gbit_sbit _ _ (by decide) (by decide) hrow.1.1 hrow.1.2
  rw [← hc2] at hdrsnum ⊢
  have htmpl := packEntries_kept c2 (a * 8 + 88) packed.1 (fun m hm => (hentries m hm).1)
  obtain ⟨c3, hc3⟩ : ∃ c3, c3 = packEntries c2 (a * 8 + 88) t.map packed.1 := ⟨_, rfl⟩
  rw [← hc3, hend] at htmpl
  rw [← hc3]
  apply makes_of_body
  · exact (hndpts.append hdrsnum (by omega) (by omega)).append htmpl (by omega) (by omega)
  · omega
  · omega
  · intro cgrib' _ hisecnum hsame
    have h1 : gbit cgrib' (a * 8 + 40) 32 = f.ndpts := by
      rw [← gbit_same hsame (Nat.le_refl _) (by omega), gbit_kept htmpl (by omega),
        gbit_kept hdrsnum (by omega), hread1]
    have h2 : gbit cgrib' (a * 8 + 72) 16 = f.idrsnum := by
      rw [← gbit_same hsame (by omega) (by omega), gbit_kept htmpl (by omega), hread2]
    have h3 : unpackTemplate (fun t _ => t) cgrib' (a * 8 + 88) t = (packed.1, octets t.map) := by
      rw [← hmap]
      apply unpackTemplate_packed (c := c2) extdrstemplate_extension templatesdrs_sound ht
        (hf.packed t packed ht hpacked)
      rw [hmap, ← hc3]
      exact hsame.mono (by omega) (by omega)
    rw [Content.At, g2_unpack5, if_neg (by simp [hisecnum, Content.num]), h1, h2]
    simp only [ht, h3]

/-- The head of a grid, each of its numbers where `g2_unpack3` takes it. -/
structure GridHead (cgrib : Cgrib) (a : Nat) (g : Grid) : Prop where
  griddef : gbit cgrib (a * 8 + 40) 8 = g.griddef
  ngrdpts : gbit cgrib (a * 8 + 48) 32 = g.ngrdpts
  numoct : gbit cgrib (a * 8 + 80) 8 = g.numoct_opt
  interp : gbit cgrib (a * 8 + 88) 8 = g.interp_opt
  igdtnum : gbit cgrib (a * 8 + 96) 16 = g.igdtnum

theorem GridHead.same (h : GridHead c a g) (hs : SameBits c c' (a * 8 + 40) (a * 8 + 112)) :
    GridHead c' a g := by
  have hsame : ∀ {p n}, a * 8 + 40 ≤ p → p + n ≤ a * 8 + 112 → gbit c' p n = gbit c p n :=
    fun hp hn => (gbit_same hs hp hn).symm
  constructor
  · rw [hsame (by omega) (by omega), h.griddef]
  · rw [hsame (by omega) (by omega), h.ngrdpts]
  · rw [hsame (by omega) (by omega), h.numoct]
  · rw [hsame (by omega) (by omega), h.interp]
  · rw [hsame (by omega) (by omega), h.igdtnum]

theorem igdtnum_bounds {number : Int} (ht : getgridtemplate number = some t) :
    0 ≤ number ∧ number < 65535 := by
  obtain ⟨row, hrow, _, hnumber⟩ := gettemplate_row templatesgrid_sound ht
  have hnums : ∀ row ∈ templatesgrid, row.template_num < 65535 := by decide
  have hlt := hnums row hrow
  omega

theorem gridHead_spec (c : Cgrib) (a : Nat) (hf : g.Fits) (hdef : g.griddef = 0)
    (ht : getgridtemplate g.igdtnum = some t) :
    Kept (beginSection c (a * 8) 3) (gridHead c (a * 8) g) (a * 8 + 40) (a * 8 + 112) ∧
      GridHead (gridHead c (a * 8) g) a g := by
  have hnum := igdtnum_bounds ht
  obtain ⟨hnumoct0, hnumoct7⟩ := hf.numoct
  simp only [gridHead, if_pos hdef]
  generalize beginSection c (a * 8) 3 = c0
  have k1 := sbit_kept c0 g.griddef (a * 8 + 40) (n := 8) (by decide)
  have r1 : gbit (sbit c0 g.griddef (a * 8 + 40) 8) (a * 8 + 40) 8 = g.griddef :=
    gbit_sbit _ _ (by decide) (by decide) (by omega) (by omega)
  generalize sbit c0 g.griddef (a * 8 + 40) 8 = c1 at k1 r1 ⊢
  have k2 := sbit_kept c1 g.ngrdpts (a * 8 + 48) (n := 32) (by decide)
  have r2 : gbit (sbit c1 g.ngrdpts (a * 8 + 48) 32) (a * 8 + 48) 32 = g.ngrdpts :=
    gbit_sbit _ _ (by decide) (by decide) hf.ngrdpts.1 hf.ngrdpts.2
  generalize sbit c1 g.ngrdpts (a * 8 + 48) 32 = c2 at k2 r2 ⊢
  have k3 := sbit_kept c2 g.numoct_opt (a * 8 + 80) (n := 8) (by decide)
  have r3 : gbit (sbit c2 g.numoct_opt (a * 8 + 80) 8) (a * 8 + 80) 8 = g.numoct_opt :=
    gbit_sbit _ _ (by decide) (by decide) hnumoct0 (by omega)
  generalize sbit c2 g.numoct_opt (a * 8 + 80) 8 = c3 at k3 r3 ⊢
  have k4 := sbit_kept c3 g.interp_opt (a * 8 + 88) (n := 8) (by decide)
  have r4 : gbit (sbit c3 g.interp_opt (a * 8 + 88) 8) (a * 8 + 88) 8 = g.interp_opt :=
    gbit_sbit _ _ (by decide) (by decide) hf.interp.1 hf.interp.2
  generalize sbit c3 g.interp_opt (a * 8 + 88) 8 = c4 at k4 r4 ⊢
  have k5 := sbit_kept c4 g.igdtnum (a * 8 + 96) (n := 16) (by decide)
  have r5 : gbit (sbit c4 g.igdtnum (a * 8 + 96) 16) (a * 8 + 96) 16 = g.igdtnum :=
    gbit_sbit _ _ (by decide) (by decide) hnum.1 (by omega)
  generalize sbit c4 g.igdtnum (a * 8 + 96) 16 = c5 at k5 r5 ⊢
  constructor
  · exact (((k1.append k2 (by omega) (by omega)).append k3 (by omega) (by omega)).append k4 (by omega)
      (by omega)).append k5 (by omega) (by omega)
  · constructor
    · rw [gbit_kept k5 (by omega), gbit_kept k4 (by omega), gbit_kept k3 (by omega),
        gbit_kept k2 (by omega), r1]
    · rw [gbit_kept k5 (by omega), gbit_kept k4 (by omega), gbit_kept k3 (by omega), r2]
    · rw [gbit_kept k5 (by omega), gbit_kept k4 (by omega), r3]
    · rw [gbit_kept k5 (by omega), r4]
    · exact r5

/-- The optional list of a grid is found by its length again. -/
theorem optionalList_packed {cgrib' : Cgrib} {ibyttem : Nat} (hf : g.Fits)
    (hlensec : lensec cgrib' a = 14 + ibyttem + g.numoct_opt.toNat * g.list_opt.length)
    (h : g.numoct_opt ≠ 0 → SameBits (sbits c (a * 8 + 112 + ibyttem * 8) (g.numoct_opt * 8).toNat 0
      g.list_opt) cgrib' (a * 8 + 112 + ibyttem * 8) (a * 8 + 112 + ibyttem * 8 +
        (g.numoct_opt * 8).toNat * g.list_opt.length)) :
    optionalList cgrib' a g.numoct_opt ibyttem = .ok g.list_opt := by
  obtain ⟨hnumoct0, hnumoct7⟩ := hf.numoct
  rw [optionalList]
  by_cases h0 : g.numoct_opt = 0
  · rw [if_neg (not_not.2 h0), hf.without h0]
  · obtain ⟨hne, hfits⟩ := hf.list h0
    have hpos := List.length_pos_iff.2 hne
    have hnum : ((lensec cgrib' a : Int) - 14 - ibyttem).tdiv g.numoct_opt = g.list_opt.length := by
      have hcast : (lensec cgrib' a : Int) - 14 - ibyttem = g.numoct_opt * g.list_opt.length := by
        rw [hlensec]
        push_cast
        rw [Int.toNat_of_nonneg hnumoct0]
        ring
      rw [hcast, Int.mul_tdiv_cancel_left _ h0]
    have hwidth : (g.numoct_opt * 8).toNat = g.numoct_opt.toNat * 8 := by omega
    have hread := gbits_packed (c := c) (n := (g.numoct_opt * 8).toNat) (by omega) (by omega) hfits (h h0)
    rw [if_pos h0]
    simp only [hnum]
    rw [if_pos (by omega), Int.toNat_natCast, ← hwidth, hread]

/-- A grid definition. -/
theorem grid_makes (hf : g.Fits) (hdef : g.griddef = 0) (ht : getgridtemplate g.igdtnum = some t)
    {map : List Int} (hmap : map = mapOf extgridtemplate t g.igdtmpl)
    (hlen : 14 + octets map + g.numoct_opt.toNat * g.list_opt.length < 2 ^ 32) {c1 c2 : Cgrib}
    (hc1 : c1 = packEntries (gridHead c (a * 8) g) (a * 8 + 112) map g.igdtmpl)
    (hc2 : c2 = if g.numoct_opt ≠ 0 then
      sbits c1 (a * 8 + 112 + octets map * 8) (g.numoct_opt * 8).toNat 0 g.list_opt else c1) :
    Makes c a (14 + octets map + g.numoct_opt.toNat * g.list_opt.length)
      (endSection c2 (a * 8) ((a + (14 + octets map + g.numoct_opt.toNat * g.list_opt.length)) * 8))
      (.grid g) := by
  obtain ⟨hnumoct0, hnumoct7⟩ := hf.numoct
  obtain ⟨hhead, hgrid⟩ := gridHead_spec c a hf hdef ht
  have hnum := igdtnum_bounds ht
  have hentries := mapOf_entries extgridtemplate_extension templatesgrid_sound ht g.igdtmpl
  rw [← hmap] at hentries
  have htmpl := packEntries_kept (gridHead c (a * 8) g) (a * 8 + 112) g.igdtmpl
    (fun m hm => (hentries m hm).1)
  rw [← hc1] at htmpl
  have hend : a * 8 + 112 + octets map * 8 + (g.numoct_opt * 8).toNat * g.list_opt.length =
      (a + (14 + octets map + g.numoct_opt.toNat * g.list_opt.length)) * 8 := by
    have hwidth : (g.numoct_opt * 8).toNat = 8 * g.numoct_opt.toNat := by omega
    rw [hwidth, Nat.mul_assoc]
    omega
  have hlist : Kept c1 c2 (a * 8 + 112 + octets map * 8)
      ((a + (14 + octets map + g.numoct_opt.toNat * g.list_opt.length)) * 8) := by
    rw [hc2]
    by_cases h0 : g.numoct_opt ≠ 0
    · rw [if_pos h0, ← hend]
      exact sbits_kept c1 _ (by omega) g.list_opt
    · rw [if_neg h0]
      exact Kept.refl c1 _ _
  apply makes_of_body
  · exact (hhead.append htmpl (by omega) (by omega)).append hlist (by omega) (by omega)
  · omega
  · exact hlen
  · intro cgrib' hlensec hisecnum hsame
    have hhead' : GridHead cgrib' a g :=
      hgrid.same (((htmpl.same (.inl (Nat.le_refl _))).trans (hlist.same (.inl (by omega)))).trans
        (hsame.mono (Nat.le_refl _) (by omega)))
    have htmpl' : unpackTemplate extgridtemplate cgrib' (a * 8 + 112) t = (g.igdtmpl, octets map) := by
      rw [hmap]
      apply unpackTemplate_packed (c := gridHead c (a * 8) g) extgridtemplate_extension templatesgrid_sound
        ht (hf.template t ht)
      rw [← hmap, ← hc1]
      exact (hlist.same (.inl (Nat.le_refl _))).trans (hsame.mono (by omega) (by omega))
    have hlist' : optionalList cgrib' a g.numoct_opt (octets map) = .ok g.list_opt := by
      apply optionalList_packed (c := c1) hf hlensec
      intro h0
      rw [if_pos h0] at hc2
      rw [← hc2, hend]
      exact hsame.mono (by omega) (by omega)
    rw [Content.At, g2_unpack3, if_neg (by simp [hisecnum, Content.num])]
    simp only [hhead'.griddef, hhead'.ngrdpts, hhead'.numoct, hhead'.interp, hhead'.igdtnum, ht, htmpl',
      hlist']
    rw [if_pos (by omega)]
    rfl

end Parts
end Noaaport.G2
