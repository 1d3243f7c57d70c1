import Noaaport.Grib2Compose

/-! What the calls of `g2_create`, `g2_addlocal`, `g2_addgrid` and `g2_addfield` do to a message: each adds
its sections to those that are there. -/
namespace Noaaport.G2
open Lib

section Layouts
variable {c c' : Cgrib} {a b d len : Nat} {cs ds : List Content} {content : Content}

theorem Solid.same (h : Solid c a len content) (hs : SameBits c c' (a * 8) ((a + len) * 8)) :
    Solid c' a len content := fun cgrib' hs' => h cgrib' (hs.trans hs')

theorem Layout.le (h : Layout c a cs b) : a ≤ b := by
  induction h with
  | nil => exact Nat.le_refl _
  | cons _ _ _ ih => omega

theorem Layout.lt (h : Layout c a cs b) (hne : cs ≠ []) : a < b := by
  cases h with
  | nil => exact absurd rfl hne
  | cons hpos _ rest =>
    have hle := rest.le
    omega

theorem Layout.same (h : Layout c a cs b) (hs : SameBits c c' (a * 8) (b * 8)) : Layout c' a cs b := by
  induction h with
  | nil a => exact .nil a
  | cons hpos hsolid rest ih =>
    have hle := rest.le
    exact .cons hpos (hsolid.same (hs.mono (Nat.le_refl _) (by omega))) (ih (hs.mono (by omega) (Nat.le_refl _)))

theorem Layout.append (h : Layout c a cs b) (h' : Layout c b ds d) : Layout c a (cs ++ ds) d := by
  induction h with
  | nil => exact h'
  | cons hpos hsolid _ ih => exact .cons hpos hsolid (ih h')

theorem Makes.layout (h : Makes c a len c' content) : Layout c' a [content] (a + len) :=
  .cons h.pos h.solid (.nil _)

theorem Solid.header (h : Solid c a len content) :
    lensec c a = len ∧ isecnum c a = content.num ∧ content.At c a := h c (SameBits.refl c _ _)

end Layouts

section Writing
variable {c c' c1 : Cgrib} {disc : Int} {len newlen a b fuel : Nat} {seen : Seen}
  {cs new : List Content} {ids : List Int}

/-- What the sections leave with `Seen`. -/
def Content.see (seen : Seen) : Content → Seen
  | .grid _ => { seen with issec3 := true }
  | .bitmap ibmap => if ibmap ≤ 253 then { seen with isprevbmap := true } else seen
  | _ => seen

theorem Solid.see {content : Content} (h : Solid c a len content) (seen : Seen) :
    seen.see c a = content.see seen := by
  obtain ⟨_, hnum, hat⟩ := h.header
  cases content with
  | bitmap ibmap =>
    have hat : gbit c (a * 8 + 40) 8 = ibmap := hat
    simp [Seen.see, Content.see, hnum, Content.num, hat]
  | _ => simp [Seen.see, Content.see, hnum, Content.num]

/-- The loop over the sections ends at the last one. -/
theorem lastSection_layout (h : Layout c a (cs ++ [content]) b) (seen : Seen) :
    ∃ fuel, walk (sumTurn c b) fuel a seen =
      some (.ok (content.num, (cs ++ [content]).foldl Content.see seen)) := by
  induction cs generalizing a seen with
  | nil =>
    cases h with
    | cons hpos hsolid rest =>
      cases rest
      obtain ⟨hlen, hnum, _⟩ := hsolid.header
      refine ⟨1, walk_out ?_⟩
      rw [sumTurn, hlen, hnum, hsolid.see]
      simp
  | cons first cs ih =>
    cases h with
    | @cons _ _ len _ _ hpos hsolid rest =>
      have hlt : a + len < b := rest.lt (by simp)
      obtain ⟨fuel, hwalk⟩ := ih rest (first.see seen)
      obtain ⟨hlen, hnum, _⟩ := hsolid.header
      refine ⟨fuel + 1, ?_⟩
      rw [@walk_on _ _ _ _ _ len _ (first.see seen), hwalk]
      · rfl
      · rw [sumTurn, hlen, hsolid.see, if_neg (by omega), if_neg (by omega)]

/-- A message under construction: its indicator, its current length and the sections so far. -/
structure Composed (c : Cgrib) (disc : Int) (cs : List Content) (len : Nat) : Prop where
  grib : isGrib c 0 = true
  disc : gbit c 48 8 = disc
  edition : gbit c 56 8 = 2
  length : lencurr c = len
  layout : Layout c 16 cs len

theorem setLength_kept (c : Cgrib) (len : Nat) : Kept c (setLength c len) 96 128 :=
  sbit_kept c len 96 (n := 32) (by decide)

theorem lencurr_setLength (c : Cgrib) (h : len < 2 ^ 32) : lencurr (setLength c len) = len := by
  rw [lencurr, setLength, gbit_sbit c 96 (by decide) (by decide) (Int.natCast_nonneg _) (by exact_mod_cast h),
    Int.toNat_natCast]

theorem isGrib_same (h : SameBits c c' 0 32) : isGrib c 0 = isGrib c' 0 := by
  have hcell : ∀ i < 4, c i = c' i := fun i hi => h.cell (by omega) (by omega)
  rw [isGrib, isGrib, Nat.zero_add, Nat.zero_add, Nat.zero_add, hcell 0 (by decide), hcell 1 (by decide),
    hcell 2 (by decide), hcell 3 (by decide)]

/-- More sections behind a message, and its length with them. -/
theorem Composed.extend (h : Composed c disc cs len) (hkept : Kept c c1 (len * 8) (newlen * 8))
    (hnew : Layout c1 len new newlen) (hlt : newlen < 2 ^ 32) :
    Composed (setLength c1 newlen) disc (cs ++ new) newlen := by
  have hlen := h.layout.le
  have hset := setLength_kept c1 newlen
  have hfront : SameBits c (setLength c1 newlen) 0 96 :=
    (hkept.same (.inl (by omega))).trans (hset.same (.inl (by omega)))
  constructor
  · rw [← isGrib_same (hfront.mono (Nat.le_refl _) (by omega)), h.grib]
  · rw [← gbit_same hfront (by omega) (by omega), h.disc]
  · rw [← gbit_same hfront (by omega) (by omega), h.edition]
  · exact lencurr_setLength c1 hlt
  · have hold : Layout (setLength c1 newlen) 16 cs len :=
      h.layout.same ((hkept.same (.inl (Nat.le_refl _))).trans (hset.same (.inr (by omega))))
    exact hold.append (hnew.same (hset.same (.inr (by omega))))

/-- The kind of the last section, and what was seen, as the checks of every call find them. -/
theorem Composed.last {content : Content} (h : Composed c disc (cs ++ [content]) len)
    {r : Except Int (Nat × Seen)} (hr : lastSection fuel c = some r) :
    r = .ok (content.num, (cs ++ [content]).foldl Content.see ⟨false, false⟩) := by
  obtain ⟨fuel', hwalk⟩ := lastSection_layout h.layout ⟨false, false⟩
  rw [lastSection, h.length] at hr
  exact walk_unique hr hwalk

theorem Composed.open {content : Content} (h : Composed c disc (cs ++ [content]) len)
    {r : Except Int (Nat × Seen)} (hr : openMessage fuel c = some r) :
    r = .error (-2) ∨ r = .ok (content.num, (cs ++ [content]).foldl Content.see ⟨false, false⟩) := by
  rw [openMessage, if_neg (by simp [h.grib])] at hr
  split_ifs at hr
  · exact .inl (Option.some.inj hr).symm
  · exact .inr (h.last hr)

theorem Layout.make {content : Content} (h : Layout c a cs b) (hm : Makes c b len c' content) :
    Layout c' a (cs ++ [content]) (b + len) :=
  (h.same (hm.kept.same (.inl (Nat.le_refl _)))).append hm.layout

/-- A call between `g2_create` and `g2_gribend`. -/
inductive Call where
  | loc (csec2 : List UInt8)
  | grid (g : Grid)
  | field (f : FieldSpec)

def Call.perform (fuel : Nat) (cgrib : Cgrib) : Call → Option (Cgrib × Int)
  | .loc csec2 => g2_addlocal fuel cgrib csec2
  | .grid g => g2_addgrid fuel cgrib g
  | .field f => g2_addfield fuel cgrib f

def Call.Fits : Call → Prop
  | .loc _ => True
  | .grid g => g.Fits
  | .field f => f.Fits

/-- The sections a call adds. -/
def Call.contents : Call → List Content
  | .loc csec2 => [.loc csec2]
  | .grid g => [.grid g]
  | .field f =>
    match f.packed with
    | .error _ => []
    | .ok packed => [.prod f.product, .pack ⟨f.ndpts, f.idrsnum, packed.1⟩, .bitmap f.ibmap, .data]

theorem addlocal_composed {content : Content} {csec2 : List UInt8} {ret : Int}
    (h : Composed c disc (cs ++ [content]) len) (hcall : g2_addlocal fuel c csec2 = some (c', ret))
    (hpos : 0 < ret) (hlt : ret < 2 ^ 31) :
    Composed c' disc (cs ++ [content] ++ [.loc csec2]) ret.toNat := by
  rw [g2_addlocal] at hcall
  cases hopen : openMessage fuel c with
  | none => simp [hopen] at hcall
  | some r =>
    rcases h.open hopen with rfl | rfl
    · simp only [hopen, Option.some.injEq, Prod.mk.injEq] at hcall
      omega
    · simp only [hopen, h.length] at hcall
      split_ifs at hcall
      · simp only [Option.some.injEq, Prod.mk.injEq] at hcall
        omega
      · have hend : len * 8 + 40 + csec2.length * 8 = (len + (csec2.length + 5)) * 8 := by omega
        have hbytes : ((len + (csec2.length + 5)) * 8 - len * 8) / 8 = csec2.length + 5 := by omega
        simp only [hend, hbytes, Option.some.injEq, Prod.mk.injEq] at hcall
        obtain ⟨rfl, rfl⟩ := hcall
        have hmakes := local_makes (c := c) (a := len) csec2 (by omega)
        rw [Int.toNat_natCast]
        exact h.extend hmakes.kept hmakes.layout (by omega)

theorem addgrid_composed {content : Content} {g : Grid} {ret : Int}
    (h : Composed c disc (cs ++ [content]) len) (hfits : g.Fits)
    (hcall : g2_addgrid fuel c g = some (c', ret)) (hpos : 0 < ret) (hlt : ret < 2 ^ 31) :
    Composed c' disc (cs ++ [content] ++ [.grid g]) ret.toNat := by
  rw [g2_addgrid] at hcall
  cases hopen : openMessage fuel c with
  | none => simp [hopen] at hcall
  | some r =>
    rcases h.open hopen with rfl | rfl
    · simp only [hopen, Option.some.injEq, Prod.mk.injEq] at hcall
      omega
    · simp only [hopen, h.length] at hcall
      by_cases hlast : content.num ≠ 1 ∧ content.num ≠ 2 ∧ content.num ≠ 7
      · rw [if_pos hlast] at hcall
        simp only [Option.some.injEq, Prod.mk.injEq] at hcall
        omega
      · rw [if_neg hlast] at hcall
        by_cases hdef : g.griddef ≠ 0
        · rw [if_pos hdef] at hcall
          simp at hcall
        rw [if_neg hdef] at hcall
        cases ht : getgridtemplate g.igdtnum with
        | none =>
          simp only [ht, Option.some.injEq, Prod.mk.injEq] at hcall
          omega
        | some t =>
          simp only [ht] at hcall
          obtain ⟨map, hmap⟩ : ∃ map, map = mapOf extgridtemplate t g.igdtmpl := ⟨_, rfl⟩
          have hend : (if g.numoct_opt ≠ 0 then
                len * 8 + 112 + octets map * 8 + (g.numoct_opt * 8).toNat * g.list_opt.length
              else len * 8 + 112 + octets map * 8) =
              (len + (14 + octets map + g.numoct_opt.toNat * g.list_opt.length)) * 8 := by
            by_cases h0 : g.numoct_opt ≠ 0
            · have hwidth : (g.numoct_opt * 8).toNat = 8 * g.numoct_opt.toNat := by omega
              rw [if_pos h0, hwidth, Nat.mul_assoc]
              omega
            · rw [if_neg h0, not_not.1 h0, Int.toNat_zero, Nat.zero_mul]
              omega
          rw [← hmap, hend] at hcall
          have hbytes : ((len + (14 + octets map + g.numoct_opt.toNat * g.list_opt.length)) * 8 - len * 8) /
              8 = 14 + octets map + g.numoct_opt.toNat * g.list_opt.length := by omega
          simp only [hbytes, Option.some.injEq, Prod.mk.injEq] at hcall
          obtain ⟨rfl, rfl⟩ := hcall
          have hmakes := grid_makes (c := c) (a := len) hfits (not_not.1 hdef) ht hmap (by omega) rfl rfl
          rw [Int.toNat_natCast]
          exact h.extend hmakes.kept hmakes.layout (by omega)

/-- The Sections 4 to 7, one behind the other. -/
theorem field_layout {f : FieldSpec} {mappds mapdrs : Gtemplate} {packed : List Int × List UInt8} (hf : f.Fits)
    (hpds : getpdstemplate f.ipdsnum = some mappds) (hdrs : getdrstemplate f.idrsnum = some mapdrs)
    (hpacked : f.packed = .ok packed) (hpdslen : octets (mapOf extpdstemplate mappds f.ipdstmpl) < 2 ^ 31)
    (hbytes : packed.2.length + 5 < 2 ^ 32) {four five six seven : Cgrib × Nat}
    (h4 : four = section4 c (len * 8) f mappds) (h5 : five = section5 four.1 four.2 f mapdrs packed.1)
    (h6 : six = section6 five.1 five.2 f) (h7 : seven = section7 six.1 six.2 packed.2) :
    ∃ l4 l5 l6 l7, four.2 = (len + l4) * 8 ∧ five.2 = (len + l4 + l5) * 8 ∧
      six.2 = (len + l4 + l5 + l6) * 8 ∧ seven.2 = (len + l4 + l5 + l6 + l7) * 8 ∧
      Kept c seven.1 (len * 8) ((len + l4 + l5 + l6 + l7) * 8) ∧
      Layout seven.1 len (.prod f.product :: .pack ⟨f.ndpts, f.idrsnum, packed.1⟩ :: .bitmap f.ibmap :: [.data])
        (len + l4 + l5 + l6 + l7) := by
  obtain ⟨hend4, hmake4⟩ := section4_makes (c := c) (a := len) hf hpds hpdslen
  rw [← h4] at hend4 hmake4
  generalize 9 + octets (mapOf extpdstemplate mappds f.ipdstmpl) + 4 * f.coordlist.length = l4 at hend4 hmake4
  rw [hend4] at h5
  obtain ⟨hend5, hmake5⟩ := section5_makes (c := four.1) (a := len + l4) hf hdrs hpacked
  rw [← h5] at hend5 hmake5
  generalize 11 + octets mapdrs.map = l5 at hend5 hmake5
  rw [hend5] at h6
  obtain ⟨l6, hend6, hmake6⟩ := section6_makes (c := five.1) (a := len + l4 + l5) hf
  rw [← h6] at hend6 hmake6
  rw [hend6] at h7
  obtain ⟨hend7, hmake7⟩ := section7_makes (c := six.1) (a := len + l4 + l5 + l6) packed.2 hbytes
  rw [← h7] at hend7 hmake7
  generalize packed.2.length + 5 = l7 at hend7 hmake7
  refine ⟨l4, l5, l6, l7, hend4, hend5, hend6, hend7, ?_, ?_⟩
  · exact ((hmake4.kept.append hmake5.kept (by omega) (by omega)).append hmake6.kept (by omega)
      (by omega)).append hmake7.kept (by omega) (by omega)
  · exact ((hmake4.layout.make hmake5).make hmake6).make hmake7

theorem addfield_composed {content : Content} {f : FieldSpec} {ret : Int}
    (h : Composed c disc (cs ++ [content]) len) (hfits : f.Fits)
    (hcall : g2_addfield fuel c f = some (c', ret)) (hpos : 0 < ret) (hlt : ret < 2 ^ 31) :
    Composed c' disc (cs ++ [content] ++ (Call.field f).contents) ret.toNat ∧
      ((cs ++ [content]).foldl Content.see ⟨false, false⟩).issec3 = true ∧
      ∃ packed, f.packed = .ok packed := by
  rw [g2_addfield] at hcall
  cases hopen : openMessage fuel c with
  | none => simp [hopen] at hcall
  | some r =>
    rcases h.open hopen with rfl | rfl
    · simp only [hopen, Option.some.injEq, Prod.mk.injEq] at hcall
      omega
    · simp only [hopen, h.length] at hcall
      by_cases hlast : content.num ≠ 3 ∧ content.num ≠ 7
      · rw [if_pos hlast] at hcall
        simp only [Option.some.injEq, Prod.mk.injEq] at hcall
        omega
      rw [if_neg hlast] at hcall
      by_cases hgrid : ((cs ++ [content]).foldl Content.see ⟨false, false⟩).issec3 = false
      · rw [if_pos hgrid] at hcall
        simp only [Option.some.injEq, Prod.mk.injEq] at hcall
        omega
      rw [if_neg hgrid] at hcall
      have hseen : ((cs ++ [content]).foldl Content.see ⟨false, false⟩).issec3 = true := by simpa using hgrid
      cases hpds : getpdstemplate f.ipdsnum with
      | none =>
        simp only [hpds, Option.some.injEq, Prod.mk.injEq] at hcall
        omega
      | some mappds =>
        by_cases hfaults : mappds.faults f.ipdstmpl = true
        · simp [hpds, hfaults] at hcall
        simp only [hpds, if_neg hfaults] at hcall
        cases hdrs : getdrstemplate f.idrsnum with
        | none =>
          simp only [hdrs, Option.some.injEq, Prod.mk.injEq] at hcall
          omega
        | some mapdrs =>
          cases hpacked : f.packed with
          | error ierr =>
            have hneg := hfits.codes ierr hpacked
            simp only [hdrs, hpacked, Option.some.injEq, Prod.mk.injEq] at hcall
            omega
          | ok packed =>
            simp only [hdrs, hpacked] at hcall
            by_cases hprev : f.ibmap = 254 ∧
                ((cs ++ [content]).foldl Content.see ⟨false, false⟩).isprevbmap = false
            · rw [if_pos hprev] at hcall
              simp only [Option.some.injEq, Prod.mk.injEq] at hcall
              omega
            rw [if_neg hprev] at hcall
            obtain ⟨four, h4⟩ : ∃ four, four = section4 c (len * 8) f mappds := ⟨_, rfl⟩
            rw [← h4] at hcall
            obtain ⟨five, h5⟩ : ∃ five, five = section5 four.1 four.2 f mapdrs packed.1 := ⟨_, rfl⟩
            rw [← h5] at hcall
            obtain ⟨six, h6⟩ : ∃ six, six = section6 five.1 five.2 f := ⟨_, rfl⟩
            rw [← h6] at hcall
            obtain ⟨seven, h7⟩ : ∃ seven, seven = section7 six.1 six.2 packed.2 := ⟨_, rfl⟩
            rw [← h7] at hcall
            obtain ⟨hc', hret⟩ := Prod.mk.inj (Option.some.inj hcall)
            -- the lengths of the parts that have no bound of their own
            have hend4 : four.2 = len * 8 + 72 + octets (mapOf extpdstemplate mappds f.ipdstmpl) * 8 +
                32 * f.coordlist.length := by rw [h4]; rfl
            have hend7 : seven.2 = six.2 + 40 + 8 * packed.2.length := by rw [h7]; rfl
            obtain ⟨l4, l5, l6, l7, hlen4, hlen5, hlen6, hlen7, hkept, hlayout⟩ :=
              field_layout hfits hpds hdrs hpacked (by omega) (by omega) h4 h5 h6 h7
            have hnewlen : len + (four.2 - len * 8) / 8 + (five.2 - four.2) / 8 + (six.2 - five.2) / 8 +
                (seven.2 - six.2) / 8 = len + l4 + l5 + l6 + l7 := by omega
            rw [hnewlen] at hc' hret
            subst hc' hret
            refine ⟨?_, hseen, packed, rfl⟩
            rw [Int.toNat_natCast, Call.contents, hpacked]
            exact h.extend hkept hlayout (by omega)

end Writing

section Create
variable {c c' : Cgrib} {p : Nat} {octets : List Nat} {vs ids listsec0 : List Int} {ret : Int}

/-- Every entry of Section 1 fits its octets. -/
def IdentFits (ids : List Int) : Prop :=
  List.Forall₂ (fun octets v => 0 ≤ v ∧ v < 2 ^ (octets * 8)) mapsec1 ids

theorem packMap_kept (c : Cgrib) (p : Nat) (vs : List Int) (ho : ∀ o ∈ octets, 0 < o) :
    Kept c (packMap c p octets vs) p (p + octets.sum * 8) := by
  induction octets generalizing c p vs with
  | nil => exact Kept.refl c _ _
  | cons o octets ih =>
    cases vs with
    | nil => exact Kept.refl c _ _
    | cons v vs =>
      have hpos := ho o List.mem_cons_self
      have hfirst := sbit_kept c v p (n := o * 8) (by omega)
      have hrest := ih (sbit c v p (o * 8)) (p + o * 8) vs (fun o' ho' => ho o' (List.mem_cons_of_mem _ ho'))
      rw [packMap, List.sum_cons]
      exact (hfirst.append hrest (by omega) (by omega)).mono (Nat.le_refl p) (by omega)

theorem unpackMap_packMap (c : Cgrib) (p : Nat) (ho : ∀ o ∈ octets, 0 < o ∧ o ≤ 7)
    (hvs : List.Forall₂ (fun octets v => 0 ≤ v ∧ v < 2 ^ (octets * 8)) octets vs)
    (h : SameBits (packMap c p octets vs) c' p (p + octets.sum * 8)) : unpackMap c' p octets = vs := by
  induction hvs generalizing c p with
  | nil => rfl
  | @cons o v octets vs hv _ ih =>
    obtain ⟨hpos, hseven⟩ := ho o List.mem_cons_self
    have hos : ∀ o ∈ octets, 0 < o ∧ o ≤ 7 := fun o' ho' => ho o' (List.mem_cons_of_mem _ ho')
    rw [packMap, List.sum_cons] at h
    have hrest := packMap_kept (sbit c v p (o * 8)) (p + o * 8) vs (fun o' ho' => (hos o' ho').1)
    have hfirst : gbit c' p (o * 8) = v := by
      rw [← gbit_same h (Nat.le_refl p) (by omega), gbit_kept hrest (by omega)]
      exact gbit_sbit c p (by omega) (by omega) hv.1 hv.2
    rw [unpackMap, hfirst, ih _ _ hos (h.mono (by omega) (by omega))]

theorem store_grib (c : Cgrib) : isGrib (store c 0 [71, 82, 73, 66]) 0 = true := by
  simp only [isGrib, decide_eq_true_eq]
  refine ⟨?_, ?_, ?_, ?_⟩ <;> rfl

/-- `g2_create` begins a message with its identification. -/
theorem create_composed (hdisc : 0 ≤ listsec0.getD 0 0 ∧ listsec0.getD 0 0 < 256) (hids : IdentFits ids)
    (hcall : g2_create c listsec0 ids = (c', ret)) (hpos : 0 < ret) :
    Composed c' (listsec0.getD 0 0) [.ident ids] 37 := by
  rw [g2_create] at hcall
  by_cases hed : listsec0.getD 1 0 ≠ 2
  · rw [if_pos hed] at hcall
    simp only [Prod.mk.injEq] at hcall
    omega
  rw [if_neg hed, not_not.1 hed] at hcall
  have hsum : mapsec1.sum = 16 := by decide
  have hbytes : 16 + (16 * 8 + 40 + 16 * 8 - 16 * 8) / 8 = 37 := by decide
  simp only [hsum, hbytes, Prod.mk.injEq] at hcall
  obtain ⟨rfl, _⟩ := hcall
  have hgrib := store_grib c
  generalize store c 0 [71, 82, 73, 66] = c1 at hgrib ⊢
  have k2 := sbit_kept c1 0 32 (n := 16) (by decide)
  generalize sbit c1 0 32 16 = c2 at k2 ⊢
  have k3 := sbit_kept c2 (listsec0.getD 0 0) 48 (n := 8) (by decide)
  have r3 : gbit (sbit c2 (listsec0.getD 0 0) 48 8) 48 8 = listsec0.getD 0 0 :=
    gbit_sbit _ _ (by decide) (by decide) hdisc.1 hdisc.2
  generalize sbit c2 (listsec0.getD 0 0) 48 8 = c3 at k3 r3 ⊢
  have k4 := sbit_kept c3 2 56 (n := 8) (by decide)
  have r4 : gbit (sbit c3 2 56 8) 56 8 = 2 := gbit_sbit _ _ (by decide) (by decide) (by decide) (by decide)
  generalize sbit c3 2 56 8 = c4 at k4 r4 ⊢
  have hmap := packMap_kept (beginSection c4 (16 * 8) 1) (16 * 8 + 40) ids
    (show ∀ o ∈ mapsec1, 0 < o by decide)
  have hmake : Makes c4 16 21 (endSection (packMap (beginSection c4 (16 * 8) 1) (16 * 8 + 40) mapsec1 ids)
      (16 * 8) ((16 + 21) * 8)) (.ident ids) := by
    apply makes_of_body
    · exact hmap
    · decide
    · decide
    · intro cgrib' _ hisecnum hsame
      rw [Content.At, g2_unpack1, if_neg (by simp [hisecnum, Content.num])]
      rw [unpackMap_packMap _ _ (by decide) hids hsame]
  generalize packMap (beginSection c4 (16 * 8) 1) (16 * 8 + 40) mapsec1 ids = c5 at hmake ⊢
  have hend : 16 * 8 + 40 + 16 * 8 = (16 + 21) * 8 := by decide
  rw [hend]
  have k6 := hmake.kept
  have hsolid := hmake.solid
  generalize endSection c5 (16 * 8) ((16 + 21) * 8) = c6 at k6 hsolid ⊢
  have k7 := sbit_kept c6 0 64 (n := 32) (by decide)
  generalize sbit c6 0 64 32 = c7 at k7 ⊢
  have k8 := setLength_kept c7 37
  constructor
  · rw [← isGrib_same (k8.same (.inl (by decide))), ← isGrib_same (k7.same (.inl (by decide))),
      ← isGrib_same (k6.same (.inl (by decide))), ← isGrib_same (k4.same (.inl (by decide))),
      ← isGrib_same (k3.same (.inl (by decide))), ← isGrib_same (k2.same (.inl (by decide))), hgrib]
  · rw [gbit_kept k8 (by decide), gbit_kept k7 (by decide), gbit_kept k6 (by decide),
      gbit_kept k4 (by decide), r3]
  · rw [gbit_kept k8 (by decide), gbit_kept k7 (by decide), gbit_kept k6 (by decide), r4]
  · exact lencurr_setLength c7 (by decide)
  · exact .cons (by decide) ((hsolid.same (k7.same (.inr (by decide)))).same (k8.same (.inr (by decide))))
      (.nil _)

end Create
end Noaaport.G2
