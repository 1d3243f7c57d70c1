import Noaaport.WmoHeader

/-! How far `wmo_header` looks: where everything it looks at is inside the block, its result is
the block's alone, and where it is not, two leftovers behind the block make a difference. -/
namespace Noaaport
open Lib

section Printable
variable {buf buf' : Buffer} {a n : Nat}

/-- The run of printable characters ends inside the `n` bytes, or at its limit of 256. -/
def RunInside (buf : Buffer) (a n : Nat) : Prop := (printable buf a).length < n ∨ 256 ≤ n

theorem printable_agree (h : AgreeOn a (a + n) buf buf') (hin : RunInside buf a n) :
    printable buf' a = printable buf a := by
  have hspan : span (fun b => 32 ≤ b ∧ b < 128) buf' a 256 =
      span (fun b => 32 ≤ b ∧ b < 128) buf a 256 := by
    rcases hin with hlt | h256
    · have hlt' : span (fun b => 32 ≤ b ∧ b < 128) buf a 256 < n := hlt
      exact span_agree (h.mono (Nat.le_refl a) (by omega))
    · exact span_congr _ (h.mono (Nat.le_refl a) (by omega))
  have hle := span_le (fun b => 32 ≤ b ∧ b < 128) buf a 256
  unfold printable
  rw [takeWhile_load, takeWhile_load, hspan]
  rcases hin with hlt | h256
  · have hlt' : span (fun b => 32 ≤ b ∧ b < 128) buf a 256 < n := hlt
    exact (h.load (Nat.le_refl a) (by omega)).symm
  · exact (h.load (Nat.le_refl a) (by omega)).symm

/-- A run that the block does not end: one more character makes it longer. -/
theorem printable_open (h : ¬ RunInside buf a n) :
    (printable (store buf (a + n) [65, 0]) a).length = n + 1 ∧
      (printable (store buf (a + n) [0]) a).length = n := by
  obtain ⟨hle, hlt⟩ := not_or.1 h
  have hrun : n ≤ span (fun b => 32 ≤ b ∧ b < 128) buf a 256 := Nat.le_of_not_lt hle
  obtain ⟨hall, -⟩ := span_spec (fun b => decide (32 ≤ b ∧ b < 128)) buf a 256
  have hcell : ∀ (bs : List UInt8) (i : Nat), i < n → store buf (a + n) bs (a + i) = buf (a + i) :=
    fun bs i hi => store_before _ _ _ _ (by omega)
  have h65 : store buf (a + n) [65, 0] (a + n) = 65 := store_head ..
  have h00 : store buf (a + n) [65, 0] (a + n + 1) = 0 :=
    store_inside buf (a + n) [65, 0] 1 (by decide)
  have h0 : store buf (a + n) [0] (a + n) = 0 := store_head ..
  constructor
  · refine span_eq (by omega) (fun i hi => ?_) fun _ => ?_
    · rcases Nat.lt_or_eq_of_le (Nat.le_of_lt_succ hi) with hi | rfl
      · rw [hcell _ i hi]
        exact hall i (by omega)
      · rw [h65]
        decide
    · rw [← Nat.add_assoc, h00]
      decide
  · refine span_eq (by omega) (fun i hi => ?_) fun _ => ?_
    · rw [hcell _ i hi]
      exact hall i (by omega)
    · rw [h0]
      decide

end Printable

section Pil
variable {buf buf' : Buffer} {p c e n : Nat}

theorem lastText_agree (h : AgreeOn p (p + n + 1) buf buf') : lastText buf' p n = lastText buf p n := by
  induction n with
  | zero => rfl
  | succ n ih =>
    unfold lastText
    rw [← h (p + (n + 1)) (by omega) (by omega), ih (h.mono (Nat.le_refl p) (by omega))]

theorem lastText_le (buf : Buffer) (p n : Nat) : lastText buf p n ≤ n := by
  induction n with
  | zero => exact Nat.le_refl 0
  | succ n ih =>
    unfold lastText
    split_ifs
    · omega
    · exact Nat.le_refl _

theorem trimSpace_agree : ∀ {n : Nat}, AgreeOn p (p + n) buf buf' →
    trimSpace buf' p n = trimSpace buf p n
  | 0, _ | 1, _ | 2, _ | 3, _ => rfl
  | n + 4, h => by
    rw [trimSpace, trimSpace, ← h (p + (n + 3)) (by omega) (by omega),
      trimSpace_agree (h.mono (Nat.le_refl p) (by omega))]

theorem trimSpace_le (buf : Buffer) (p : Nat) : ∀ n : Nat, trimSpace buf p n ≤ n
  | 0 | 1 | 2 | 3 => Nat.le_refl _
  | n + 4 => by
    have ih := trimSpace_le buf p (n + 3)
    rw [trimSpace]
    split_ifs
    · omega
    · exact Nat.le_refl _

theorem getLine_agree (h : AgreeOn p (p + span (· ≠ 10) buf p n + 1) buf buf') :
    getLine buf' p n = getLine buf p n := by
  unfold getLine
  dsimp only
  rw [span_agree h, h _ (by omega) (by omega)]

/-- `pil` looks at the line and no further. -/
theorem pil_agree (h : AgreeOn p (p + span (· ≠ 10) buf p n + 1) buf buf') :
    pil buf' p n = pil buf p n := by
  have hfirst : buf' p = buf p := (h p (Nat.le_refl p) (by omega)).symm
  unfold pil
  rw [hfirst, getLine_agree h]
  refine if_congr Iff.rfl ?_ rfl
  by_cases h10 : buf (p + span (· ≠ 10) buf p n) = 10
  · -- a line: its last character and the six of the PIL are before its end
    have hlast : lastText buf' p (p + span (· ≠ 10) buf p n + 1 - 1 - p) =
        lastText buf p (p + span (· ≠ 10) buf p n + 1 - 1 - p) :=
      lastText_agree (h.mono (Nat.le_refl p) (by omega))
    have hle := lastText_le buf p (p + span (· ≠ 10) buf p n + 1 - 1 - p)
    rw [show getLine buf p n = some (p + span (· ≠ 10) buf p n + 1) from if_pos h10]
    dsimp only
    rw [hlast]
    by_cases h6 : lastText buf p (p + span (· ≠ 10) buf p n + 1 - 1 - p) + 1 = 6
    · have htrim := trimSpace_le buf p 6
      rw [if_pos h6, if_pos h6, trimSpace_agree (h.mono (Nat.le_refl p) (by omega)),
        h.load (Nat.le_refl p) (by omega)]
    · rw [if_neg h6, if_neg h6]
  · rw [show getLine buf p n = none from if_neg h10]

theorem pil_of_not_alnum (h : isalnum (buf p) = false) (n : Nat) : pil buf p n = [] := by
  rw [pil, h]
  rfl

theorem pil_of_no_line (h : getLine buf p n = none) : pil buf p n = [] := by
  rw [pil, h]
  exact ite_self _

theorem pil_zero (buf : Buffer) (p : Nat) : pil buf p 0 = [] := by
  by_cases h : isalnum (buf p)
  · refine pil_of_no_line (if_neg fun h10 => ?_)
    rw [show buf p = 10 from h10] at h
    exact absurd h (by decide)
  · exact pil_of_not_alnum (Bool.eq_false_iff.2 h) 0

/-- The line that the block does not end is no PIL, even where a newline comes next. -/
def PilInside (buf : Buffer) (p e : Nat) : Prop :=
  p < e → (∀ i, p ≤ i → i < e → buf i ≠ 10) → pil (store buf e [10]) p (e - p) = []

theorem span_of_no_newline {m : Buffer} (hno : ∀ i, p ≤ i → i < e → m i ≠ 10) (hp : p ≤ e) :
    span (· ≠ 10) m p (e - p) = e - p :=
  span_eq (Nat.le_refl _) (fun i hi => decide_eq_true (hno (p + i) (by omega) (by omega)))
    fun h => absurd h (Nat.lt_irrefl _)

/-- Without a newline in the block it is the one behind it that counts. -/
theorem pil_behind (hno : ∀ i, p ≤ i → i < e → buf i ≠ 10) (hp : p < e)
    (hag : AgreeOn p e buf buf') :
    pil buf' p (e - p) = if buf' e = 10 then pil (store buf e [10]) p (e - p) else [] := by
  have hno' : ∀ i, p ≤ i → i < e → buf' i ≠ 10 := fun i hi hi' => hag i hi hi' ▸ hno i hi hi'
  have hspan := span_of_no_newline hno' (Nat.le_of_lt hp)
  split_ifs with h10
  · refine (pil_agree fun i hi hi' => ?_).symm
    rw [hspan] at hi'
    rcases Nat.lt_or_eq_of_le (show i ≤ e by omega) with hlt | rfl
    · rw [← hag i hi hlt, store_before _ _ _ _ hlt]
    · rw [h10]
      exact (store_head ..).symm
  · refine pil_of_no_line (if_neg ?_)
    rw [hspan, Nat.add_sub_cancel' (Nat.le_of_lt hp)]
    exact h10

theorem pil_agree_inside (hp : p < e) (hag : AgreeOn p e buf buf') (hin : PilInside buf p e) :
    pil buf' p (e - p) = pil buf p (e - p) := by
  by_cases hno : ∀ i, p ≤ i → i < e → buf i ≠ 10
  · rw [pil_behind hno hp hag, pil_behind hno hp (AgreeOn.refl p e buf), hin hp hno, ite_self,
      ite_self]
  · -- the line ends inside the block
    refine pil_agree (hag.mono (Nat.le_refl p) ?_)
    by_contra hlt
    have hspan : span (· ≠ 10) buf p (e - p) = e - p := by
      have := span_le (· ≠ 10) buf p (e - p)
      omega
    have hall := (span_spec (· ≠ 10) buf p (e - p)).1
    refine hno fun i hi hi' => ?_
    have h := hall (i - p) (by omega)
    rw [Nat.add_sub_cancel' hi] at h
    exact of_decide_eq_true h

/-- Behind `^NMC`. -/
def nmcPos (buf : Buffer) (c : Nat) : Nat := if load buf c 4 = ascii "^NMC" then c + 4 else c

theorem nmcPos_of_ne (h : buf c ≠ 94) : nmcPos buf c = c := by
  refine if_neg fun hload => h ?_
  have hfirst : buf c = (ascii "^NMC").getD 0 0 := congrArg (·.getD 0 0) hload
  rw [hfirst]
  decide

/-- `^NMC` that the block cuts off leaves no PIL either way. -/
theorem pil_nmc_agree (hc : c < e) (hag : AgreeOn c e buf buf')
    (hin : PilInside buf (nmcPos buf c) e) :
    pil buf' (nmcPos buf' c) (e - nmcPos buf' c) = pil buf (nmcPos buf c) (e - nmcPos buf c) := by
  by_cases h4 : c + 4 ≤ e
  · have hpos : nmcPos buf' c = nmcPos buf c := by
      unfold nmcPos
      rw [hag.load (Nat.le_refl c) h4]
    rw [hpos]
    by_cases hp : nmcPos buf c < e
    · refine pil_agree_inside hp (hag.mono ?_ (Nat.le_refl e)) hin
      unfold nmcPos
      split_ifs <;> omega
    · rw [Nat.sub_eq_zero_of_le (Nat.le_of_not_lt hp), pil_zero, pil_zero]
  · by_cases h94 : buf c = 94
    · have hnone : ∀ m : Buffer, m c = 94 → pil m (nmcPos m c) (e - nmcPos m c) = [] := by
        intro m hm
        unfold nmcPos
        split_ifs
        · rw [Nat.sub_eq_zero_of_le (by omega), pil_zero]
        · exact pil_of_not_alnum (by rw [hm]; decide) _
      rw [hnone buf h94, hnone buf' (hag c (Nat.le_refl c) hc ▸ h94)]
    · have h94' : buf' c ≠ 94 := hag c (Nat.le_refl c) hc ▸ h94
      rw [nmcPos_of_ne h94] at hin ⊢
      rw [nmcPos_of_ne h94']
      exact pil_agree_inside hc hag hin

end Pil
section Wmo
variable {t : GribText} {limit : Nat} {buf buf' : Buffer} {d n c e : Nat} {hdr : WmoHdr}

/-- No GRIB message, as the block itself shows. -/
def NotGrib (buf : Buffer) (c e : Nat) : Prop :=
  ∃ i, i < 4 ∧ c + i < e ∧ buf (c + i) ≠ (ascii "GRIB").getD i 0

/-- The octets of a GRIB message that get into its name: 8, or 33 and the subcenter where the
parameter table depends on it. -/
structure GribInside (t : GribText) (buf : Buffer) (c e : Nat) : Prop where
  magic : load buf c 4 = ascii "GRIB"
  edition : c + 8 ≤ e
  octets : buf (c + 7) = 0 ∨ buf (c + 7) = 1 → c + 33 ≤ e
  subcenter : buf (c + 7) = 0 ∨ buf (c + 7) = 1 → e = c + 33 → ∀ b,
    t.k5toa (buf (c + 11)) (buf (c + 12)) (buf (c + 13)) (buf (c + 16)) b =
      t.k5toa (buf (c + 11)) (buf (c + 12)) (buf (c + 13)) (buf (c + 16)) (buf (c + 33))

/-- Everything that decides what `wmo_header` makes of the `n` bytes at `d` is inside them. -/
structure WmoInside (t : GribText) (limit : Nat) (buf : Buffer) (d n : Nat) : Prop where
  groups : (groups limit).seen buf d ≤ d + n
  run : wmoGroups limit buf d = none → RunInside buf d n
  body : ∀ hdr c, wmoGroups limit buf d = some (hdr, c) →
    NotGrib buf c (d + n) ∧ PilInside buf (nmcPos buf c) (d + n) ∨ GribInside t buf c (d + n)

theorem NotGrib.load_ne (h : NotGrib buf c e) (hag : AgreeOn c e buf buf') :
    load buf' c 4 ≠ ascii "GRIB" := by
  obtain ⟨i, hi, hie, hne⟩ := h
  intro hload
  refine hne ?_
  rw [hag (c + i) (by omega) hie, ← hload]
  simp [load, hi]

theorem NotGrib.lt (h : NotGrib buf c e) : c < e := by
  obtain ⟨i, -, hi, -⟩ := h
  omega

theorem gribSource_agree (h : AgreeOn (c + 12) (c + 15) buf buf') :
    gribSource t buf' c = gribSource t buf c := by
  unfold gribSource
  rw [h (c + 12) (by omega) (by omega), h (c + 13) (by omega) (by omega),
    h (c + 14) (by omega) (by omega)]

theorem gribTimes_agree (h : AgreeOn (c + 20) (c + 33) buf buf') :
    gribTimes t buf' c = gribTimes t buf c := by
  have hcell : ∀ i, 20 ≤ i → i < 33 → buf' (c + i) = buf (c + i) :=
    fun i hi hi' => (h (c + i) (by omega) (by omega)).symm
  unfold gribTimes
  rw [hcell 21 (by decide) (by decide), hcell 22 (by decide) (by decide),
    hcell 23 (by decide) (by decide), hcell 24 (by decide) (by decide),
    hcell 32 (by decide) (by decide), h.load (Nat.le_refl (c + 20)) (by omega)]

theorem gribLevel_agree (h : AgreeOn (c + 17) (c + 20) buf buf') :
    gribLevel t buf' c = gribLevel t buf c := by
  unfold gribLevel
  rw [h (c + 17) (by omega) (by omega), h (c + 18) (by omega) (by omega),
    h (c + 19) (by omega) (by omega)]

theorem gribYear_agree (h : AgreeOn (c + 20) (c + 33) buf buf') :
    gribYear buf' c = gribYear buf c := by
  unfold gribYear
  rw [h (c + 20) (by omega) (by omega), h (c + 32) (by omega) (by omega)]

theorem gribParameter_agree (h : AgreeOn (c + 11) (c + 17) buf buf') :
    gribParameter t buf' c =
      t.k5toa (buf (c + 11)) (buf (c + 12)) (buf (c + 13)) (buf (c + 16)) (buf' (c + 33)) := by
  unfold gribParameter
  rw [h (c + 11) (by omega) (by omega), h (c + 12) (by omega) (by omega),
    h (c + 13) (by omega) (by omega), h (c + 16) (by omega) (by omega)]

/-- All but the parameter, whose table may depend on the subcenter. -/
theorem gribMeta_agree (h : AgreeOn c (c + 33) buf buf') :
    gribMeta t buf' c = gribSource t buf c ++ (fmt0 4 (gribYear buf c) ++
      (gribTimes t buf c ++
        (t.k5toa (buf (c + 11)) (buf (c + 12)) (buf (c + 13)) (buf (c + 16)) (buf' (c + 33)) ++
          gribLevel t buf c))) := by
  unfold gribMeta
  rw [gribSource_agree (h.mono (by omega) (by omega)), gribYear_agree (h.mono (by omega) (by omega)),
    gribTimes_agree (h.mono (by omega) (by omega)), gribLevel_agree (h.mono (by omega) (by omega)),
    gribParameter_agree (h.mono (by omega) (by omega))]

theorem wmoGroups_agree (hag : AgreeOn d ((groups limit).seen buf d) buf buf') :
    wmoGroups limit buf' d = wmoGroups limit buf d := by
  rw [wmoGroups_eq, wmoGroups_eq]
  exact ((groups limit).agrees buf buf' d hag).1

/-- Where the line behind the groups begins: after the first newline. -/
theorem wmoGroups_some (h : wmoGroups limit buf d = some (hdr, c)) :
    d < c ∧ c ≤ (groups limit).seen buf d ∧ buf (c - 1) = 10 ∧
      ∀ i, d ≤ i → i + 1 < c → buf i ≠ 10 := by
  rw [wmoGroups_eq] at h
  obtain ⟨hlt, h10⟩ := groups_closes limit buf d hdr c h
  exact ⟨hlt, ((groups limit).ends buf d hdr c h).2, h10, groups_passes limit buf d hdr c h⟩

/-- Left-over bytes behind the block have no influence. -/
theorem wmoHeader_agree (hag : AgreeOn d (d + n) buf buf') (hin : WmoInside t limit buf d n) :
    wmoHeader t limit buf' d n = wmoHeader t limit buf d n := by
  have hgroups := wmoGroups_agree (hag.mono (Nat.le_refl d) hin.groups)
  unfold wmoHeader
  rw [hgroups]
  cases hw : wmoGroups limit buf d with
  | none => rfl
  | some x =>
    obtain ⟨hdr, c⟩ := x
    obtain ⟨hdc, hseen, -⟩ := wmoGroups_some hw
    have hc : AgreeOn c (d + n) buf buf' := hag.mono (Nat.le_of_lt hdc) (Nat.le_refl _)
    dsimp only
    rcases hin.body hdr c hw with ⟨hnot, hpil⟩ | hgrib
    · rw [if_neg (hnot.load_ne hc), if_neg (hnot.load_ne (AgreeOn.refl c (d + n) buf))]
      have hsub : ∀ m : Buffer, n - (nmcPos m c - d) = d + n - nmcPos m c := by
        intro m
        unfold nmcPos
        split_ifs <;> omega
      have h := pil_nmc_agree hnot.lt hc hpil
      rw [← hsub, ← hsub] at h
      exact congrArg (identify hdr · [] [] (-1)) h
    · have hend := hgrib.edition
      rw [← hc.load (Nat.le_refl c) (by omega), if_pos hgrib.magic, if_pos hgrib.magic,
        ← hc (c + 7) (by omega) (by omega)]
      by_cases hed : buf (c + 7) = 0 ∨ buf (c + 7) = 1
      · have h33 := hgrib.octets hed
        have hcell : ∀ i, i < 33 → buf (c + i) = buf' (c + i) :=
          fun i hi => hc (c + i) (by omega) (by omega)
        rw [if_pos hed, if_pos hed, hcell 12 (by decide), hcell 13 (by decide)]
        rw [gribMeta_agree (hc.mono (Nat.le_refl c) h33)]
        by_cases h34 : d + n = c + 33
        · rw [hgrib.subcenter hed h34 (buf' (c + 33))]
          rfl
        · rw [← hc (c + 33) (by omega) (by omega)]
          rfl
      · rw [if_neg hed, if_neg hed]

end Wmo
section Leftover
variable {t : GribText} {limit : Nat} {buf m m' : Buffer} {d n c e : Nat} {hdr : WmoHdr}

/-- The start of a GRIB message of edition `ed`. -/
def gribHead (ed : UInt8) : List UInt8 := [71, 82, 73, 66, 0, 0, 0, ed]

theorem load_grib (h : ∀ i, i < 4 → m (c + i) = (ascii "GRIB").getD i 0) :
    load m c 4 = ascii "GRIB" := by
  change [m (c + 0), m (c + 1), m (c + 2), m (c + 3)] = _
  rw [h 0 (by decide), h 1 (by decide), h 2 (by decide), h 3 (by decide)]
  rfl

theorem store_getD (buf : Buffer) (a : Nat) {bs : List UInt8} {i : Nat} (h : i < bs.length) :
    store buf a bs (a + i) = bs.getD i 0 := by
  rw [store_inside buf a bs i h, List.getD_eq_getElem?_getD, List.getElem?_eq_getElem h]
  rfl

theorem gribHead_getD (ed : UInt8) : ∀ i, i < 4 → (gribHead ed).getD i 0 = (ascii "GRIB").getD i 0
  | 0, _ | 1, _ | 2, _ | 3, _ => rfl
  | _ + 4, h => absurd h (by omega)

@[simp] theorem identify_wmometa (hdr : WmoHdr) (pil model wmometa : Text) (metaoff : Int) :
    (identify hdr pil model wmometa metaoff).wmometa = wmometa := by
  unfold identify
  dsimp only
  split_ifs <;> rfl

theorem wmometa_grib2 (hw : wmoGroups limit m d = some (hdr, c))
    (hm : load m c 4 = ascii "GRIB" ∧ m (c + 7) = 2) :
    (wmoHeader t limit m d n).wmometa = ascii "grib2/" := by
  unfold wmoHeader
  rw [hw]
  dsimp only
  rw [if_pos hm.1, hm.2, if_neg (by decide), if_pos rfl, identify_wmometa]

theorem wmometa_gribx (hw : wmoGroups limit m d = some (hdr, c))
    (hm : load m c 4 = ascii "GRIB" ∧ m (c + 7) = 3) :
    (wmoHeader t limit m d n).wmometa = ascii "gribx/" := by
  unfold wmoHeader
  rw [hw]
  dsimp only
  rw [if_pos hm.1, hm.2, if_neg (by decide), if_neg (by decide), identify_wmometa]

theorem wmometa_grib1 (hw : wmoGroups limit m d = some (hdr, c))
    (hm : load m c 4 = ascii "GRIB") (hed : m (c + 7) = 0 ∨ m (c + 7) = 1) :
    (wmoHeader t limit m d n).wmometa = gribMeta t m c := by
  unfold wmoHeader
  rw [hw]
  dsimp only
  rw [if_pos hm, if_pos hed, identify_wmometa]

/-- Two leftovers behind the block that `wmo_header` takes for different kinds of messages. -/
def Leaks (t : GribText) (limit : Nat) (buf : Buffer) (d n : Nat) : Prop :=
  ∃ m m', AgreeOn 0 (d + n) buf m ∧ AgreeOn 0 (d + n) buf m' ∧
    (wmoHeader t limit m d n).wmometa = ascii "grib2/" ∧
    (wmoHeader t limit m' d n).wmometa = ascii "gribx/"

/-- Groups that the block does not end: a newline and a GRIB message behind it. -/
theorem leaks_of_groups (h : d + n < (groups limit).seen buf d) (hlimit : d + n < limit) :
    Leaks t limit buf d n := by
  have hleft : ∀ ed, AgreeOn 0 (d + n) buf (store buf (d + n) (10 :: gribHead ed)) :=
    fun ed => agreeOn_store buf _ (Nat.le_refl _)
  have hgroups : ∀ ed, ∃ hdr,
      wmoGroups limit (store buf (d + n) (10 :: gribHead ed)) d = some (hdr, d + n + 1) := by
    intro ed
    obtain ⟨hdr, hh⟩ := groups_stopsAt limit buf _ d (d + n) (Nat.le_add_right d n) h hlimit
      ((hleft ed).mono (Nat.zero_le d) (Nat.le_refl _)) (store_head ..)
    exact ⟨hdr, by rw [wmoGroups_eq]; exact hh⟩
  have hmagic : ∀ ed, load (store buf (d + n) (10 :: gribHead ed)) (d + n + 1) 4 = ascii "GRIB" ∧
      store buf (d + n) (10 :: gribHead ed) (d + n + 1 + 7) = ed := by
    intro ed
    have hcell : ∀ i, i < 8 →
        store buf (d + n) (10 :: gribHead ed) (d + n + 1 + i) = (gribHead ed).getD i 0 := by
      intro i hi
      rw [Nat.add_assoc (d + n), Nat.add_comm 1 i]
      exact store_getD buf (d + n) (show i + 1 < (10 :: gribHead ed).length from Nat.succ_lt_succ hi)
    refine ⟨load_grib fun i hi => ?_, hcell 7 (by decide)⟩
    rw [hcell i (by omega), gribHead_getD ed i hi]
  obtain ⟨hdr, hw⟩ := hgroups 2
  obtain ⟨hdr', hw'⟩ := hgroups 3
  exact ⟨_, _, hleft 2, hleft 3, wmometa_grib2 hw (hmagic 2), wmometa_gribx hw' (hmagic 3)⟩

/-- A line behind the groups that may yet become a GRIB message. -/
theorem leaks_of_grib (hw : wmoGroups limit buf d = some (hdr, c))
    (hseen : (groups limit).seen buf d ≤ d + n) (h8 : d + n < c + 8)
    (hopen : ∀ i, i < 4 → c + i < d + n → buf (c + i) = (ascii "GRIB").getD i 0) :
    Leaks t limit buf d n := by
  obtain ⟨hdc, hc, -⟩ := wmoGroups_some hw
  have hleft : ∀ ed, AgreeOn 0 (d + n) buf (store buf (d + n) ((gribHead ed).drop (d + n - c))) :=
    fun ed => agreeOn_store buf _ (Nat.le_refl _)
  have hgroups : ∀ ed,
      wmoGroups limit (store buf (d + n) ((gribHead ed).drop (d + n - c))) d = some (hdr, c) := by
    intro ed
    rw [wmoGroups_agree ((hleft ed).mono (Nat.zero_le d) hseen), hw]
  have hmagic : ∀ ed, load (store buf (d + n) ((gribHead ed).drop (d + n - c))) c 4 = ascii "GRIB" ∧
      store buf (d + n) ((gribHead ed).drop (d + n - c)) (c + 7) = ed := by
    intro ed
    have hcell : ∀ i, d + n ≤ c + i → i < 8 →
        store buf (d + n) ((gribHead ed).drop (d + n - c)) (c + i) = (gribHead ed).getD i 0 := by
      intro i hi hi'
      have hlen : ((gribHead ed).drop (d + n - c)).length = 8 - (d + n - c) := List.length_drop
      rw [show c + i = d + n + (i - (d + n - c)) by omega, store_getD buf (d + n) (by omega)]
      simp only [List.getD_eq_getElem?_getD, List.getElem?_drop]
      rw [show d + n - c + (i - (d + n - c)) = i by omega]
    refine ⟨load_grib fun i hi => ?_, hcell 7 (by omega) (by decide)⟩
    by_cases hin : c + i < d + n
    · rw [← hleft ed (c + i) (Nat.zero_le _) hin]
      exact hopen i hi hin
    · rw [hcell i (Nat.le_of_not_lt hin) (by omega), gribHead_getD ed i hi]
  exact ⟨_, _, hleft 2, hleft 3, wmometa_grib2 (hgroups 2) (hmagic 2),
    wmometa_gribx (hgroups 3) (hmagic 3)⟩

/-- Different numbers are written differently. -/
theorem decimal_inj {m n : Nat} (h : decimal m = decimal n) : m = n := by
  have hback : ∀ k, (decimal k).map (fun b => Char.ofNat b.toNat) = Nat.toDigits 10 k := by
    intro k
    rw [decimal, List.map_map]
    refine (List.map_congr_left fun c hc => ?_).trans (List.map_id _)
    have hdigit := Nat.isDigit_of_mem_toDigits (by decide) (by decide) hc
    have hlt : c.toNat < 256 := by
      simp only [Char.isDigit, Bool.and_eq_true, decide_eq_true_eq] at hdigit
      exact Nat.lt_of_le_of_lt hdigit.2 (by decide)
    change Char.ofNat (UInt8.ofNat c.toNat).toNat = c
    rw [UInt8.toNat_ofNat', Nat.mod_eq_of_lt hlt, Char.ofNat_toNat]
  have hdigits := congrArg (List.map fun b => Char.ofNat b.toNat) h
  rw [hback, hback] at hdigits
  have hvalue := congrArg (Nat.ofDigitChars 10 · 0) hdigits
  simpa only [Nat.ofDigitChars_ten_toDigits] using hvalue

/-- A number of four digits needs no zeros in front. -/
theorem fmt0_year {y : Nat} (h : 1000 ≤ y) (h' : y < 10000) :
    fmt0 4 (y : Nat) = decimal y ∧ (decimal y).length = 4 := by
  have hlength : (decimal y).length = 4 := by
    have hle := Nat.length_toDigits_le_iff (n := y) (b := 10) (k := 4) (by decide) (by decide)
    have hlt := Nat.length_toDigits_le_iff (n := y) (b := 10) (k := 3) (by decide) (by decide)
    rw [decimal, List.length_map]
    omega
  refine ⟨?_, hlength⟩
  unfold fmt0
  dsimp only
  rw [if_neg (by omega), Int.natAbs_natCast, hlength]
  rfl

theorem year_texts {k : Nat} (hk : k < 256) :
    (fmt0 4 (1900 + k : Nat)).length = 4 ∧ (fmt0 4 (2000 + k : Nat)).length = 4 ∧
      (fmt0 4 (2100 + k : Nat)).length = 4 ∧
      fmt0 4 (1900 + k : Nat) ≠ fmt0 4 (2000 + k : Nat) ∧
      fmt0 4 (2000 + k : Nat) ≠ fmt0 4 (2100 + k : Nat) := by
  obtain ⟨h19, hl19⟩ := fmt0_year (y := 1900 + k) (by omega) (by omega)
  obtain ⟨h20, hl20⟩ := fmt0_year (y := 2000 + k) (by omega) (by omega)
  obtain ⟨h21, hl21⟩ := fmt0_year (y := 2100 + k) (by omega) (by omega)
  rw [h19, h20, h21]
  refine ⟨hl19, hl20, hl21, fun h => ?_, fun h => ?_⟩
  · have hyears := decimal_inj h
    omega
  · have hyears := decimal_inj h
    omega

/-- The century alone makes two names. -/
theorem gribMeta_century (t : GribText) (buf : Buffer) (c : Nat) :
    gribMeta t (store buf (c + 32) [20]) c ≠ gribMeta t (store buf (c + 32) [21]) c := by
  have hcentury : ∀ b : UInt8, store buf (c + 32) [b] (c + 32) = b := fun b => store_head ..
  have hyear : ∀ b : UInt8, store buf (c + 32) [b] (c + 20) = buf (c + 20) := fun b =>
    store_before _ _ _ _ (by omega)
  have hsource : gribSource t (store buf (c + 32) [20]) c =
      gribSource t (store buf (c + 32) [21]) c :=
    gribSource_agree fun i _ hi => by
      rw [store_before _ _ _ _ (by omega), store_before _ _ _ _ (by omega)]
  have hk := year_texts (buf (c + 20)).toNat_lt
  have htexts : (fmt0 4 (gribYear (store buf (c + 32) [20]) c)).length = 4 ∧
      (fmt0 4 (gribYear (store buf (c + 32) [21]) c)).length = 4 ∧
      fmt0 4 (gribYear (store buf (c + 32) [20]) c) ≠ fmt0 4 (gribYear (store buf (c + 32) [21]) c) := by
    unfold gribYear
    rw [hcentury, hcentury, hyear, hyear]
    dsimp only
    split_ifs
    · exact ⟨hk.1, hk.2.1, hk.2.2.2.1⟩
    · exact ⟨hk.2.1, hk.2.2.1, hk.2.2.2.2⟩
  unfold gribMeta
  rw [hsource]
  intro h
  exact htexts.2.2 (List.append_inj (List.append_cancel_left h) (htexts.1.trans htexts.2.1.symm)).1

/-- And so does the subcenter where the parameter tables differ. -/
theorem gribMeta_subcenter {b : UInt8}
    (h : t.k5toa (buf (c + 11)) (buf (c + 12)) (buf (c + 13)) (buf (c + 16)) b ≠
      t.k5toa (buf (c + 11)) (buf (c + 12)) (buf (c + 13)) (buf (c + 16)) (buf (c + 33))) :
    gribMeta t (store buf (c + 33) [b]) c ≠ gribMeta t buf c := by
  rw [gribMeta_agree (agreeOn_store buf [b] (Nat.le_refl _)), store_head]
  intro heq
  have hcancel := List.append_cancel_left (List.append_cancel_left (List.append_cancel_left heq))
  exact h (List.append_cancel_right hcancel)

theorem length_pil_le (buf : Buffer) (p k : Nat) : (pil buf p k).length ≤ 6 := by
  have hlen : ((load buf p (trimSpace buf p 6)).takeWhile (· ≠ 0)).length ≤ 6 := by
    have h := (List.takeWhile_prefix (· ≠ 0) (l := load buf p (trimSpace buf p 6))).length_le
    rw [length_load] at h
    exact Nat.le_trans h (trimSpace_le buf p 6)
  unfold pil
  split
  · split
    · exact Nat.zero_le 6
    · dsimp only
      split_ifs
      · exact hlen
      · exact Nat.zero_le 6
      · exact Nat.zero_le 6
  · exact Nat.zero_le 6

/-- A name without a model is never too long. -/
theorem identify_ok (h : hdr.Short) {pil : Text} (hp : pil.length ≤ 6) (wmometa : Text)
    (metaoff : Int) : identify hdr pil [] wmometa metaoff =
      { ok := true, wmohead := wmoid hdr pil [], wmometa, metaoff } := by
  have hii : (fmt0 2 hdr.ii).length ≤ 11 := length_fmt0_int (by decide) h.ii
  have htt := h.tt
  have haa := h.aa
  have hcccc := h.cccc
  have hdd := h.ddhhmm
  have hbbb := h.bbb
  have hsep : (ascii " /p").length = 3 := rfl
  refine if_neg ?_
  unfold wmoid
  simp only [List.length_append, List.length_singleton]
  split_ifs <;> simp only [List.length_cons, List.length_nil, List.length_append, hsep] <;> omega

theorem length_wmoid (hdr : WmoHdr) {pil : Text} (h : pil ≠ []) :
    (wmoid hdr [] []).length < (wmoid hdr pil []).length := by
  have hpos := List.length_pos_iff.2 h
  unfold wmoid
  rw [if_neg (not_not.2 rfl), if_pos h]
  simp only [List.length_append]
  rw [List.length_nil]
  omega

theorem isalnum_of_pil {k p : Nat} (h : pil buf p k ≠ []) : isalnum (buf p) = true := by
  by_contra hn
  exact h (pil_of_not_alnum (Bool.eq_false_iff.2 hn) k)

/-- A line that the block does not end: with a newline behind it, it is a PIL. -/
theorem leaks_of_pil (hw : wmoGroups limit buf d = some (hdr, c))
    (hseen : (groups limit).seen buf d ≤ d + n) (hnot : NotGrib buf c (d + n))
    (hpil : ¬ PilInside buf (nmcPos buf c) (d + n)) :
    ∃ m m', AgreeOn 0 (d + n) buf m ∧ AgreeOn 0 (d + n) buf m' ∧
      (wmoHeader t limit m d n).ok = true ∧ (wmoHeader t limit m' d n).ok = true ∧
      (wmoHeader t limit m d n).wmohead.length ≠ (wmoHeader t limit m' d n).wmohead.length := by
  obtain ⟨hp, hno, hne⟩ : nmcPos buf c < d + n ∧
      (∀ i, nmcPos buf c ≤ i → i < d + n → buf i ≠ 10) ∧
      pil (store buf (d + n) [10]) (nmcPos buf c) (d + n - nmcPos buf c) ≠ [] := by
    simpa [PilInside] using hpil
  obtain ⟨hdc, -⟩ := wmoGroups_some hw
  have hcp : c ≤ nmcPos buf c := by
    unfold nmcPos
    split_ifs <;> omega
  have hleft : ∀ b : UInt8, AgreeOn 0 (d + n) buf (store buf (d + n) [b]) :=
    fun b => agreeOn_store buf [b] (Nat.le_refl _)
  have hcell : ∀ b : UInt8, store buf (d + n) [b] (d + n) = b := fun b => store_head ..
  -- the line begins with an alphanumeric character, so `^NMC` is not cut off
  have hpos : ∀ b : UInt8, nmcPos (store buf (d + n) [b]) c = nmcPos buf c := by
    intro b
    by_cases h4 : c + 4 ≤ d + n
    · unfold nmcPos
      rw [((hleft b).mono (Nat.zero_le c) h4).load (Nat.le_refl c) (Nat.le_refl _)]
    · have hpc : nmcPos buf c = c := by
        unfold nmcPos at hp ⊢
        split_ifs at hp ⊢
        · exact absurd hp (by omega)
        · rfl
      have halnum := isalnum_of_pil hne
      rw [← hleft 10 _ (Nat.zero_le _) hp, hpc] at halnum
      rw [hpc]
      refine nmcPos_of_ne fun h94 => ?_
      rw [← hleft b c (Nat.zero_le c) (hpc ▸ hp)] at h94
      rw [h94] at halnum
      exact absurd halnum (by decide)
  have hheader : ∀ b : UInt8, wmoHeader t limit (store buf (d + n) [b]) d n =
      { ok := true
        wmohead := wmoid hdr (pil (store buf (d + n) [b]) (nmcPos buf c) (d + n - nmcPos buf c)) []
        wmometa := []
        metaoff := -1 } := by
    intro b
    have hgroups := wmoGroups_agree ((hleft b).mono (Nat.zero_le d) hseen)
    have hsub : n - (nmcPos buf c - d) = d + n - nmcPos buf c := by omega
    have hshort : hdr.Short := groups_yields limit buf d hdr c (wmoGroups_eq limit buf d ▸ hw)
    unfold wmoHeader
    rw [hgroups, hw]
    dsimp only
    rw [if_neg (hnot.load_ne ((hleft b).mono (Nat.zero_le c) (Nat.le_refl _)))]
    change identify hdr (pil _ (nmcPos _ c) (n - (nmcPos _ c - d))) [] [] (-1) = _
    rw [hpos, hsub]
    exact identify_ok hshort (length_pil_le _ _ _) [] (-1)
  have hnone : pil (store buf (d + n) [0]) (nmcPos buf c) (d + n - nmcPos buf c) = [] := by
    rw [pil_behind hno hp ((hleft 0).mono (Nat.zero_le _) (Nat.le_refl _)), hcell,
      if_neg (by decide)]
  refine ⟨_, _, hleft 10, hleft 0, by rw [hheader], by rw [hheader], ?_⟩
  rw [hheader, hheader, hnone]
  exact Nat.ne_of_gt (length_wmoid hdr hne)

end Leftover
end Noaaport
