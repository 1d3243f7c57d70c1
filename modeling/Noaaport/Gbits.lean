import Noaaport.Lib.BitField

/-! `gbits.c` of the GRIB2 library: numbers of any width out of a packed string of bits, and into
one. A `g2int` is a `long` of 64 bits. -/
namespace Noaaport.G2
open Lib

abbrev Cgrib := Mem UInt8

def toG2int (n : Nat) : Int := if n % 2 ^ 64 < 2 ^ 63 then (n % 2 ^ 64 : Nat) else (n % 2 ^ 64 : Nat) - 2 ^ 64

/-- The table `ones`. -/
def ones (i : Nat) : Nat := 2 ^ (i + 1) - 1

/-- A `g2int` and a mask. -/
def band (x : Int) (mask : Nat) : Nat := (x % 2 ^ 64).toNat &&& mask

/-- The whole bytes and the last byte of `gbits`. -/
def gbitsRest (inp : Cgrib) : Nat → Nat → Nat → Nat
  | bitcnt + 8, index, itmp =>
    gbitsRest inp bitcnt (index + 1) ((itmp <<< 8 ||| (inp index).toNat) % 2 ^ 64)
  | bitcnt, index, itmp =>
    if bitcnt > 0 then
      (itmp <<< bitcnt ||| ((inp index).toNat >>> (8 - bitcnt) &&& ones (bitcnt - 1))) % 2 ^ 64
    else itmp

/-- One number of `gbits`. -/
def gbit (inp : Cgrib) (iskip nbyte : Nat) : Int :=
  let index := iskip / 8
  let ibit := iskip % 8
  let tbit := if nbyte < 8 - ibit then nbyte else 8 - ibit
  let itmp := (inp index).toNat &&& ones (7 - ibit)
  let itmp := if tbit ≠ 8 - ibit then itmp >>> (8 - ibit - tbit) else itmp
  toG2int (gbitsRest inp (nbyte - tbit) (index + 1) itmp)

def gbits (inp : Cgrib) (nbit nbyte nskip : Nat) : Nat → List Int
  | 0 => []
  | n + 1 => gbit inp nbit nbyte :: gbits inp (nbit + nbyte + nskip) nbyte nskip n

/-- The whole bytes and the last byte of `sbits`, which goes from the low end up. -/
def sbitsRest : Nat → Cgrib → Nat → Int → Cgrib
  | bitcnt + 8, out, index, itmp =>
    sbitsRest bitcnt (Function.update out index (UInt8.ofNat (band itmp 255))) (index - 1)
      (itmp / 2 ^ 8)
  | bitcnt, out, index, itmp =>
    if bitcnt > 0 then
      let itmp2 := band itmp (ones (bitcnt - 1))
      let itmp3 := (out index).toNat &&& (255 - ones (bitcnt - 1))
      Function.update out index (UInt8.ofNat (itmp2 ||| itmp3))
    else out

/-- One number of `sbits`. -/
def sbit (out : Cgrib) (itmp : Int) (iskip nbyte : Nat) : Cgrib :=
  let nbit := iskip + nbyte - 1
  let index := nbit / 8
  let ibit := nbit % 8
  if ibit ≠ 7 then
    let tbit := if nbyte < ibit + 1 then nbyte else ibit + 1
    let imask := ones (tbit - 1) <<< (7 - ibit)
    let itmp2 := band (itmp * 2 ^ (7 - ibit)) imask
    let itmp3 := (out index).toNat &&& (255 - imask)
    sbitsRest (nbyte - tbit) (Function.update out index (UInt8.ofNat (itmp2 ||| itmp3))) (index - 1)
      (itmp / 2 ^ tbit)
  else sbitsRest nbyte out index itmp

def sbits (out : Cgrib) (nbit nbyte nskip : Nat) : List Int → Cgrib
  | [] => out
  | itmp :: rest => sbits (sbit out itmp nbit nbyte) (nbit + nbyte + nskip) nbyte nskip rest

section Packing
variable {out : Cgrib} {x : Int} {n p : Nat}

theorem band_ones (x : Int) {k : Nat} (h0 : 0 < k) (h : k ≤ 64) : band x (ones (k - 1)) = low x k := by
  have hk : k - 1 + 1 = k := by omega
  rw [band, ones, hk, Nat.and_two_pow_sub_one_eq_mod]
  exact low_mod x h

theorem band_shift (x : Int) {k r : Nat} (h0 : 0 < k) (h : r + k ≤ 8) :
    band (x * 2 ^ r) (ones (k - 1) <<< r) = low x k * 2 ^ r := by
  have hk : k - 1 + 1 = k := by omega
  have hr : 64 = (64 - r) + r := by omega
  have hlow : (x * 2 ^ r % 2 ^ 64).toNat = low x (64 - r) <<< r := by
    rw [Nat.shiftLeft_eq, ← low_mul, ← hr]
    rfl
  rw [band, hlow, ones, hk, ← Nat.shiftLeft_and_distrib, Nat.and_two_pow_sub_one_eq_mod,
    low_mod x (by omega), Nat.shiftLeft_eq]

/-- One store of `sbits`: `k` bits of byte `index`, the lowest of them at `r`. -/
theorem overwritten_part (out : Cgrib) (index : Nat) (x : Int) {r k : Nat} (h : r + k ≤ 8) :
    Overwritten out (Function.update out index
      (UInt8.ofNat (low x k * 2 ^ r ||| ((out index).toNat &&& (255 - (2 ^ k - 1) * 2 ^ r)))))
      (8 * index + (8 - r - k)) k (low x k) := by
  apply overwritten_masked out index (low x k) h
  have hlow : low x k * 2 ^ r < 2 ^ 8 := by
    have hle := Nat.pow_le_pow_right (show 0 < 2 by decide) (show k + r ≤ 8 by omega)
    rw [Nat.pow_add] at hle
    exact Nat.lt_of_lt_of_le (Nat.mul_lt_mul_of_pos_right (low_lt x k) (Nat.pow_pos (by decide))) hle
  have hcell : (out index).toNat &&& (255 - (2 ^ k - 1) * 2 ^ r) < 2 ^ 8 :=
    Nat.lt_of_le_of_lt Nat.and_le_left (out index).toNat_lt
  rw [UInt8.toNat_ofNat_of_lt' (Nat.or_lt_two_pow hlow hcell), low_mod x (Nat.le_refl k)]

/-- `bitcnt` bits that end where byte `index` does. -/
theorem sbitsRest_overwrites {bitcnt index : Nat} (hend : p + bitcnt = 8 * (index + 1)) :
    Overwritten out (sbitsRest bitcnt out index x) p bitcnt (low x bitcnt) := by
  induction bitcnt using Nat.strongRecOn generalizing out index x with
  | ind bitcnt ih =>
    by_cases h8 : 8 ≤ bitcnt
    · obtain ⟨rest, rfl⟩ := Nat.exists_eq_add_of_le' h8
      rw [sbitsRest]
      have hbyte : band x 255 = low x 8 := band_ones x (k := 8) (by decide) (by decide)
      have hlast : Overwritten out (Function.update out index (UInt8.ofNat (band x 255)))
          (p + rest) 8 (low x (rest + 8)) := by
        have hpart := overwritten_part out index x (r := 0) (k := 8) (by decide)
        have hpos : 8 * index + (8 - 0 - 8) = p + rest := by omega
        rw [hpos] at hpart
        rw [hbyte]
        refine Overwritten.congr (v := low x 8) ?_ ?_
        · simpa using hpart
        · rw [low_mod x (Nat.le_refl 8), low_mod x (by omega)]
      refine hlast.append ?_
      rw [low_div]
      cases rest with
      | zero => exact Overwritten.none _ p _
      | succ rest => exact ih (rest + 1) (by omega) (by omega)
    · have hsmall : sbitsRest bitcnt out index x = if bitcnt > 0 then
          Function.update out index (UInt8.ofNat (band x (ones (bitcnt - 1)) |||
            ((out index).toNat &&& (255 - ones (bitcnt - 1))))) else out := by
        rw [sbitsRest]
        omega
      rw [hsmall]
      by_cases h0 : 0 < bitcnt
      · have hone : ones (bitcnt - 1) = 2 ^ bitcnt - 1 := by rw [ones, Nat.sub_add_cancel h0]
        have hpart := overwritten_part out index x (r := 0) (k := bitcnt) (by omega)
        have hpos : 8 * index + (8 - 0 - bitcnt) = p := by omega
        rw [hpos] at hpart
        rw [if_pos h0, band_ones x h0 (by omega), hone]
        simpa using hpart
      · obtain rfl : bitcnt = 0 := by omega
        rw [if_neg h0]
        exact Overwritten.none out p _

/-- `sbit` puts the low bits of the number where it should and leaves every other bit alone. -/
theorem sbit_overwrites (out : Cgrib) (x : Int) (p : Nat) (hn : 0 < n) :
    Overwritten out (sbit out x p n) p n (low x n) := by
  simp only [sbit]
  obtain ⟨nbit, hnbit⟩ : ∃ nbit, nbit = p + n - 1 := ⟨_, rfl⟩
  rw [← hnbit]
  by_cases h7 : nbit % 8 = 7
  · rw [if_neg (not_not.2 h7)]
    exact sbitsRest_overwrites (by omega)
  · rw [if_pos h7]
    obtain ⟨tbit, htbit⟩ : ∃ tbit, tbit = if n < nbit % 8 + 1 then n else nbit % 8 + 1 := ⟨_, rfl⟩
    rw [← htbit]
    have ht : 0 < tbit ∧ tbit ≤ n ∧ tbit ≤ nbit % 8 + 1 := by
      rw [htbit]
      split_ifs <;> omega
    have hone : ones (tbit - 1) <<< (7 - nbit % 8) = (2 ^ tbit - 1) * 2 ^ (7 - nbit % 8) := by
      rw [ones, Nat.sub_add_cancel ht.1, Nat.shiftLeft_eq]
    have hsplit : n = (n - tbit) + tbit := by omega
    have hfirst := overwritten_part out (nbit / 8) x (r := 7 - nbit % 8) (k := tbit) (by omega)
    have hpos : 8 * (nbit / 8) + (8 - (7 - nbit % 8) - tbit) = p + (n - tbit) := by omega
    rw [hpos, ← hone, ← band_shift x ht.1 (by omega)] at hfirst
    generalize Function.update out (nbit / 8) _ = out' at hfirst ⊢
    have hlow : Overwritten out out' (p + (n - tbit)) tbit (low x n) :=
      hfirst.congr (by rw [low_mod x ht.2.1, low_mod x (Nat.le_refl tbit)])
    have hdiv : low x n / 2 ^ tbit = low (x / 2 ^ tbit) (n - tbit) := by
      rw [← low_div, ← hsplit]
    have hrest : Overwritten out' (sbitsRest (n - tbit) out' (nbit / 8 - 1) (x / 2 ^ tbit)) p
        (n - tbit) (low x n / 2 ^ tbit) := by
      rw [hdiv]
      by_cases hrest : n - tbit = 0
      · rw [hrest]
        exact Overwritten.none out' p _
      · -- the first store ended where a byte begins
        have hfull : tbit = nbit % 8 + 1 := by
          rw [htbit] at hrest ⊢
          split_ifs at hrest ⊢ <;> omega
        exact sbitsRest_overwrites (by omega)
    have hall := hlow.append hrest
    rw [← hsplit] at hall
    exact hall

end Packing

section Unpacking
variable {inp : Cgrib} {p n : Nat}

theorem shift_or_mod (f : Nat) {b k : Nat} (hb : b < 2 ^ k) :
    ((f % 2 ^ 64) <<< k ||| b) % 2 ^ 64 = (f * 2 ^ k + b) % 2 ^ 64 := by
  rw [← Nat.shiftLeft_add_eq_or_of_lt hb, Nat.shiftLeft_eq, Nat.add_mod, Nat.mod_mul_mod,
    ← Nat.add_mod]

theorem gbitsRest_field {a bitcnt index : Nat} (hstart : p + a = 8 * index) :
    gbitsRest inp bitcnt index (field inp p a % 2 ^ 64) = field inp p (a + bitcnt) % 2 ^ 64 := by
  induction bitcnt using Nat.strongRecOn generalizing a index with
  | ind bitcnt ih =>
    by_cases h8 : 8 ≤ bitcnt
    · obtain ⟨rest, rfl⟩ := Nat.exists_eq_add_of_le' h8
      have hbyte : field inp (p + a) 8 = (inp index).toNat := by rw [hstart, field_byte]
      rw [gbitsRest, shift_or_mod _ (inp index).toNat_lt, ← hbyte, ← field_add,
        ih rest (by omega) (by omega)]
      congr 2
      omega
    · have hsmall : gbitsRest inp bitcnt index (field inp p a % 2 ^ 64) = if bitcnt > 0 then
          ((field inp p a % 2 ^ 64) <<< bitcnt |||
            ((inp index).toNat >>> (8 - bitcnt) &&& ones (bitcnt - 1))) % 2 ^ 64
          else field inp p a % 2 ^ 64 := by
        rw [gbitsRest]
        omega
      rw [hsmall]
      by_cases h0 : 0 < bitcnt
      · have hpart := field_part inp index 0 bitcnt (by omega)
        rw [Nat.add_zero, ← hstart, Nat.sub_zero] at hpart
        have hlast : (inp index).toNat >>> (8 - bitcnt) &&& ones (bitcnt - 1) =
            field inp (p + a) bitcnt := by
          rw [ones, Nat.sub_add_cancel h0, Nat.and_two_pow_sub_one_eq_mod, Nat.shiftRight_eq_div_pow,
            hpart]
        rw [if_pos h0, hlast, shift_or_mod _ (field_lt inp _ _), ← field_add]
      · obtain rfl : bitcnt = 0 := by omega
        rw [if_neg h0, Nat.add_zero]

/-- `gbit` reads the number in the bits it is given. -/
theorem gbit_field (inp : Cgrib) (p n : Nat) : gbit inp p n = toG2int (field inp p n) := by
  simp only [gbit]
  obtain ⟨tbit, htbit⟩ : ∃ tbit, tbit = if n < 8 - p % 8 then n else 8 - p % 8 := ⟨_, rfl⟩
  rw [← htbit]
  have ht : tbit ≤ n ∧ p % 8 + tbit ≤ 8 := by
    rw [htbit]
    split_ifs <;> omega
  have hp : p = 8 * (p / 8) + p % 8 := by omega
  have hpart := field_part inp (p / 8) (p % 8) tbit ht.2
  rw [← hp] at hpart
  have hitmp : (if tbit ≠ 8 - p % 8 then
      ((inp (p / 8)).toNat &&& ones (7 - p % 8)) >>> (8 - p % 8 - tbit)
      else (inp (p / 8)).toNat &&& ones (7 - p % 8)) = field inp p tbit % 2 ^ 64 := by
    have hsmall : field inp p tbit < 2 ^ 64 :=
      Nat.lt_of_lt_of_le (field_lt inp p tbit) (Nat.pow_le_pow_right (by decide) (by omega))
    have hwidth : 7 - p % 8 + 1 = 8 - p % 8 := by omega
    have hsplit : 2 ^ (8 - p % 8) = 2 ^ (8 - p % 8 - tbit) * 2 ^ tbit := by
      rw [← Nat.pow_add]
      congr 1
      omega
    rw [Nat.mod_eq_of_lt hsmall, hpart, ones, hwidth, Nat.and_two_pow_sub_one_eq_mod]
    by_cases hfull : tbit = 8 - p % 8
    · rw [if_neg (not_not.2 hfull), hfull, Nat.sub_self, Nat.pow_zero, Nat.div_one]
    · rw [if_pos hfull, Nat.shiftRight_eq_div_pow, hsplit, Nat.mod_mul_right_div_self]
  rw [hitmp]
  have hmod : ∀ f, toG2int (f % 2 ^ 64) = toG2int f := by
    intro f
    rw [toG2int, toG2int, Nat.mod_mod]
  by_cases hrest : n - tbit = 0
  · have hn : tbit = n := by omega
    rw [hrest, hn]
    exact hmod _
  · -- the first byte was used up
    have hfull : tbit = 8 - p % 8 := by
      rw [htbit] at hrest ⊢
      split_ifs at hrest ⊢ <;> omega
    rw [gbitsRest_field (by omega), show tbit + (n - tbit) = n by omega, hmod]

theorem toG2int_of_lt {f : Nat} (h : f < 2 ^ 63) : toG2int f = f := by
  have hmod : f % 2 ^ 64 = f := Nat.mod_eq_of_lt (by omega)
  rw [toG2int, hmod, if_pos h]

theorem gbit_of_le (inp : Cgrib) (p : Nat) (hn : n ≤ 63) : gbit inp p n = field inp p n := by
  have hle := Nat.pow_le_pow_right (show 0 < 2 by decide) hn
  rw [gbit_field, toG2int_of_lt (Nat.lt_of_lt_of_le (field_lt inp p n) hle)]

end Unpacking

section RoundTrip
variable {out : Cgrib} {x : Int} {p q n k : Nat}

theorem gbit_sbit (out : Cgrib) (p : Nat) (hn : 0 < n) (hn' : n ≤ 63) (h0 : 0 ≤ x) (hx : x < 2 ^ n) :
    gbit (sbit out x p n) p n = x := by
  rw [gbit_of_le _ _ hn', (sbit_overwrites out x p hn).field_self, low_mod x (Nat.le_refl n), natCast_low]
  exact Int.emod_eq_of_lt h0 hx

theorem gbit_sbit_other (out : Cgrib) (x : Int) (hn : 0 < n) (hd : q + k ≤ p ∨ p + n ≤ q) :
    gbit (sbit out x p n) q k = gbit out q k := by
  rw [gbit_field, gbit_field, (sbit_overwrites out x p hn).field_other hd]

/-- The bits between and around the numbers. -/
def Between (p n nskip len q : Nat) : Prop :=
  ∀ i < len, ¬ (p + i * (n + nskip) ≤ q ∧ q < p + i * (n + nskip) + n)

theorem sbits_frame (out : Cgrib) (hn : 0 < n) (nskip : Nat) (xs : List Int)
    (hq : Between p n nskip xs.length q) : bitAt (sbits out p n nskip xs) q = bitAt out q := by
  induction xs generalizing out p with
  | nil => rfl
  | cons x xs ih =>
    have hfirst := hq 0 (by simp)
    have hrest : Between (p + n + nskip) n nskip xs.length q := by
      intro i hi
      have hnext := hq (i + 1) (by simpa using hi)
      have hpos : p + (i + 1) * (n + nskip) = p + n + nskip + i * (n + nskip) := by ring
      rwa [hpos] at hnext
    rw [Nat.zero_mul, Nat.add_zero] at hfirst
    rw [sbits, ih _ hrest, sbit_overwrites out x p hn q, if_neg hfirst]

theorem gbits_of_sbits (out : Cgrib) (p : Nat) (hn : 0 < n) (hn' : n ≤ 63) (nskip : Nat) (xs : List Int) :
    gbits (sbits out p n nskip xs) p n nskip xs.length = xs.map (fun x => x % 2 ^ n) := by
  induction xs generalizing out p with
  | nil => rfl
  | cons x xs ih =>
    have hkept : field (sbits (sbit out x p n) (p + n + nskip) n nskip xs) p n =
        field (sbit out x p n) p n := by
      apply field_congr
      intro q hq hq'
      apply sbits_frame _ hn
      intro i hi
      omega
    have hfirst : gbit (sbits (sbit out x p n) (p + n + nskip) n nskip xs) p n = x % 2 ^ n := by
      rw [gbit_of_le _ _ hn', hkept, (sbit_overwrites out x p hn).field_self,
        low_mod x (Nat.le_refl n), natCast_low]
    rw [sbits, List.length_cons, gbits, hfirst, ih, List.map_cons]

/-- What `sbits` packs, `gbits` unpacks: the low bits of every number, at any width, spacing and
bit offset; and no bit between or around them changes. -/
theorem gbits_sbits (out : Cgrib) (p : Nat) (hn : 0 < n) (hn' : n ≤ 63) (nskip : Nat) (xs : List Int) :
    gbits (sbits out p n nskip xs) p n nskip xs.length = xs.map (fun x => x % 2 ^ n) ∧
      ∀ q, Between p n nskip xs.length q → bitAt (sbits out p n nskip xs) q = bitAt out q :=
  ⟨gbits_of_sbits out p hn hn' nskip xs, fun _ hq => sbits_frame out hn nskip xs hq⟩

theorem gbits_sbits_run :
    gbits (sbits (fun _ => 255) 3 11 2 [5, -1, 700]) 3 11 2 3 = [5, 2047, 700] :=
  (gbits_sbits (fun _ => 255) 3 (by decide) (by decide) 2 [5, -1, 700]).1

end RoundTrip
end Noaaport.G2
