import Mathlib.Data.Nat.Bitwise
import Mathlib.Tactic.NormNum
import Mathlib.Tactic.Ring
import Noaaport.Lib.Memory

/-! Bit fields in a byte memory, the most significant bit of a byte first: their values, what
overwriting one leaves of the others, and the masks that do it. -/
namespace Noaaport.Lib

def bitAt (m : Mem UInt8) (p : Nat) : Bool := (m (p / 8)).toNat.testBit (7 - p % 8)

/-- The number in the `n` bits from `p` on. -/
def field (m : Mem UInt8) (p : Nat) : Nat → Nat
  | 0 => 0
  | n + 1 => 2 * field m p n + (bitAt m (p + n)).toNat

/-- `m'` has `v` in the `n` bits from `p` on and is `m` elsewhere. -/
def Overwritten (m m' : Mem UInt8) (p n v : Nat) : Prop :=
  ∀ q, bitAt m' q = if p ≤ q ∧ q < p + n then v.testBit (p + n - 1 - q) else bitAt m q

section Value
variable {m m' : Mem UInt8} {p n : Nat}

theorem field_lt (m : Mem UInt8) (p n : Nat) : field m p n < 2 ^ n := by
  induction n with
  | zero => simp [field]
  | succ n ih =>
    have hbit := Bool.toNat_le (bitAt m (p + n))
    rw [field, Nat.pow_succ]
    omega

theorem field_add (m : Mem UInt8) (p a b : Nat) :
    field m p (a + b) = field m p a * 2 ^ b + field m (p + a) b := by
  induction b with
  | zero => simp [field]
  | succ b ih =>
    calc field m p (a + (b + 1))
        = 2 * field m p (a + b) + (bitAt m (p + (a + b))).toNat := rfl
      _ = 2 * (field m p a * 2 ^ b + field m (p + a) b) + (bitAt m (p + a + b)).toNat := by
          rw [ih, Nat.add_assoc p a b]
      _ = field m p a * 2 ^ (b + 1) + field m (p + a) (b + 1) := by
          rw [field, Nat.pow_succ]
          ring

theorem field_congr (h : ∀ q, p ≤ q → q < p + n → bitAt m q = bitAt m' q) :
    field m p n = field m' p n := by
  induction n with
  | zero => rfl
  | succ n ih =>
    have hrest := ih fun q hq hn => h q hq (by omega)
    rw [field, field, hrest, h (p + n) (by omega) (by omega)]

theorem testBit_field {i : Nat} (h : i < n) :
    (field m p n).testBit i = bitAt m (p + n - 1 - i) := by
  induction n generalizing i with
  | zero => omega
  | succ n ih =>
    have hbit := Bool.toNat_le (bitAt m (p + n))
    cases i with
    | zero =>
      have hmod : (2 * field m p n + (bitAt m (p + n)).toNat) % 2 = (bitAt m (p + n)).toNat := by
        omega
      rw [field, Nat.testBit_zero, hmod]
      cases h' : bitAt m (p + n) <;> simp [h']
    | succ i =>
      have hhalf : (2 * field m p n + (bitAt m (p + n)).toNat) / 2 = field m p n := by omega
      have hpos : p + (n + 1) - 1 - (i + 1) = p + n - 1 - i := by omega
      rw [field, Nat.testBit_succ, hhalf, ih (by omega), hpos]

/-- A number is the value of a field when it has its bits. -/
theorem field_eq {v : Nat} (hv : v < 2 ^ n)
    (h : ∀ i, i < n → v.testBit i = bitAt m (p + n - 1 - i)) : field m p n = v := by
  apply Nat.eq_of_testBit_eq
  intro i
  by_cases hi : i < n
  · rw [testBit_field hi, h i hi]
  · have hle := Nat.pow_le_pow_right (show 0 < 2 by decide) (Nat.le_of_not_lt hi)
    have hf := field_lt m p n
    rw [Nat.testBit_lt_two_pow (by omega), Nat.testBit_lt_two_pow (by omega)]

/-- A field inside a byte. -/
theorem field_part (m : Mem UInt8) (i j k : Nat) (h : j + k ≤ 8) :
    field m (8 * i + j) k = (m i).toNat / 2 ^ (8 - j - k) % 2 ^ k := by
  refine field_eq (Nat.mod_lt _ (Nat.pow_pos (by decide))) ?_
  intro t ht
  have hcell : (8 * i + j + k - 1 - t) / 8 = i := by omega
  have hbit : 7 - (8 * i + j + k - 1 - t) % 8 = t + (8 - j - k) := by omega
  rw [bitAt, hcell, hbit, Nat.testBit_mod_two_pow, Nat.testBit_div_two_pow]
  simp [ht]

theorem field_byte (m : Mem UInt8) (i : Nat) : field m (8 * i) 8 = (m i).toNat := by
  have hlt := (m i).toNat_lt
  have hpart := field_part m i 0 8 (by decide)
  rw [Nat.add_zero] at hpart
  rw [hpart, Nat.pow_zero, Nat.div_one, Nat.mod_eq_of_lt (by omega)]

/-- Two cells with the same bits. -/
theorem cell_eq {i : Nat} (h : ∀ j, j < 8 → bitAt m' (8 * i + j) = bitAt m (8 * i + j)) :
    m' i = m i := by
  have hfield : field m' (8 * i) 8 = field m (8 * i) 8 := by
    apply field_congr
    intro q hq hq'
    obtain ⟨j, rfl⟩ := Nat.exists_eq_add_of_le hq
    exact h j (by omega)
  rw [field_byte, field_byte] at hfield
  exact UInt8.toNat_inj.1 hfield

end Value

section Low
variable {x : Int}

/-- The low `k` bits of an integer in two's complement. -/
def low (x : Int) (k : Nat) : Nat := (x % 2 ^ k).toNat

theorem natCast_low (x : Int) (k : Nat) : (low x k : Int) = x % 2 ^ k :=
  Int.toNat_of_nonneg (Int.emod_nonneg _ (ne_of_gt (pow_pos (by decide) k)))

theorem low_lt (x : Int) (k : Nat) : low x k < 2 ^ k := by
  have h := Int.emod_lt_of_pos x (pow_pos (by decide : (0 : Int) < 2) k)
  rw [← natCast_low] at h
  exact_mod_cast h

theorem low_mod (x : Int) {j k : Nat} (h : j ≤ k) : low x k % 2 ^ j = low x j := by
  have hdvd : (2 : Int) ^ j ∣ 2 ^ k := pow_dvd_pow 2 h
  have hcast : ((low x k % 2 ^ j : Nat) : Int) = low x j := by
    rw [Int.natCast_mod, natCast_low, natCast_low]
    push_cast
    exact Int.emod_emod_of_dvd x hdvd
  exact_mod_cast hcast

theorem low_div (x : Int) (a b : Nat) : low x (a + b) / 2 ^ b = low (x / 2 ^ b) a := by
  have hpos : (0 : Int) < 2 ^ b := pow_pos (by decide) b
  have hx : x = low x (a + b) + 2 ^ b * (2 ^ a * (x / 2 ^ (a + b))) := by
    rw [natCast_low, ← mul_assoc, ← pow_add, Nat.add_comm b a]
    exact (Int.emod_add_mul_ediv x _).symm
  have hdiv : x / 2 ^ b = low x (a + b) / 2 ^ b + 2 ^ a * (x / 2 ^ (a + b)) := by
    conv_lhs => rw [hx]
    rw [Int.add_mul_ediv_left _ _ (ne_of_gt hpos)]
  have hlt : low x (a + b) / 2 ^ b < 2 ^ a := by
    rw [Nat.div_lt_iff_lt_mul (Nat.pow_pos (by decide)), ← pow_add]
    exact low_lt x _
  have hcast : ((low x (a + b) / 2 ^ b : Nat) : Int) = low (x / 2 ^ b) a := by
    rw [natCast_low, hdiv, Int.add_mul_emod_self_left]
    push_cast
    rw [Int.emod_eq_of_lt (Int.ediv_nonneg (Int.natCast_nonneg _) (le_of_lt hpos))]
    exact_mod_cast hlt
  exact_mod_cast hcast

theorem low_mul (x : Int) (a r : Nat) : low (x * 2 ^ r) (a + r) = low x a * 2 ^ r := by
  have hpos : (0 : Int) < 2 ^ r := pow_pos (by decide) r
  have hcast : (low (x * 2 ^ r) (a + r) : Int) = (low x a * 2 ^ r : Nat) := by
    push_cast
    rw [natCast_low, natCast_low, pow_add, mul_comm x, mul_comm ((2 : Int) ^ a),
      Int.mul_emod_mul_of_pos _ _ hpos, mul_comm]
  exact_mod_cast hcast

theorem low_of_lt {n k : Nat} (h : n < 2 ^ k) : low (n : Int) k = n := by
  have hcast : (low (n : Int) k : Int) = n := by
    rw [natCast_low]
    exact Int.emod_eq_of_lt (Int.natCast_nonneg n) (by exact_mod_cast h)
  exact_mod_cast hcast

end Low

section Overwriting
variable {m m' m'' : Mem UInt8} {p n v : Nat}

theorem Overwritten.field_self (h : Overwritten m m' p n v) : field m' p n = v % 2 ^ n := by
  refine field_eq (Nat.mod_lt _ (Nat.pow_pos (by decide))) ?_
  intro i hi
  have hback : p + n - 1 - (p + n - 1 - i) = i := by omega
  rw [h, if_pos (by omega), hback, Nat.testBit_mod_two_pow]
  simp [hi]

/-- A disjoint field keeps its value. -/
theorem Overwritten.field_other {p' n' : Nat} (h : Overwritten m m' p n v)
    (hd : p' + n' ≤ p ∨ p + n ≤ p') : field m' p' n' = field m p' n' := by
  apply field_congr
  intro q hq hq'
  rw [h, if_neg (by omega)]

theorem Overwritten.cell {i : Nat} (h : Overwritten m m' p n v)
    (hd : 8 * i + 8 ≤ p ∨ p + n ≤ 8 * i) : m' i = m i := by
  apply cell_eq
  intro j hj
  rw [h, if_neg (by omega)]

theorem Overwritten.none (m : Mem UInt8) (p v : Nat) : Overwritten m m p 0 v := by
  intro q
  rw [if_neg (by omega)]

/-- The low end first, then the rest in front of it. -/
theorem Overwritten.append {a b : Nat} (hlow : Overwritten m m' (p + a) b v)
    (hhigh : Overwritten m' m'' p a (v / 2 ^ b)) : Overwritten m m'' p (a + b) v := by
  intro q
  rw [hhigh, hlow]
  by_cases h1 : p ≤ q ∧ q < p + a
  · have hpos : p + a - 1 - q + b = p + (a + b) - 1 - q := by omega
    rw [if_pos h1, if_pos (by omega), Nat.testBit_div_two_pow, hpos]
  · by_cases h2 : p + a ≤ q ∧ q < p + a + b
    · rw [if_neg h1, if_pos h2, if_pos (by omega), Nat.add_assoc]
    · rw [if_neg h1, if_neg h2, if_neg (by omega)]

/-- Only the low bits of the number matter. -/
theorem Overwritten.congr {w : Nat} (h : Overwritten m m' p n v) (hw : w % 2 ^ n = v % 2 ^ n) :
    Overwritten m m' p n w := by
  intro q
  rw [h]
  by_cases hq : p ≤ q ∧ q < p + n
  · have hbit := congrArg (Nat.testBit · (p + n - 1 - q)) hw
    simp only [Nat.testBit_mod_two_pow] at hbit
    rw [if_pos hq, if_pos hq]
    simpa [show p + n - 1 - q < n by omega] using hbit.symm
  · rw [if_neg hq, if_neg hq]

/-- All bits but `k`, from the `r`-th lowest on. -/
theorem testBit_mask : ∀ r < 9, ∀ k < 9, ∀ j < 8, r + k ≤ 8 →
    (255 - (2 ^ k - 1) * 2 ^ r).testBit j = !decide (r ≤ j ∧ j < r + k) := by
  decide +kernel

/-- A byte with `k` of its bits replaced. -/
theorem overwritten_masked (m : Mem UInt8) (i w : Nat) {r k : Nat} (h : r + k ≤ 8) {b : UInt8}
    (hb : b.toNat = (w % 2 ^ k * 2 ^ r) ||| ((m i).toNat &&& (255 - (2 ^ k - 1) * 2 ^ r))) :
    Overwritten m (Function.update m i b) (8 * i + (8 - r - k)) k w := by
  intro q
  by_cases hcell : q / 8 = i
  · have hq : q = 8 * i + q % 8 := by omega
    have hlt : 7 - q % 8 < 8 := by omega
    have hmask := testBit_mask r (by omega) k (by omega) (7 - q % 8) hlt h
    have hshift : (w % 2 ^ k * 2 ^ r).testBit (7 - q % 8) =
        (decide (r ≤ 7 - q % 8) && (decide (7 - q % 8 - r < k) && w.testBit (7 - q % 8 - r))) := by
      rw [Nat.testBit_mul_two_pow, Nat.testBit_mod_two_pow]
    rw [bitAt, bitAt, hcell, Function.update_self, hb, Nat.testBit_or, Nat.testBit_and, hshift, hmask]
    by_cases hin : r ≤ 7 - q % 8 ∧ 7 - q % 8 < r + k
    · have hpos : 8 * i + (8 - r - k) + k - 1 - q = 7 - q % 8 - r := by omega
      rw [if_pos (by omega), hpos]
      simp [hin, show 7 - q % 8 - r < k by omega]
    · rw [if_neg (by omega)]
      have hout : ¬ (r ≤ 7 - q % 8 ∧ 7 - q % 8 - r < k) := by omega
      simp only [hin, decide_false, Bool.not_false, Bool.and_true]
      by_cases hr : r ≤ 7 - q % 8
      · simp [show ¬ 7 - q % 8 - r < k by omega]
      · simp [hr]
  · rw [bitAt, Function.update_of_ne hcell, if_neg (by omega), bitAt]

end Overwriting
section Ranges
variable {m m' m'' : Mem UInt8} {a b c d p n : Nat}

/-- The bits from `a` up to `b` are the same. -/
def SameBits (m m' : Mem UInt8) (a b : Nat) : Prop := ∀ q, a ≤ q → q < b → bitAt m q = bitAt m' q

/-- Only bits from `a` up to `b` differ. -/
def Kept (m m' : Mem UInt8) (a b : Nat) : Prop := ∀ q, q < a ∨ b ≤ q → bitAt m q = bitAt m' q

theorem SameBits.refl (m : Mem UInt8) (a b : Nat) : SameBits m m a b := fun _ _ _ => rfl

theorem SameBits.symm (h : SameBits m m' a b) : SameBits m' m a b := fun q ha hb => (h q ha hb).symm

theorem SameBits.trans (h : SameBits m m' a b) (h' : SameBits m' m'' a b) : SameBits m m'' a b :=
  fun q ha hb => (h q ha hb).trans (h' q ha hb)

theorem SameBits.mono (h : SameBits m m' a b) (hc : a ≤ c) (hd : d ≤ b) : SameBits m m' c d :=
  fun q ha hb => h q (by omega) (by omega)

theorem SameBits.field (h : SameBits m m' a b) (hp : a ≤ p) (hn : p + n ≤ b) :
    field m p n = field m' p n :=
  field_congr fun q hq hq' => h q (by omega) (by omega)

theorem SameBits.cell {i : Nat} (h : SameBits m m' a b) (ha : a ≤ 8 * i) (hb : 8 * i + 8 ≤ b) :
    m i = m' i :=
  cell_eq fun j hj => h (8 * i + j) (by omega) (by omega)

theorem Kept.refl (m : Mem UInt8) (a b : Nat) : Kept m m a b := fun _ _ => rfl

theorem Kept.mono (h : Kept m m' a b) (hc : c ≤ a) (hd : b ≤ d) : Kept m m' c d :=
  fun q hq => h q (by omega)

theorem Kept.trans (h : Kept m m' a b) (h' : Kept m' m'' a b) : Kept m m'' a b :=
  fun q hq => (h q hq).trans (h' q hq)

theorem Kept.append (h : Kept m m' a b) (h' : Kept m' m'' b c) (hab : a ≤ b) (hbc : b ≤ c) :
    Kept m m'' a c :=
  (h.mono (Nat.le_refl a) hbc).trans (h'.mono hab (Nat.le_refl c))

theorem Kept.same (h : Kept m m' a b) (hd : d ≤ a ∨ b ≤ c) : SameBits m m' c d :=
  fun q hc hd => h q (by omega)

theorem Overwritten.kept {v : Nat} (h : Overwritten m m' p n v) : Kept m m' p (p + n) := by
  intro q hq
  rw [h, if_neg (by omega)]

theorem kept_of_cells (h : ∀ i, i < a ∨ b ≤ i → m i = m' i) : Kept m m' (8 * a) (8 * b) := by
  intro q hq
  rw [bitAt, bitAt, h (q / 8) (by omega)]

end Ranges
end Noaaport.Lib
