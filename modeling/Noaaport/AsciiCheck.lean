import Noaaport.Storage

/-! `prod_isascii` of `process_prod.c` and the rule in its comments. -/
namespace Noaaport
open Lib

/-- A `size_t` made of an `int`, and an `int` made of a `size_t`. -/
def sizeOfInt (i : Int) : Nat := (i % 2 ^ 64).toNat
def intOfSize (n : Nat) : Int := ((n : Int) + 2 ^ 31) % 2 ^ 32 - 2 ^ 31

/-- The loop with its `int` and its `size_t`, at most `fuel` times: the verdict, and the
indices read. -/
def isasciiScan (prod : Mem UInt8) (psize : Nat) : Nat → Int → Option (Bool × List Int)
  | 0, _ => none
  | fuel + 1, i =>
    if sizeOfInt i < sub64 psize 1 then
      if asciiAt prod psize i.toNat then
        let next := i + 1
        let next :=
          if next > 100 ∧ sizeOfInt next < sub64 psize 101 then intOfSize (sub64 psize 101) else next
        (isasciiScan prod psize fuel next).map fun x => (x.1, i :: x.2)
      else some (false, [i])
    else some (true, [])

/-- The first 100 and the last 100 bytes between the first byte and the last. -/
def Inspected (psize i : Nat) : Prop := 1 ≤ i ∧ i < psize - 1 ∧ (i ≤ 100 ∨ psize ≤ i + 101)

/-- Text, or one of NUL, LF, CR and RS. -/
def Plain (b : UInt8) : Prop :=
  32 ≤ b.toNat ∧ b.toNat ≤ 127 ∨ b.toNat = 0 ∨ b.toNat = 10 ∨ b.toNat = 13 ∨ b.toNat = 30

/-- "accept ETX in last 8 bytes" -/
def LateEtx (prod : Mem UInt8) (psize i : Nat) : Prop := (prod i).toNat = 3 ∧ psize - 9 ≤ i

def AsciiRule (prod : Mem UInt8) (psize : Nat) : Prop :=
  ∀ i, Inspected psize i → Plain (prod i) ∨ LateEtx prod psize i

section Scan
variable {prod : Mem UInt8} {psize i : Nat}

/-- The second test also stops at the ETX that the first lets pass. -/
theorem asciiAt_iff : asciiAt prod psize i = true ↔ Plain (prod i) := by
  simp only [asciiAt, Plain]
  split_ifs <;> simp <;> omega

theorem sizeOfInt_natCast (h : i < 2 ^ 64) : sizeOfInt i = i := by
  rw [sizeOfInt]
  omega

theorem intOfSize_of_lt (h : i < 2 ^ 31) : intOfSize i = i := by
  rw [intOfSize]
  omega

theorem sub64_of_le {n : Nat} (h : n ≤ psize) (hlt : psize < 2 ^ 64) : sub64 psize n = psize - n := by
  rw [sub64]
  omega

/-- The index after `i`. -/
def nextIndex (psize i : Nat) : Nat :=
  if 100 < i + 1 ∧ i + 1 < psize - 101 then psize - 101 else i + 1

theorem nextIndex_le (h : i < psize - 1) : nextIndex psize i ≤ psize - 1 := by
  unfold nextIndex
  split_ifs <;> omega

theorem lt_nextIndex : i < nextIndex psize i := by
  unfold nextIndex
  split_ifs <;> omega

/-- No inspected index is left out. -/
theorem inspected_next {j : Nat} (hj : Inspected psize j) :
    i ≤ j ↔ i = j ∨ nextIndex psize i ≤ j := by
  obtain ⟨h1, hlast, hnear⟩ := hj
  unfold nextIndex
  split_ifs <;> omega

theorem nextIndex_near : nextIndex psize i ≤ 100 ∨ psize ≤ nextIndex psize i + 101 := by
  unfold nextIndex
  split_ifs <;> omega

theorem next_index (hsize : psize < 2 ^ 31) (h : i < psize - 1) :
    (if (i : Int) + 1 > 100 ∧ sizeOfInt ((i : Int) + 1) < sub64 psize 101 then
        intOfSize (sub64 psize 101)
      else (i : Int) + 1) = nextIndex psize i := by
  have hcast : (i : Int) + 1 = (i + 1 : Nat) := by omega
  rw [hcast, sizeOfInt_natCast (by omega)]
  unfold nextIndex
  by_cases hlong : 101 ≤ psize
  · rw [sub64_of_le hlong (by omega), intOfSize_of_lt (by omega)]
    split_ifs <;> omega
  · rw [if_neg (by omega), if_neg (by omega)]

/-- The scan from an index on: it ends, it is the one of `prodIsascii`, it reads inspected bytes
only, and it finds them all to be plain or stops at one that is not. -/
theorem isasciiScan_spec (prod : Mem UInt8) (fuel : Nat) (hsize : psize < 2 ^ 31) (h1 : 1 ≤ i)
    (hi : i ≤ psize - 1) (hnear : i ≤ 100 ∨ psize ≤ i + 101) (hfuel : psize - i ≤ fuel) (h0 : i < psize) :
    ∃ is, isasciiScan prod psize fuel i = some (asciiFrom prod psize fuel i, is) ∧
      (∀ k ∈ is, ∃ j : Nat, k = j ∧ Inspected psize j) ∧
      (asciiFrom prod psize fuel i = true ↔ ∀ j, Inspected psize j → i ≤ j → Plain (prod j)) := by
  induction fuel generalizing i with
  | zero => omega
  | succ fuel ih =>
    rw [isasciiScan, asciiFrom, sizeOfInt_natCast (by omega), sub64_of_le (by omega) (by omega)]
    by_cases hlast : i < psize - 1
    · have hins : Inspected psize i := ⟨h1, hlast, hnear⟩
      rw [if_pos hlast, if_pos hlast, Int.toNat_natCast]
      by_cases hplain : asciiAt prod psize i = true
      · have hnext : (if i + 1 > 100 ∧ i + 1 < sub64 psize 101 then sub64 psize 101 else i + 1) =
            nextIndex psize i := by
          unfold nextIndex
          by_cases hlong : 101 ≤ psize
          · rw [sub64_of_le hlong (by omega)]
          · rw [if_neg (by omega), if_neg (by omega)]
        have hle := nextIndex_le hlast
        have hlt : i < nextIndex psize i := lt_nextIndex
        obtain ⟨is, hscan, hread, hverdict⟩ := ih (i := nextIndex psize i) (by omega) hle
          nextIndex_near (by omega) (by omega)
        simp only [if_pos hplain, next_index hsize hlast, hnext, hscan, Option.map_some]
        refine ⟨i :: is, rfl, ?_, ?_⟩
        · intro k hk
          rcases List.mem_cons.1 hk with rfl | hk
          · exact ⟨i, rfl, hins⟩
          · exact hread k hk
        · rw [hverdict]
          constructor
          · intro hall j hj hij
            rcases (inspected_next hj).1 hij with rfl | hjn
            · exact asciiAt_iff.1 hplain
            · exact hall j hj hjn
          · intro hall j hj hjn
            exact hall j hj ((inspected_next hj).2 (.inr hjn))
      · rw [if_neg hplain, if_neg hplain]
        refine ⟨[i], rfl, ?_, ?_⟩
        · intro k hk
          exact ⟨i, List.mem_singleton.1 hk, hins⟩
        · simp only [reduceCtorEq, false_iff]
          intro hall
          exact hplain (asciiAt_iff.2 (hall i hins (Nat.le_refl _)))
    · rw [if_neg hlast, if_neg hlast]
      refine ⟨[], rfl, List.forall_mem_nil _, ?_⟩
      simp only [true_iff]
      intro j hj hij
      exact absurd hj.2.1 (by omega)

end Scan

section Rule
variable {prod : Mem UInt8} {psize : Nat}

/-- The scan by the rule: it returns, with indices inside the product, and its
verdict is that of the rule. -/
def ScansByRule (prod : Mem UInt8) (psize : Nat) : Prop :=
  ∃ verdict is, isasciiScan prod psize psize 1 = some (verdict, is) ∧
    (∀ i ∈ is, 1 ≤ i ∧ i < (psize : Int) - 1) ∧ (verdict = true ↔ AsciiRule prod psize)

/-- An ETX that the comment lets pass. -/
def EtxAccepted (prod : Mem UInt8) (psize : Nat) : Prop :=
  AsciiRule prod psize ∧ ∃ i, psize - 9 ≤ i ∧ i < psize - 1 ∧ (prod i).toNat = 3

theorem prodIsascii_iff (hsize : psize < 2 ^ 31) (h10 : 10 ≤ psize) :
    prodIsascii prod psize = true ↔ ∀ i, Inspected psize i → Plain (prod i) := by
  obtain ⟨is, -, -, hverdict⟩ := isasciiScan_spec prod psize hsize
    (Nat.le_refl 1) (by omega) (.inl (by omega)) (by omega) (by omega)
  rw [prodIsascii, hverdict]
  exact forall_congr' fun i => ⟨fun h hi => h hi hi.1, fun h hi _ => h hi⟩

/-- The scan always returns, from inside the product, and says what the rule says, but for the
products with an ETX that the rule accepts. -/
theorem scansByRule_iff (prod : Mem UInt8) (h10 : 10 ≤ psize) (hsize : psize < 2 ^ 31) :
    ScansByRule prod psize ↔ ¬ EtxAccepted prod psize := by
  obtain ⟨is, hscan, hread, hverdict⟩ := isasciiScan_spec prod psize
    hsize (Nat.le_refl 1) (by omega) (.inl (by omega)) (by omega) (by omega)
  have hinside : ∀ i ∈ is, 1 ≤ i ∧ i < (psize : Int) - 1 := by
    intro i hi
    obtain ⟨j, rfl, h1, hlast, -⟩ := hread i hi
    omega
  have hplain : asciiFrom prod psize psize 1 = true ↔ ∀ i, Inspected psize i → Plain (prod i) :=
    prodIsascii_iff hsize h10
  constructor
  · rintro ⟨verdict, is', hscan', -, hrule⟩ ⟨haccept, i, hlate, hlast, hetx⟩
    cases hscan'.symm.trans hscan
    have hbad := hplain.1 (hrule.2 haccept) i ⟨by omega, hlast, by omega⟩
    unfold Plain at hbad
    omega
  · intro hno
    refine ⟨_, is, hscan, hinside, hplain.trans ⟨fun h i hi => .inl (h i hi), fun hrule i hi => ?_⟩⟩
    rcases hrule i hi with hp | ⟨hetx, hlate⟩
    · exact hp
    · exact absurd ⟨hrule, i, hlate, hi.2.1, hetx⟩ hno

/-- Lines of letters, with a control character at `i`. -/
def belled (i : Nat) : Mem UInt8 := fun j => if j = i then 7 else if j % 60 = 59 then 10 else 65

/-- Of 300 bytes the one in the middle is not looked at, and the one near the end is. -/
theorem scansByRule_iff_run :
    (ScansByRule (belled 150) 300 ∧ prodIsascii (belled 150) 300 = true) ∧
      ScansByRule (belled 250) 300 ∧ prodIsascii (belled 250) 300 = false := by
  have hno (i j : Nat) : (belled i j).toNat ≠ 3 := by
    unfold belled
    split_ifs <;> decide
  have hscans (i : Nat) : ScansByRule (belled i) 300 :=
    (scansByRule_iff (belled i) (by decide) (by decide)).2 fun ⟨_, j, _, _, hetx⟩ => hno i j hetx
  exact ⟨⟨hscans 150, by decide +kernel⟩, hscans 250, by decide +kernel⟩

/-- Letters, with an ETX as the last byte but one. -/
theorem late_etx_refused : ¬ ScansByRule (fun i => if i = 8 then 3 else 65) 10 := by
  rintro ⟨verdict, is, hscan, -, hrule⟩
  have hfalse : isasciiScan (fun i => if i = 8 then 3 else 65) 10 10 1 =
      some (false, [1, 2, 3, 4, 5, 6, 7, 8]) := by decide
  rw [hfalse] at hscan
  cases hscan
  refine absurd (hrule.2 fun i hi => ?_) (by decide)
  by_cases h8 : i = 8
  · exact .inr ⟨by simp only [if_pos h8]; rfl, by omega⟩
  · exact .inl (.inl (by simp only [if_neg h8]; decide))

end Rule
end Noaaport
