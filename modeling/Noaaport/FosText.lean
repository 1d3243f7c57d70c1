import Noaaport.Assembly

/-! The FOS start of message: what `sprintf` makes of a sequence number on the wire. -/
namespace Noaaport
open Lib

def digit (d : Nat) : UInt8 := UInt8.ofNat (48 + d)

/-- Three decimal digits. -/
def digits3 (n : Nat) : Text := [digit (n / 100 % 10), digit (n / 10 % 10), digit (n % 10)]

/-- SOH CR CR LF, the number modulo 1000, space, CR CR LF. -/
def fosText (n : Nat) : List UInt8 := [1, 13, 13, 10] ++ digits3 (n % 1000) ++ [32, 13, 13, 10]

/-- The 32 bits of the sequence number in a PDH. -/
def seqnoBits (buf : Buffer) (a : Nat) : Nat := be16 buf (a + 12) * 65536 + be16 buf (a + 14)

def State.decodePdh (s : State) (buf : Buffer) (a : Nat) : State :=
  s.setInp { s.inp with pdh := readpdh buf a }

/-- The header record of a product leaves this text at the start of the heap, and the first data
byte goes where its NUL stands. -/
structure FosRight (lib : Library) (n : Nat) (s : State) : Prop where
  text : load (nwstgHeader lib s.resetHeap).asm.out.memheap.mem 0 12 = fosText n ++ [0]
  heapcount : (nwstgHeader lib s.resetHeap).v.heapcount = (fosText n).length

section Digits

theorem digitChar_digit : ∀ d < 10, UInt8.ofNat (Nat.digitChar d).toNat = digit d := by decide

theorem digit_ne_sign : ∀ d < 10, digit d ≠ 45 := by decide

theorem decimal_digit {d : Nat} (h : d < 10) : decimal d = [digit d] := by
  rw [decimal, Nat.toDigits_of_lt_base h, List.map_singleton, digitChar_digit d h]

theorem decimal_step {n : Nat} (h : 10 ≤ n) : decimal n = decimal (n / 10) ++ [digit (n % 10)] := by
  have hlast := decimal_digit (Nat.mod_lt n (by decide : 0 < 10))
  rw [decimal, Nat.toDigits_of_lt_base (Nat.mod_lt n (by decide))] at hlast
  rw [decimal, Nat.toDigits_of_base_le (by decide) h, List.map_append, hlast, decimal]

/-- A number below 1000 is padded to three digits. -/
theorem fmt03_digits {n : Nat} (h : n < 1000) : fmt03 n = digits3 n := by
  have hpos : ¬ (n : Int) < 0 := by omega
  simp only [fmt03, if_neg hpos, Int.natAbs_natCast, digits3]
  by_cases h1 : n < 10
  · rw [decimal_digit h1, show n / 100 % 10 = 0 by omega, show n / 10 % 10 = 0 by omega,
      show n % 10 = n by omega]
    rfl
  · rw [decimal_step (by omega)]
    by_cases h2 : n < 100
    · rw [decimal_digit (show n / 10 < 10 by omega), show n / 100 % 10 = 0 by omega,
        show n / 10 % 10 = n / 10 by omega]
      rfl
    · rw [decimal_step (show 10 ≤ n / 10 by omega), decimal_digit (show n / 10 / 10 < 10 by omega),
        show n / 100 % 10 = n / 10 / 10 by omega]
      rfl

/-- The remainder of a negative number keeps its sign. -/
theorem fmt03_sign {k : Nat} (h : 0 < k) : (fmt03 (-(k : Int)))[0]? = some 45 := by
  have hneg : -(k : Int) < 0 := by omega
  simp only [fmt03, if_pos hneg]
  rfl

theorem length_fmt03_le (n : Int) : 3 ≤ (fmt03 n).length := by
  simp only [fmt03, List.length_append, List.length_replicate]
  omega

/-- Three digits and a sign at most. -/
theorem length_fmt03_tmod (n : Int) : (fmt03 (n.tmod 1000)).length ≤ 4 := by
  have hlt : (n.tmod 1000).natAbs < 10 ^ (2 + 1) := by
    rw [Int.natAbs_tmod]
    exact Nat.mod_lt _ (by decide)
  have hdigits := length_decimal_le_iff.2 hlt
  simp only [fmt03, List.length_append, List.length_replicate]
  split_ifs
  · rw [List.length_singleton]
    omega
  · rw [List.length_nil]
    omega

theorem seqnoBits_lt (buf : Buffer) (a : Nat) : seqnoBits buf a < 2 ^ 32 := by
  have h1 := be16_lt buf (a + 12)
  have h2 := be16_lt buf (a + 14)
  unfold seqnoBits
  omega

/-- The number as C reads it and takes the remainder of it. -/
theorem wire_remainder (buf : Buffer) (a : Nat) :
    (readpdh buf a).seqno.tmod 1000 =
      if seqnoBits buf a < 2 ^ 31 then ((seqnoBits buf a % 1000 : Nat) : Int)
      else -((2 ^ 32 - seqnoBits buf a) % 1000 : Nat) := by
  have hwire := seqnoBits_lt buf a
  have hread : (readpdh buf a).seqno = be32 buf (a + 12) := by rw [readpdh]
  have hvalue : be32 buf (a + 12) = if seqnoBits buf a < 2 ^ 31 then (seqnoBits buf a : Int)
      else (seqnoBits buf a : Int) - 2 ^ 32 := by
    simp only [be32, seqnoBits, Nat.add_assoc]
    rfl
  rw [hread, hvalue]
  by_cases h : seqnoBits buf a < 2 ^ 31
  · rw [if_pos h, if_pos h, Int.ofNat_tmod]
    rfl
  · have hneg : (seqnoBits buf a : Int) - 2 ^ 32 = -((2 ^ 32 - seqnoBits buf a : Nat) : Int) := by
      omega
    rw [if_neg h, if_neg h, hneg, Int.neg_tmod, Int.ofNat_tmod]
    rfl

/-- Below `2 ^ 31`, -/
theorem fosHeader_low {buf : Buffer} {a : Nat} (h : seqnoBits buf a < 2 ^ 31) :
    fosHeader (readpdh buf a).seqno = fosText (seqnoBits buf a) := by
  rw [fosHeader, wire_remainder, if_pos h, fmt03_digits (Nat.mod_lt _ (by decide))]
  rfl

/-- and not from there on: the number has a sign, or it is "000" for 296. -/
theorem fosHeader_high {buf : Buffer} {a : Nat} (h : ¬ seqnoBits buf a < 2 ^ 31) {n : Nat}
    (hn : n % 1000 = seqnoBits buf a % 1000) :
    (fosHeader (readpdh buf a).seqno)[4]? ≠ (fosText n)[4]? := by
  have hwire := seqnoBits_lt buf a
  have htext : (fosText n)[4]? = some (digit (n % 1000 / 100 % 10)) := rfl
  have hhead : ∀ t : Text, 3 ≤ t.length → ([1, 13, 13, 10] ++ t ++ [32, 13, 13, 10])[4]? = t[0]? := by
    intro t ht
    rw [List.append_assoc, List.getElem?_append_right (by decide), List.getElem?_append_left (by
      simp only [List.length_cons, List.length_nil]; omega)]
    rfl
  rw [htext, fosHeader, wire_remainder, if_neg h, hhead _ (length_fmt03_le _)]
  by_cases h0 : (2 ^ 32 - seqnoBits buf a) % 1000 = 0
  · have h296 : n % 1000 / 100 % 10 = 2 := by omega
    rw [h0, h296, show (-((0 : Nat) : Int)) = (0 : Nat) from rfl, fmt03_digits (by decide)]
    decide
  · rw [fmt03_sign (Nat.pos_of_ne_zero h0), ne_eq, Option.some.injEq]
    exact (digit_ne_sign _ (Nat.mod_lt _ (by decide))).symm

end Digits

section Heap
variable {buf : Buffer} {a n : Nat}

theorem length_fosText (n : Nat) : (fosText n).length = 11 := rfl

theorem length_fosHeader (n : Int) : 11 ≤ (fosHeader n).length := by
  have := length_fmt03_le (n.tmod 1000)
  simp only [fosHeader, List.length_append, List.length_cons, List.length_nil]
  omega

theorem length_fosHeader_le (n : Int) : (fosHeader n).length ≤ 12 := by
  have := length_fmt03_tmod n
  simp only [fosHeader, List.length_append, List.length_cons, List.length_nil]
  omega

/-- What the header record puts at the start of the heap. -/
theorem fosRight_text (lib : Library) (s : State) (n : Nat) :
    FosRight lib n s ↔ (fosHeader s.inp.pdh.seqno ++ [0]).take 12 = fosText n ++ [0] := by
  have hlen : 12 ≤ (fosHeader s.inp.pdh.seqno ++ [0]).length := by
    have := length_fosHeader s.inp.pdh.seqno
    rw [List.length_append, List.length_singleton]
    omega
  obtain ⟨m, hm⟩ : ∃ m, (nwstgHeader lib s.resetHeap).asm.out.memheap.mem =
      store m 0 (fosHeader s.inp.pdh.seqno ++ [0]) := ⟨_, rfl⟩
  have hload : load (nwstgHeader lib s.resetHeap).asm.out.memheap.mem 0 12 =
      (fosHeader s.inp.pdh.seqno ++ [0]).take 12 := by
    rw [hm, ← load_take _ _ _ 12 hlen, load_store]
  exact ⟨fun h => hload.symm.trans h.text, fun h => ⟨hload.trans h, rfl⟩⟩

theorem fosRight_decoded (lib : Library) (s : State) (buf : Buffer) (a : Nat) :
    FosRight lib (seqnoBits buf a) (s.decodePdh buf a) ↔ seqnoBits buf a < 2 ^ 31 := by
  rw [fosRight_text]
  change (fosHeader (readpdh buf a).seqno ++ [0]).take 12 = _ ↔ _
  constructor
  · intro h
    by_contra hhigh
    have h4 := congrArg (·[4]?) h
    have hlen := length_fosHeader (readpdh buf a).seqno
    simp only [List.getElem?_take_of_lt (show 4 < 12 by decide)] at h4
    rw [List.getElem?_append_left (by omega),
      List.getElem?_append_left (by rw [length_fosText]; decide)] at h4
    exact fosHeader_high hhigh rfl h4
  · intro hlow
    rw [fosHeader_low hlow]
    rfl

/-- The header is the documented one for the numbers below `2 ^ 31`, and no other: from there on
the remainder is negative. Two numbers that agree modulo 1000 have one header if they are on the
same side of `2 ^ 31`. -/
theorem fosRight_iff (lib : Library) (s : State) (buf : Buffer) (a : Nat) :
    (FosRight lib (seqnoBits buf a) (s.decodePdh buf a) ↔ seqnoBits buf a < 2 ^ 31) ∧
    ∀ buf' a', seqnoBits buf a % 1000 = seqnoBits buf' a' % 1000 →
      (fosHeader (readpdh buf a).seqno = fosHeader (readpdh buf' a').seqno ↔
        (seqnoBits buf a < 2 ^ 31 ↔ seqnoBits buf' a' < 2 ^ 31)) := by
  refine ⟨fosRight_decoded lib s buf a, fun buf' a' hmod => ?_⟩
  have htext : ∀ n m, n % 1000 = m % 1000 → fosText n = fosText m := fun n m h => by
    simp only [fosText, h]
  by_cases h : seqnoBits buf a < 2 ^ 31
  · by_cases h' : seqnoBits buf' a' < 2 ^ 31
    · rw [fosHeader_low h, fosHeader_low h']
      exact iff_of_true (htext _ _ hmod) (iff_of_true h h')
    · refine iff_of_false (fun heq => fosHeader_high h' hmod ?_) (fun hiff => h' (hiff.1 h))
      rw [← heq, fosHeader_low h]
  · by_cases h' : seqnoBits buf' a' < 2 ^ 31
    · refine iff_of_false (fun heq => fosHeader_high h hmod.symm ?_) (fun hiff => h (hiff.2 h'))
      rw [heq, fosHeader_low h']
    · refine iff_of_true ?_ (iff_of_false h h')
      have hrem : (2 ^ 32 - seqnoBits buf a) % 1000 = (2 ^ 32 - seqnoBits buf' a') % 1000 := by
        have hw := seqnoBits_lt buf a
        have hw' := seqnoBits_lt buf' a'
        omega
      rw [fosHeader, fosHeader, wire_remainder, wire_remainder, if_neg h, if_neg h', hrem]

/-- The numbers 7 and 1007. -/
theorem fosRight_iff_run :
    FosRight .plain 7 ((State.fresh [] .blank).decodePdh (store (fun _ => 0) 15 [7]) 0) ∧
    fosHeader (readpdh (store (fun _ => 0) 15 [7]) 0).seqno =
      fosHeader (readpdh (store (fun _ => 0) 14 [3, 239]) 0).seqno := by
  have h := fosRight_iff .plain (State.fresh [] .blank) (store (fun _ => 0) 15 [7]) 0
  have h7 : seqnoBits (store (fun _ => 0) 15 [7]) 0 = 7 := by decide
  have h1007 : seqnoBits (store (fun _ => 0) 14 [3, 239]) 0 = 1007 := by decide
  rw [h7] at h
  refine ⟨h.1.2 (by decide), (h.2 _ 0 ?_).2 ?_⟩
  · rw [h1007]
  · rw [h1007]
    decide

/-- A PDH with sequence number `2 ^ 32 - 5`. -/
def highSeqno : Buffer := store (fun _ => 255) 15 [251]

/-- The number 4294967291 gives "-05" where "291" should stand. -/
theorem high_seqno_signed : seqnoBits highSeqno 0 = 4294967291 ∧
    fosHeader (readpdh highSeqno 0).seqno = [1, 13, 13, 10, 45, 48, 53, 32, 13, 13, 10] ∧
    ¬ FosRight .plain (seqnoBits highSeqno 0)
      ((State.fresh [] .blank).decodePdh highSeqno 0) := by
  have hwire : seqnoBits highSeqno 0 = 4294967291 := by decide
  refine ⟨hwire, ?_, fun h => ?_⟩
  · rw [fosHeader, wire_remainder, hwire]
    decide
  · have hlow := (fosRight_decoded .plain (State.fresh [] .blank) highSeqno 0).1 h
    rw [hwire] at hlow
    exact absurd hlow (by decide)

end Heap
end Noaaport
