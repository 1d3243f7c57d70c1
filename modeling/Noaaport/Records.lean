import Noaaport.Assembly
import Noaaport.FifoStream

/-! The two byte sources: `_shm_bufread` of `readnoaaport.c` over records of any sizes, and
`fifoRead` over whatever part of the stream has arrived. Both are a reader of the stream. -/
namespace Noaaport
open Lib

/-- A record that fits `msgbuf`. -/
abbrev Record := { r : List UInt8 // 1 ≤ r.length ∧ r.length ≤ 10000 }

/-- What is left of `msgbuf`, and the records still to come. -/
structure Msgbuf where
  left : List UInt8
  records : List Record

def Msgbuf.bytes (m : Msgbuf) : List UInt8 := m.left ++ m.records.flatMap Subtype.val

/-- The loop over `got`: the bytes copied, or nothing where it waits for a record. -/
def shmCopy (want : Nat) (left : List UInt8) : List Record → Option (List UInt8 × Msgbuf)
  | [] => if want ≤ left.length then some (left.take want, ⟨left.drop want, []⟩) else none
  | r :: records =>
    if want ≤ left.length then some (left.take want, ⟨left.drop want, r :: records⟩)
    else
      match shmCopy (want - left.length) r.1 records with
      | some (bs, m) => some (left ++ bs, m)
      | none => none

def Msgbuf.read (m : Msgbuf) (want : Nat) : Option (List UInt8 × Msgbuf) :=
  shmCopy want m.left m.records

section Copy
variable {want : Nat} {left : List UInt8} {records : List Record}

/-- The next bytes of the stream, however it is cut. -/
theorem shmCopy_some (h : want ≤ (left ++ records.flatMap Subtype.val).length) :
    ∃ m, shmCopy want left records =
        some ((left ++ records.flatMap Subtype.val).take want, m) ∧
      m.bytes = (left ++ records.flatMap Subtype.val).drop want := by
  induction records generalizing want left with
  | nil =>
    rw [List.flatMap_nil, List.append_nil] at h ⊢
    exact ⟨_, if_pos h, List.append_nil _⟩
  | cons r records ih =>
    by_cases hw : want ≤ left.length
    · refine ⟨⟨left.drop want, r :: records⟩, ?_, ?_⟩
      · rw [shmCopy, if_pos hw, List.take_append_of_le_length hw]
      · rw [Msgbuf.bytes, List.drop_append_of_le_length hw]
    · rw [List.flatMap_cons, List.length_append] at h
      obtain ⟨m, hm, hbytes⟩ := ih (show want - left.length ≤
        (r.1 ++ records.flatMap Subtype.val).length by omega)
      have hsplit : want = left.length + (want - left.length) := by omega
      refine ⟨m, ?_, ?_⟩
      · rw [shmCopy, if_neg hw, hm, List.flatMap_cons, hsplit, List.take_length_add_append,
          Nat.add_sub_cancel_left]
      · rw [hbytes, List.flatMap_cons, hsplit, List.drop_length_add_append,
          Nat.add_sub_cancel_left]

theorem shmCopy_none (h : (left ++ records.flatMap Subtype.val).length < want) :
    shmCopy want left records = none := by
  induction records generalizing want left with
  | nil =>
    rw [List.flatMap_nil, List.append_nil] at h
    exact if_neg (not_le.2 h)
  | cons r records ih =>
    rw [List.flatMap_cons, List.length_append] at h
    rw [shmCopy, if_neg (by omega), ih (by omega)]

theorem shmCopy_of_le (records : List Record) (h : want ≤ left.length) :
    shmCopy want left records = some (left.take want, ⟨left.drop want, records⟩) := by
  cases records with
  | nil => rw [shmCopy, if_pos h]
  | cons r records => rw [shmCopy, if_pos h]

theorem shmCopy_cons {r : Record} (h : ¬ want ≤ left.length) :
    shmCopy want left (r :: records) =
      (shmCopy (want - left.length) r.1 records).map fun x => (left ++ x.1, x.2) := by
  rw [shmCopy, if_neg h]
  cases shmCopy (want - left.length) r.1 records <;> rfl

/-- A read that ends inside `msgbuf`, and the one after it. -/
theorem shmCopy_add_of_le (records : List Record) {a : Nat} (b : Nat) (ha : a ≤ left.length) :
    shmCopy (a + b) left records =
      (shmCopy b (left.drop a) records).map fun x => (left.take a ++ x.1, x.2) := by
  have hdrop : (left.drop a).length = left.length - a := List.length_drop
  by_cases hb : b ≤ (left.drop a).length
  · rw [shmCopy_of_le records (by omega), shmCopy_of_le records hb, List.take_add,
      ← List.drop_drop]
    rfl
  · cases records with
    | nil =>
      rw [shmCopy, if_neg (by omega), shmCopy, if_neg hb]
      rfl
    | cons r records =>
      have hlen : b - (left.drop a).length = a + b - left.length := by omega
      rw [shmCopy_cons (by omega), shmCopy_cons hb, hlen, Option.map_map]
      refine congrArg (Option.map · _) (funext fun x => Prod.ext ?_ rfl)
      change left ++ x.1 = left.take a ++ (left.drop a ++ x.1)
      rw [← List.append_assoc, List.take_append_drop]

/-- One read or two: the same bytes, and the same left in `msgbuf`. -/
theorem shmCopy_add {a : Nat} (b : Nat) {bs : List UInt8} {m : Msgbuf}
    (h : shmCopy a left records = some (bs, m)) :
    shmCopy (a + b) left records = (m.read b).map fun x => (bs ++ x.1, x.2) := by
  induction records generalizing a left bs with
  | nil =>
    by_cases ha : a ≤ left.length
    · rw [shmCopy_of_le [] ha] at h
      cases h
      exact shmCopy_add_of_le [] b ha
    · rw [shmCopy, if_neg ha] at h
      cases h
  | cons r records ih =>
    by_cases ha : a ≤ left.length
    · rw [shmCopy_of_le _ ha] at h
      cases h
      exact shmCopy_add_of_le _ b ha
    · rw [shmCopy_cons ha, Option.map_eq_some_iff] at h
      obtain ⟨⟨bs', m'⟩, hr, hm⟩ := h
      cases hm
      have hlen : a + b - left.length = a - left.length + b := by omega
      rw [shmCopy_cons (by omega), hlen, ih hr, Option.map_map]
      refine congrArg (Option.map · _) (funext fun x => Prod.ext ?_ rfl)
      exact (List.append_assoc left bs' x.1).symm

end Copy

section Position
variable {records : List Record} {m n : Nat}

def streamOf (records : List Record) : List UInt8 := records.flatMap Subtype.val

/-- `msgbuf` after `n` bytes of the stream. -/
def msgbufAt (records : List Record) (n : Nat) : Msgbuf :=
  match shmCopy n [] records with
  | some (_, m) => m
  | none => ⟨[], []⟩

theorem msgbufAt_bytes (h : n ≤ (streamOf records).length) :
    (msgbufAt records n).bytes = (streamOf records).drop n := by
  obtain ⟨m, hm, hbytes⟩ := shmCopy_some (show n ≤ ([] ++ streamOf records).length from h)
  rw [msgbufAt, hm]
  exact hbytes

theorem msgbufAt_some {bs : List UInt8} {x : Msgbuf} (h : shmCopy n [] records = some (bs, x)) :
    msgbufAt records n = x := by
  rw [msgbufAt, h]

/-- Reads of any sizes: the stream goes on where the last one ended. -/
theorem msgbufAt_read (h : n + m ≤ (streamOf records).length) :
    (msgbufAt records n).read m =
      some (((streamOf records).drop n).take m, msgbufAt records (n + m)) := by
  have hn : n ≤ (streamOf records).length := by omega
  have hbytes := msgbufAt_bytes hn
  obtain ⟨x, hx, -⟩ := shmCopy_some (show n ≤ ([] ++ streamOf records).length from hn)
  rw [msgbufAt_some hx] at hbytes ⊢
  have hlen : m ≤ x.bytes.length := by
    rw [hbytes, List.length_drop]
    omega
  obtain ⟨y, hy, -⟩ := shmCopy_some hlen
  have hadd := shmCopy_add m hx
  rw [Msgbuf.read, hy] at hadd
  rw [msgbufAt_some hadd, Msgbuf.read, hy, ← hbytes]
  rfl

theorem msgbufAt_wait (hn : n ≤ (streamOf records).length)
    (h : (streamOf records).length < n + m) : (msgbufAt records n).read m = none := by
  refine shmCopy_none (lt_of_eq_of_lt (congrArg List.length (msgbufAt_bytes hn)) ?_)
  rw [List.length_drop]
  omega

/-- `_shm_bufread` where `rest` of the stream is still to come. -/
def recordReader (records : List Record) : Reader where
  read want rest :=
    if want < 0 then .status (-1)
    else if ((msgbufAt records ((streamOf records).length - rest.length)).read want.toNat).isSome
      then .ok
    else .blocked
  ok_le want rest h := by
    split_ifs at h with h₀ h₁
    refine ⟨not_lt.1 h₀, not_lt.1 fun hlt => ?_⟩
    rw [msgbufAt_wait (Nat.sub_le ..) (by omega)] at h₁
    cases h₁

/-- The reader of the bytes still to come is `_shm_bufread`, however the stream is cut. -/
theorem recordReader_read {rest : List UInt8} (h : rest.length ≤ (streamOf records).length)
    (want : Int) : (recordReader records).read want rest = shmBufread.read want rest := by
  change (if want < 0 then _ else _) = if want < 0 then _ else _
  by_cases hneg : want < 0
  · rw [if_pos hneg, if_pos hneg]
  · rw [if_neg hneg, if_neg hneg]
    by_cases hle : want.toNat ≤ rest.length
    · rw [msgbufAt_read (by omega), if_pos hle]
      rfl
    · rw [msgbufAt_wait (Nat.sub_le ..) (by omega), if_neg hle]
      rfl

/-- What the loop puts into the buffer are the bytes the reader takes. -/
theorem recordReader_serves {rest : List UInt8} {want : Nat}
    (hrest : rest = (streamOf records).drop n) (hn : n ≤ (streamOf records).length)
    (h : (recordReader records).read want rest = .ok) :
    (msgbufAt records n).read want = some (rest.take want, msgbufAt records (n + want)) := by
  obtain ⟨-, hle⟩ := (recordReader records).ok_le _ _ h
  rw [hrest, List.length_drop] at hle
  rw [msgbufAt_read (by omega), hrest]

end Position

section Arrived
variable {f : Fifo} {want : Nat} {rest : List UInt8}

/-- `fifoRead` on an open FIFO, however much of the stream has arrived: the next bytes of the
stream, or it waits for more to arrive. -/
theorem fifoRead_serves (hw : f.nextWrite < f.size) (hn : f.nbytes ≤ f.size)
    (hopen : f.closeIfEmpty = false) (hun : f.unread = rest.take f.nbytes) :
    (want ≤ f.nbytes ∧ ∃ f', f.fifoRead want = .ok (rest.take want) f' ∧
        f'.unread = (rest.drop want).take f'.nbytes) ∨
      (f.nbytes < want ∧ f.fifoRead want = .wait) := by
  rw [Fifo.fifoRead_steps, if_neg (fun h => by rw [hopen] at h; exact absurd h.1 (by decide))]
  by_cases hle : want ≤ f.nbytes
  · obtain ⟨hlen, hf, hcut⟩ := Fifo.copyOut_spec hw hn hle
    have htake : (Fifo.copyOut f want).1 = rest.take want := by
      calc (Fifo.copyOut f want).1
          = f.unread.take want := by rw [hcut, List.take_left' hlen]
        _ = rest.take want := by rw [hun, List.take_take, min_eq_left hle]
    have hdrop : (Fifo.copyOut f want).2.unread = (rest.drop want).take (f.nbytes - want) := by
      calc (Fifo.copyOut f want).2.unread
          = f.unread.drop want := by rw [hcut, List.drop_left' hlen]
        _ = (rest.drop want).take (f.nbytes - want) := by rw [hun, List.drop_take]
    refine .inl ⟨hle, (Fifo.copyOut f want).2, ?_, ?_⟩
    · rw [if_pos hle, htake]
    · rw [hdrop, hf]
  · exact .inr ⟨not_le.1 hle, if_neg hle⟩

end Arrived
end Noaaport
