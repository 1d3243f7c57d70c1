import Mathlib.Order.Bounds.Basic
import Noaaport.Records

/-! `_shm_bufread` and `_fd_bufread` of `readnoaaport.c`: the one with its static variables,
the other with its `select` and `read` calls. -/
namespace Noaaport.Readnoaaport
open Lib

/-- `msgbuf`, the index `from` points to, and `left`. -/
structure Statics where
  msgbuf : Mem UInt8
  start : Nat
  left : Nat

def Statics.unread (st : Statics) : List UInt8 := load st.msgbuf st.start st.left

/-- `shmfifo_get` into `msgbuf`; it fails when there are no more records. -/
def Statics.fetch (st : Statics) : List Record → Option (Statics × List Record)
  | [] => none
  | r :: records =>
    some ({ msgbuf := store st.msgbuf 0 r.1, start := 0, left := r.1.length }, records)

structure ShmRet where
  status : Int
  mem : Mem UInt8
  statics : Statics
  records : List Record

/-- The loop over `got`, at most `fuel` times. -/
def shmLoop (buf want : Nat) : Nat → Nat → Mem UInt8 → Statics → List Record → Option ShmRet
  | 0, _, _, _, _ => none
  | fuel + 1, got, mem, st, records =>
    if got < want then
      match if st.left = 0 then st.fetch records else some (st, records) with
      | none => some { status := -2, mem, statics := st, records }
      | some (st, records) =>
        let ncopy := want - got
        let ncopy := if ncopy > st.left then st.left else ncopy
        shmLoop buf want fuel (got + ncopy)
          (store mem (buf + got) (load st.msgbuf st.start ncopy))
          { st with start := st.start + ncopy, left := st.left - ncopy } records
    else some { status := 0, mem, statics := st, records }

def shmBufread (mem : Mem UInt8) (buf : Nat) (want : Int) (st : Statics) (records : List Record) :
    Option ShmRet :=
  if want < 0 then some { status := -1, mem, statics := st, records }
  else shmLoop buf want.toNat (want.toNat + 1) 0 mem st records

/-- How `select` returns, and how many bytes `read` then finds at most, none at the end of
the input. -/
inductive Poll where
  | failed
  | idle
  | unset
  | unreadable
  | read (n : Nat)

structure FdRet where
  status : Int
  mem : Mem UInt8
  input : List UInt8
  polls : List Poll

def fdLoop (buf bsiz : Nat) : Nat → Mem UInt8 → List UInt8 → List Poll → Option FdRet
  | bread, mem, input, polls =>
    if bread < bsiz then
      match polls with
      | [] => none
      | .failed :: polls => fdLoop buf bsiz bread mem input polls
      | .idle :: polls => fdLoop buf bsiz bread mem input polls
      | .unset :: polls => some { status := -2, mem, input, polls }
      | .unreadable :: polls => some { status := -2, mem, input, polls }
      | .read n :: polls =>
        let nread := min (min n (bsiz - bread)) input.length
        let mem := store mem (buf + bread) (input.take nread)
        let input := input.drop nread
        let bread := bread + nread
        if nread = 0 then some { status := -3, mem, input, polls }
        else if bread < bsiz then fdLoop buf bsiz bread mem input polls
        else some { status := 0, mem, input, polls }
    else some { status := 0, mem, input, polls }

/-- What the comparison with `bread` makes of `bsiz`. -/
def sizeT (bsiz : Int) : Nat := if bsiz < 0 then (bsiz + 2 ^ 64).toNat else bsiz.toNat

def fdBufread (mem : Mem UInt8) (buf : Nat) (bsiz : Int) (input : List UInt8) (polls : List Poll) :
    Option FdRet :=
  fdLoop buf (sizeT bsiz) 0 mem input polls

section Shm
variable {buf want fuel got : Nat} {mem : Mem UInt8} {st : Statics} {records : List Record}
  {bs : List UInt8} {m : Msgbuf}

@[simp] theorem length_unread (st : Statics) : st.unread.length = st.left := length_load ..

theorem unread_fetch (st : Statics) (r : Record) :
    ({ msgbuf := store st.msgbuf 0 r.1, start := 0, left := r.1.length } : Statics).unread = r.1 := by
  exact load_store st.msgbuf 0 r.1

theorem unread_drop {n : Nat} (h : n ≤ st.left) :
    ({ st with start := st.start + n, left := st.left - n } : Statics).unread =
      st.unread.drop n := by
  have hsplit : st.left = n + (st.left - n) := by omega
  rw [Statics.unread, Statics.unread, hsplit, load_drop]
  simp only [Nat.add_sub_cancel_left]

/-- One pass of the loop copies what `msgbuf` still has of the bytes wanted. -/
theorem shmLoop_pass (hgot : got < want) (hleft : st.left ≠ 0) {n : Nat}
    (hn : n = min (want - got) st.left) :
    shmLoop buf want (fuel + 1) got mem st records =
      shmLoop buf want fuel (got + n) (store mem (buf + got) (st.unread.take n))
        { st with start := st.start + n, left := st.left - n } records := by
  have hcopy : (if want - got > st.left then st.left else want - got) = n := by
    split_ifs <;> omega
  rw [shmLoop, if_pos hgot, if_neg hleft]
  simp only [hcopy]
  rw [Statics.unread, load_take _ _ _ _ (by omega)]

theorem shmLoop_fetch (hgot : got < want) (hleft : st.left = 0) (r : Record) (hr : r.1.length ≠ 0) :
    shmLoop buf want (fuel + 1) got mem st (r :: records) =
      shmLoop buf want (fuel + 1) got mem
        { msgbuf := store st.msgbuf 0 r.1, start := 0, left := r.1.length } records := by
  rw [shmLoop, shmLoop, if_pos hgot, if_pos hleft, if_pos hgot, if_neg hr]
  rfl

/-- The loop makes the copy that `shmCopy` says, whatever the static variables are. -/
theorem shmLoop_copy (mem : Mem UInt8) (hfuel : want - got < fuel) (hgot : got ≤ want)
    (h : shmCopy (want - got) st.unread records = some (bs, m)) :
    ∃ st', shmLoop buf want fuel got mem st records =
        some { status := 0, mem := store mem (buf + got) bs, statics := st', records := m.records } ∧
      st'.unread = m.left := by
  induction fuel generalizing got mem st records bs m with
  | zero => exact absurd hfuel (Nat.not_lt_zero _)
  | succ fuel ih =>
    -- with bytes left, the pass and then the rest
    have hpass : got < want → ∀ (st : Statics) (records : List Record) (bs : List UInt8),
        st.left ≠ 0 → shmCopy (want - got) st.unread records = some (bs, m) →
        ∃ st', shmLoop buf want (fuel + 1) got mem st records =
            some { status := 0, mem := store mem (buf + got) bs, statics := st', records := m.records } ∧
          st'.unread = m.left := by
      intro hlt st records bs hleft h
      obtain ⟨n, hn⟩ : ∃ n, n = min (want - got) st.left := ⟨_, rfl⟩
      have hlen : (st.unread.take n).length = n := by
        rw [List.length_take, length_unread]
        omega
      have hsum : want - got = n + (want - (got + n)) := by omega
      rw [hsum, shmCopy_add_of_le records _ (by rw [length_unread]; omega),
        Option.map_eq_some_iff] at h
      obtain ⟨⟨bs', m'⟩, hrest, heq⟩ := h
      cases heq
      rw [← unread_drop (by omega)] at hrest
      obtain ⟨st', hloop, hst'⟩ := ih (store mem (buf + got) (st.unread.take n))
        (by omega) (by omega) hrest
      refine ⟨st', ?_, hst'⟩
      have happ := store_append mem (buf + got) (st.unread.take n) bs'
      rw [hlen] at happ
      rw [shmLoop_pass hlt hleft hn, hloop, ← Nat.add_assoc, happ]
    rcases Nat.eq_or_lt_of_le hgot with heq | hlt
    · subst heq
      rw [Nat.sub_self, shmCopy_of_le records (Nat.zero_le _)] at h
      cases h
      exact ⟨st, by rw [shmLoop, if_neg (Nat.lt_irrefl _), List.take_zero, store_nil], rfl⟩
    · by_cases hleft : st.left = 0
      · have hnil : st.unread = [] := List.eq_nil_of_length_eq_zero (by rw [length_unread, hleft])
        rw [hnil] at h
        cases records with
        | nil =>
          rw [shmCopy, if_neg (by rw [List.length_nil]; omega)] at h
          cases h
        | cons r records =>
          rw [shmCopy_cons (by rw [List.length_nil]; omega), Option.map_eq_some_iff] at h
          obtain ⟨⟨bs', m'⟩, hrest, heq⟩ := h
          cases heq
          have hr : r.1.length ≠ 0 := by
            have := r.2.1
            omega
          rw [shmLoop_fetch hlt hleft r hr]
          refine hpass hlt _ _ _ hr ?_
          rw [unread_fetch]
          exact hrest
      · exact hpass hlt st records bs hleft h

/-- A call returns, and with the next bytes. -/
theorem shmBufread_copy (mem : Mem UInt8) (buf : Nat)
    (h : shmCopy want st.unread records = some (bs, m)) :
    ∃ st', shmBufread mem buf want st records =
        some { status := 0, mem := store mem buf bs, statics := st', records := m.records } ∧
      st'.unread = m.left := by
  rw [shmBufread, if_neg (by omega), Int.toNat_natCast]
  exact shmLoop_copy mem (Nat.lt_succ_self _) (Nat.zero_le _) h

/-- What a call has fetched: no record more than it needs, and `left` is the rest of the last. -/
theorem shmCopy_fetched {left : List UInt8} (h : shmCopy want left records = some (bs, m)) :
    ∃ k, m.records = records.drop k ∧ m.left = (left ++ streamOf (records.take k)).drop want ∧
      want ≤ (left ++ streamOf (records.take k)).length ∧
      ∀ j < k, (left ++ streamOf (records.take j)).length < want := by
  induction records generalizing want left bs with
  | nil =>
    by_cases hw : want ≤ left.length
    · rw [shmCopy_of_le [] hw] at h
      cases h
      exact ⟨0, rfl, by simp [streamOf], by simpa [streamOf] using hw, nofun⟩
    · rw [shmCopy, if_neg hw] at h
      cases h
  | cons r records ih =>
    by_cases hw : want ≤ left.length
    · rw [shmCopy_of_le _ hw] at h
      cases h
      exact ⟨0, rfl, by simp [streamOf], by simpa [streamOf] using hw, nofun⟩
    · rw [shmCopy_cons hw, Option.map_eq_some_iff] at h
      obtain ⟨⟨bs', m'⟩, hr, heq⟩ := h
      cases heq
      obtain ⟨k, hrecords, hleft, hle, hlt⟩ := ih hr
      have hcons : ∀ j, left ++ streamOf ((r :: records).take (j + 1)) =
          left ++ (r.1 ++ streamOf (records.take j)) := fun j => by
        rw [List.take_succ_cons, streamOf, List.flatMap_cons, streamOf]
      refine ⟨k + 1, hrecords, ?_, ?_, ?_⟩
      · have hsplit : want = left.length + (want - left.length) := by omega
        rw [hcons, hsplit, List.drop_length_add_append, hleft]
      · rw [hcons, List.length_append]
        omega
      · intro j hj
        cases j with
        | zero =>
          simp only [List.take_zero, streamOf, List.flatMap_nil, List.append_nil]
          omega
        | succ j =>
          have := hlt j (by omega)
          rw [hcons, List.length_append]
          omega

end Shm

section Requests
variable {mem : Mem UInt8} {records : List Record} {st : Statics} {input : List UInt8}
  {polls : List Poll} {reqs : List (Nat × Nat)}

/-- Calls one after the other, each with its buffer and its `want`: what each buffer holds when
its call returns. -/
def shmReads : List (Nat × Nat) → Mem UInt8 → Statics → List Record →
    Option (List (List UInt8) × Statics × List Record)
  | [], _, st, records => some ([], st, records)
  | (buf, want) :: reqs, mem, st, records =>
    match shmBufread mem buf want st records with
    | none => none
    | some ret =>
      if ret.status = 0 then
        (shmReads reqs ret.mem ret.statics ret.records).map fun x =>
          (load ret.mem buf want :: x.1, x.2)
      else none

def fdReads : List (Nat × Nat) → Mem UInt8 → List UInt8 → List Poll →
    Option (List (List UInt8) × List UInt8 × List Poll)
  | [], _, input, polls => some ([], input, polls)
  | (buf, bsiz) :: reqs, mem, input, polls =>
    match fdBufread mem buf bsiz input polls with
    | none => none
    | some ret =>
      if ret.status = 0 then
        (fdReads reqs ret.mem ret.input ret.polls).map fun x => (load ret.mem buf bsiz :: x.1, x.2)
      else none

/-- The bytes asked for. -/
def wanted (reqs : List (Nat × Nat)) : Nat := (reqs.map Prod.snd).sum

theorem wanted_cons (buf want : Nat) (reqs : List (Nat × Nat)) :
    wanted ((buf, want) :: reqs) = want + wanted reqs := List.sum_cons

/-- The stream cut as the requests say. -/
def cuts : List (Nat × Nat) → List UInt8 → List (List UInt8)
  | [], _ => []
  | (_, want) :: reqs, bytes => bytes.take want :: cuts reqs (bytes.drop want)

theorem flatten_cuts (reqs : List (Nat × Nat)) (bytes : List UInt8) :
    (cuts reqs bytes).flatten = bytes.take (wanted reqs) := by
  induction reqs generalizing bytes with
  | nil => rfl
  | cons req reqs ih =>
    obtain ⟨buf, want⟩ := req
    rw [cuts, List.flatten_cons, ih, wanted_cons, List.take_add]

theorem map_length_cuts {bytes : List UInt8} (h : wanted reqs ≤ bytes.length) :
    (cuts reqs bytes).map List.length = reqs.map Prod.snd := by
  induction reqs generalizing bytes with
  | nil => rfl
  | cons req reqs ih =>
    obtain ⟨buf, want⟩ := req
    rw [wanted_cons] at h
    have hlen : (bytes.take want).length = want := by
      rw [List.length_take]
      omega
    rw [cuts, List.map_cons, List.map_cons, hlen, ih (by rw [List.length_drop]; omega)]

/-- The calls together: as one call for all the bytes wanted. -/
theorem shmReads_copy (mem : Mem UInt8) (st : Statics)
    (h : wanted reqs ≤ (st.unread ++ streamOf records).length) :
    ∃ st' bs m, shmReads reqs mem st records =
        some (cuts reqs (st.unread ++ streamOf records), st', m.records) ∧
      shmCopy (wanted reqs) st.unread records = some (bs, m) ∧ st'.unread = m.left := by
  induction reqs generalizing mem st records with
  | nil => exact ⟨st, _, _, rfl, shmCopy_of_le records (Nat.zero_le _), rfl⟩
  | cons req reqs ih =>
    obtain ⟨buf, want⟩ := req
    rw [wanted_cons] at h ⊢
    obtain ⟨m₁, hcopy, hbytes⟩ := shmCopy_some (show want ≤ (st.unread ++ streamOf records).length by
      omega)
    obtain ⟨st₁, hread, hst₁⟩ := shmBufread_copy mem buf hcopy
    have hrest : st₁.unread ++ streamOf m₁.records = (st.unread ++ streamOf records).drop want := by
      rw [hst₁]
      exact hbytes
    obtain ⟨st', bs, m, hreads, hcopy', hst'⟩ := ih
      (store mem buf ((st.unread ++ streamOf records).take want)) st₁
      (show wanted reqs ≤ (st₁.unread ++ streamOf m₁.records).length by
        rw [hrest, List.length_drop]; omega)
    have hlen : ((st.unread ++ streamOf records).take want).length = want := by
      rw [List.length_take]
      omega
    have hload := load_store mem buf ((st.unread ++ streamOf records).take want)
    rw [hlen] at hload
    refine ⟨st', (st.unread ++ streamOf records).take want ++ bs, m, ?_, ?_, hst'⟩
    · rw [shmReads, hread]
      simp only [if_pos]
      change Option.map _ (shmReads reqs (store mem buf ((st.unread ++ streamOf records).take want))
        st₁ m₁.records) = _
      rw [hreads, Option.map_some, hrest]
      exact congrArg (fun b => some (b :: _, _)) hload
    · rw [shmCopy_add _ hcopy, Msgbuf.read, ← hst₁, hcopy']
      rfl

/-- Neither an error nor the end of the input. -/
def Poll.Delivers : Poll → Prop
  | .failed | .idle => True
  | .unset | .unreadable => False
  | .read n => 0 < n

def Poll.isRead : Poll → Bool
  | .read _ => true
  | _ => false

theorem fdLoop_end {buf bsiz : Nat} :
    fdLoop buf bsiz bsiz mem input polls = some { status := 0, mem, input, polls } := by
  rw [fdLoop.eq_def]
  exact if_neg (Nat.lt_irrefl _)

theorem fdLoop_done {buf bsiz : Nat} :
    fdLoop buf bsiz bsiz mem input polls =
      some { status := 0, mem := store mem (buf + bsiz) (input.take (bsiz - bsiz))
             input := input.drop (bsiz - bsiz), polls } := by
  rw [fdLoop_end, Nat.sub_self, List.take_zero, store_nil, List.drop_zero]

/-- A read that finds bytes: a pass of the loop, whether it is the last or not. -/
theorem fdLoop_read {buf bsiz bread n nread : Nat} (hlt : bread < bsiz)
    (hnread : nread = min (min n (bsiz - bread)) input.length) (hpos : 0 < nread) :
    fdLoop buf bsiz bread mem input (.read n :: polls) =
      fdLoop buf bsiz (bread + nread) (store mem (buf + bread) (input.take nread))
        (input.drop nread) polls := by
  rw [fdLoop, if_pos hlt]
  simp only [← hnread]
  rw [if_neg (by omega)]
  by_cases hmore : bread + nread < bsiz
  · rw [if_pos hmore]
  · have hall : bsiz = bread + nread := by omega
    rw [if_neg hmore, hall, fdLoop_end]

/-- The loop takes as many reads as it needs, and the bytes are the next of the input. -/
theorem fdLoop_delivers (mem : Mem UInt8) (buf : Nat) {bsiz bread : Nat}
    (hpolls : ∀ p ∈ polls, p.Delivers) (hle : bread ≤ bsiz) (hinput : bsiz - bread ≤ input.length) :
    fdLoop buf bsiz bread mem input polls = none ∧ polls.countP Poll.isRead < bsiz - bread ∨
    ∃ polls', fdLoop buf bsiz bread mem input polls =
        some { status := 0, mem := store mem (buf + bread) (input.take (bsiz - bread))
               input := input.drop (bsiz - bread), polls := polls' } ∧
      (∀ p ∈ polls', p.Delivers) ∧
      polls.countP Poll.isRead ≤ polls'.countP Poll.isRead + (bsiz - bread) := by
  induction polls generalizing bread mem input with
  | nil =>
    rcases Nat.eq_or_lt_of_le hle with heq | hlt
    · subst heq
      exact .inr ⟨[], fdLoop_done, hpolls, Nat.zero_le _⟩
    · refine .inl ⟨by rw [fdLoop, if_pos hlt], ?_⟩
      rw [List.countP_nil]
      omega
  | cons p polls ih =>
    have hrest : ∀ p ∈ polls, p.Delivers := fun q hq => hpolls q (List.mem_cons_of_mem _ hq)
    rcases Nat.eq_or_lt_of_le hle with heq | hlt
    · subst heq
      exact .inr ⟨p :: polls, fdLoop_done, hpolls, Nat.le_add_right ..⟩
    · cases p with
      | failed =>
        rw [fdLoop, if_pos hlt]
        exact ih mem hrest hle hinput
      | idle =>
        rw [fdLoop, if_pos hlt]
        exact ih mem hrest hle hinput
      | unset => exact (hpolls .unset List.mem_cons_self).elim
      | unreadable => exact (hpolls .unreadable List.mem_cons_self).elim
      | read n =>
        have hn : 0 < n := hpolls (.read n) List.mem_cons_self
        obtain ⟨nread, hnread⟩ : ∃ k, k = min (min n (bsiz - bread)) input.length := ⟨_, rfl⟩
        have hlen : (input.take nread).length = nread := by
          rw [List.length_take]
          omega
        have hcount : (Poll.read n :: polls).countP Poll.isRead = polls.countP Poll.isRead + 1 :=
          List.countP_cons_of_pos rfl
        have hsplit : bsiz - bread = nread + (bsiz - (bread + nread)) := by omega
        have happ := store_append mem (buf + bread) (input.take nread)
          ((input.drop nread).take (bsiz - (bread + nread)))
        have hnext := ih (store mem (buf + bread) (input.take nread)) hrest
          (show bread + nread ≤ bsiz by omega)
          (show bsiz - (bread + nread) ≤ (input.drop nread).length by
            rw [List.length_drop]; omega)
        rw [hlen] at happ
        rw [← Nat.add_assoc, happ, ← List.take_add, List.drop_drop, ← hsplit] at hnext
        rw [fdLoop_read hlt hnread (by omega), hcount]
        rcases hnext with ⟨hnone, hlow⟩ | ⟨polls', hsome, hdel, hreads⟩
        · exact .inl ⟨hnone, by omega⟩
        · exact .inr ⟨polls', hsome, hdel, by omega⟩

theorem fdReads_delivers (mem : Mem UInt8) (hpolls : ∀ p ∈ polls, p.Delivers)
    (hinput : wanted reqs ≤ input.length) :
    fdReads reqs mem input polls = none ∧ polls.countP Poll.isRead < wanted reqs ∨
    ∃ polls', fdReads reqs mem input polls =
      some (cuts reqs input, input.drop (wanted reqs), polls') := by
  induction reqs generalizing mem input polls with
  | nil => exact .inr ⟨polls, rfl⟩
  | cons req reqs ih =>
    obtain ⟨buf, bsiz⟩ := req
    rw [wanted_cons] at hinput ⊢
    have hsize : sizeT bsiz = bsiz := by
      rw [sizeT, if_neg (by omega), Int.toNat_natCast]
    have hloop := fdLoop_delivers mem buf hpolls (Nat.zero_le bsiz)
      (by omega : bsiz - 0 ≤ input.length)
    rw [Nat.sub_zero, Nat.add_zero] at hloop
    rw [fdReads, fdBufread, hsize]
    rcases hloop with ⟨hnone, hlow⟩ | ⟨polls₁, hsome, hdel, hreads⟩
    · exact .inl ⟨by rw [hnone], by omega⟩
    · have hlen : (input.take bsiz).length = bsiz := by
        rw [List.length_take]
        omega
      have hload := load_store mem buf (input.take bsiz)
      rw [hlen] at hload
      rw [hsome]
      simp only [if_pos]
      have hmore : wanted reqs ≤ (input.drop bsiz).length := by
        rw [List.length_drop]
        omega
      rcases ih (store mem buf (input.take bsiz)) hdel hmore with ⟨hnone, hlow⟩ | ⟨polls', hrest⟩
      · exact .inl ⟨by rw [hnone]; rfl, by omega⟩
      · refine .inr ⟨polls', ?_⟩
        rw [hrest, hload, List.drop_drop]
        rfl

/-- For any records and any requests: the buffers are the stream cut as the requests say, each
call returns and fetches no record more than it needs, what is left in `msgbuf` is the rest of
the last record fetched, and `_fd_bufread` fills the same buffers, whatever its reads find. -/
theorem bufread_chunking (records : List Record) (reqs : List (Nat × Nat)) (mem : Mem UInt8)
    (st : Statics) (hst : st.left = 0) (hlen : wanted reqs ≤ (streamOf records).length) :
    ∃ bufs st' k,
      shmReads reqs mem st records = some (bufs, st', records.drop k) ∧
      bufs.map List.length = reqs.map Prod.snd ∧
      bufs.flatten = (streamOf records).take (wanted reqs) ∧
      IsLeast {k | wanted reqs ≤ (streamOf (records.take k)).length} k ∧
      st'.unread = (streamOf (records.take k)).drop (wanted reqs) ∧
      (∀ r ∈ (records.take k).getLast?, ∃ used, used ≠ [] ∧ r.1 = used ++ st'.unread) ∧
      ∀ (mem' : Mem UInt8) (polls : List Poll), (∀ p ∈ polls, p.Delivers) →
        fdReads reqs mem' (streamOf records) polls = none ∧
            polls.countP Poll.isRead < wanted reqs ∨
          ∃ polls', fdReads reqs mem' (streamOf records) polls =
            some (bufs, (streamOf records).drop (wanted reqs), polls') := by
  have hnil : st.unread = [] := List.eq_nil_of_length_eq_zero (by rw [length_unread, hst])
  obtain ⟨st', bs, m, hreads, hcopy, hst'⟩ := shmReads_copy mem st
    (show wanted reqs ≤ (st.unread ++ streamOf records).length by rwa [hnil])
  rw [hnil, List.nil_append] at hreads
  rw [hnil] at hcopy
  obtain ⟨k, hrecords, hleft, hle, hlt⟩ := shmCopy_fetched hcopy
  simp only [List.nil_append] at hleft hle hlt
  rw [hrecords] at hreads
  rw [← hst'] at hleft
  refine ⟨_, st', k, hreads, map_length_cuts hlen, flatten_cuts reqs _, ⟨hle, fun j hj => ?_⟩,
    hleft, fun r hr => ?_, fun mem' polls hpolls => fdReads_delivers mem' hpolls hlen⟩
  · by_contra hjk
    exact absurd hj (not_le.2 (hlt j (not_le.1 hjk)))
  · -- the last record fetched was wanted for at least one byte
    obtain ⟨front, hfront⟩ := List.getLast?_eq_some_iff.1 hr
    have hlast := congrArg List.length hfront
    rw [List.length_take, List.length_append, List.length_singleton] at hlast
    have htake : front = records.take front.length := by
      have := congrArg (List.take front.length) hfront
      rwa [List.take_take, List.take_left, min_eq_left (by omega), eq_comm] at this
    have hbefore := hlt front.length (by omega)
    rw [← htake] at hbefore
    have hstream : streamOf (records.take k) = streamOf front ++ r.1 := by
      rw [hfront, streamOf, List.flatMap_append, List.flatMap_singleton]
      rfl
    have hr₁ := r.2.1
    refine ⟨r.1.take (wanted reqs - (streamOf front).length), fun hempty => ?_, ?_⟩
    · have := congrArg List.length hempty
      rw [List.length_take, List.length_nil] at this
      omega
    · rw [hleft, hstream, List.drop_append, List.drop_eq_nil_of_le (Nat.le_of_lt hbefore),
        List.nil_append, List.take_append_drop]

/-- A request inside the first record, and one that spans both. -/
theorem bufread_chunking_run :
    ∃ bufs st' k,
      shmReads [(0, 1), (1, 3)] (fun _ => 0) ⟨fun _ => 0, 0, 0⟩
        [⟨[1, 2, 3], by decide⟩, ⟨[4, 5], by decide⟩] =
          some (bufs, st', ([⟨[1, 2, 3], by decide⟩, ⟨[4, 5], by decide⟩] : List Record).drop k) ∧
      bufs.flatten = [1, 2, 3, 4] ∧ st'.unread = (streamOf (([⟨[1, 2, 3], by decide⟩,
        ⟨[4, 5], by decide⟩] : List Record).take k)).drop 4 := by
  obtain ⟨bufs, st', k, hreads, -, hflat, -, hunread, -⟩ :=
    bufread_chunking [⟨[1, 2, 3], by decide⟩, ⟨[4, 5], by decide⟩] [(0, 1), (1, 3)] (fun _ => 0)
      ⟨fun _ => 0, 0, 0⟩ rfl (by decide)
  exact ⟨bufs, st', k, hreads, hflat, hunread⟩

end Requests

end Noaaport.Readnoaaport
