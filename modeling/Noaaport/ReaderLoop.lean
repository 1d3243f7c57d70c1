import Noaaport.FifoRefinement
import Noaaport.Lib.Calls

/-! `reader.c`: the loop that moves what it reads into the FIFO, in place or through a
buffer of its own, with other threads at the FIFO and at the counter. -/
namespace Noaaport.ReaderLoop
open Lib

structure Reader where
  byteCount : UInt64
  maxSize : Nat

/-- Where `readerStart` is. `size` is what `fifoWriteReserve` has set it to, `internal`
stands for `buf == reader->buf`. -/
inductive At where
  | loop
  | reserving
  | reserved (size : Nat)
  | storing (bs : List UInt8) (i : Nat)
  | received (internal : Bool) (bs : List UInt8)
  | counting (nbytes : Nat)
  | ended (status : Nat)
  deriving DecidableEq

/-- With the number of bytes put into the FIFO so far, and what `readerGetStatistics` has
returned. -/
structure Sys (Tid : Type*) where
  fifo : Fifo.Sys Tid
  reader : Reader
  pc : At
  put : Nat
  reported : List UInt64

inductive Act (Tid : Type*) where
  | other (u : Tid) (a : Fifo.Act)
  | reserve
  | reservePass
  | wake
  | read (bs : List UInt8)
  | endOfInput
  | readFailure
  | store
  | commit
  | count
  | getStatistics

section Step
variable {Tid : Type*} [DecidableEq Tid] (me : Tid)

/-- A section of a call that the reader makes. -/
def Sys.call (x : Sys Tid) (a : Fifo.Act) (next : Fifo.Event Tid → Fifo.Sys Tid → At) :
    Option (Sys Tid) :=
  (Fifo.step x.fifo me a).map fun r =>
    { x with fifo := r.2, pc := next r.1 r.2, put := x.put + r.1.committed.length }

/-- A thread that is idle again has been refused. -/
def At.ofReserve : Fifo.Pc → At
  | .reserved _ _ size _ => .reserved size
  | .idle => .ended 2
  | _ => .reserving

/-- `fifoWriteUpdate` and `fifoCopy` return 0. -/
def commits : Fifo.Event Tid → Bool
  | .update _ _ | .copy _ _ => true
  | _ => false

def step (a : Act Tid) (x : Sys Tid) : Option (Sys Tid) :=
  match a, x.pc with
  | .other u a, _ =>
    if u = me then none else (Fifo.step x.fifo u a).map fun r => { x with fifo := r.2 }
  | .reserve, .loop =>
    x.call me (.reserve x.reader.maxSize) fun _ fifo => .ofReserve (fifo.pc me)
  | .reservePass, .reserving => x.call me .reservePass fun _ fifo => .ofReserve (fifo.pc me)
  | .wake, .reserving => x.call me .wake fun _ fifo => .ofReserve (fifo.pc me)
  | .read bs, .reserved size =>
    if 1 ≤ bs.length ∧ bs.length ≤ x.reader.maxSize then
      some { x with pc := if size < x.reader.maxSize then .received true bs else .storing bs 0 }
    else none
  | .endOfInput, .reserved _ => some { x with pc := .ended 0 }
  | .readFailure, .reserved _ => some { x with pc := .ended 2 }
  | .store, .storing bs i =>
    match bs[i]? with
    | some b => x.call me (.fill i b) fun _ _ => .storing bs (i + 1)
    | none => some { x with pc := .received false bs }
  | .commit, .received true bs =>
    x.call me (.copy bs) fun e _ => if commits e then .loop else .ended 2
  | .commit, .received false bs =>
    x.call me (.update bs.length) fun e _ => if commits e then .counting bs.length else .ended 2
  | .count, .counting nbytes =>
    some { x with reader := { x.reader with byteCount := x.reader.byteCount + UInt64.ofNat nbytes },
                  pc := .loop }
  | .getStatistics, _ =>
    some { x with reported := x.reported ++ [x.reader.byteCount],
                  reader := { x.reader with byteCount := 0 } }
  | _, _ => none

end Step

section Laws
variable {Tid : Type*} [DecidableEq Tid] (me : Tid)

/-- What the reader has put into the FIFO and is about to count. -/
def At.pending : At → Nat
  | .counting nbytes => nbytes
  | _ => 0

/-- Every byte put into the FIFO is reported or still to be reported. -/
def Accounted (x : Sys Tid) : Prop :=
  (x.reported.map UInt64.toNat).sum + x.reader.byteCount.toNat + x.pc.pending = x.put

instance (x : Sys Tid) : Decidable (Accounted x) := inferInstanceAs (Decidable (_ = _))

/-- What an iteration is to do with the chunk that it has read. -/
structure Delivered (x : Sys Tid) (bs : List UInt8) (x' : Sys Tid) : Prop where
  content : x'.fifo.fifo.unread = x.fifo.fifo.unread ++ bs
  put : x'.put = x.put + bs.length
  nreserved : x'.fifo.fifo.nreserved = 0
  writeMutex : x'.fifo.writeMutex = none
  status : ∀ status, x'.pc ≠ .ended status

def Proper (x : Sys Tid) (a : Act Tid) : Prop :=
  (∀ x' ∈ step me a x, Accounted x') ∧
    match a, x.pc with
    | .commit, .received _ bs => ∃ x' ∈ step me a x, Delivered x bs x'
    | _, _ => True

/-- A chunk of any size would fit in front of the end of the buffer, and the counter does
not overflow. -/
def InPlace (x : Sys Tid) (a : Act Tid) : Prop :=
  match a, x.pc with
  | .commit, .received _ _ => x.reader.maxSize ≤ x.fifo.fifo.size - x.fifo.fifo.nextWrite
  | .count, .counting nbytes => x.reader.byteCount.toNat + nbytes < 2 ^ 64
  | _, _ => True

instance (x : Sys Tid) (a : Act Tid) : Decidable (InPlace x a) := by
  unfold InPlace
  split <;> infer_instance

/-- A reader that has just been started, at a FIFO in any state. -/
structure Fresh (S : Nat) (x : Sys Tid) : Prop where
  fifo : Fifo.Inv S x.fifo
  idle : x.fifo.pc me = .idle
  loop : x.pc = .loop
  byteCount : x.reader.byteCount = 0
  reported : x.reported = []
  put : x.put = 0

end Laws

section Others
variable {Tid : Type*} [DecidableEq Tid] {s s' : Fifo.Sys Tid} {t u : Tid} {a : Fifo.Act}
  {e : Fifo.Event Tid} {S : Nat}

/-- What a step of another thread makes of a sleeping writer. -/
inductive Woken : Fifo.Pc → Fifo.Pc → Prop where
  | same (c : Fifo.Pc) : Woken c c
  | reader (c : Fifo.Pc) : Woken c c.wakeReader
  | writer (c : Fifo.Pc) : Woken c c.wakeWriter
  | both (c : Fifo.Pc) : Woken c c.wakeWriter.wakeReader

theorem step_other (h : Fifo.step s u a = some (e, s')) (hu : u ≠ t) :
    Woken (s.pc t) (s'.pc t) := by
  have hgoto : ∀ c, (s.goto u c).pc t = s.pc t := fun c => Fifo.goto_pc_ne c hu.symm
  unfold Fifo.step at h
  split at h
  · split_ifs at h
    · cases h
      exact .same _
    · cases h
      exact hgoto _ ▸ .same _
  · split at h <;> cases h <;> exact hgoto _ ▸ .same _
  · split_ifs at h
    cases h
    exact hgoto _ ▸ .same _
  · split_ifs at h
    split at h <;> cases h
    · simp only [Fifo.Sys.committed, Function.update_of_ne hu.symm]
      exact .reader _
    · exact .same _
  · split_ifs at h
    split at h <;> cases h
    · simp only [Fifo.Sys.committed, Function.update_of_ne hu.symm]
      exact .reader _
    · exact .same _
  · split_ifs at h
    · cases h
      exact .same _
    · cases h
      exact hgoto _ ▸ .same _
  · split at h <;> cases h
    · exact hgoto _ ▸ .same _
    · simp only [Fifo.Sys.delivered, Function.update_of_ne hu.symm]
      exact .writer _
    · exact hgoto _ ▸ .same _
  · cases h
    exact .both _
  · cases h
    exact hgoto _ ▸ .same _
  · cases h
    exact hgoto _ ▸ .same _
  · cases h

variable {n addr avail : Nat} {im : List UInt8}

omit [DecidableEq Tid] in
theorem reserved_facts (h : Fifo.Inv S s) (hpc : s.pc t = .reserved n addr avail im) :
    s.writeMutex = some t ∧ s.fifo.nreserved = n ∧ avail = s.fifo.size - s.fifo.nextWrite ∧
      im.length = n := by
  have hh := h.holds t
  rw [hpc] at hh
  obtain ⟨hn, -, havail, himage⟩ := hh
  exact ⟨(h.writer t).1 (by rw [hpc]; rfl), hn, havail, himage ▸ length_ringLoad ..⟩

/-- The thread that has the reservation commits it. -/
theorem update_step (h : Fifo.Inv S s) (hpc : s.pc t = .reserved n addr avail im) {k : Nat}
    (hk : k ≤ n) : ∃ s', Fifo.step s t (.update k) = some (.update t (im.take k), s') ∧
      s'.fifo.nreserved = 0 ∧ s'.writeMutex = none ∧ s'.pc t = .idle := by
  obtain ⟨howner, hn, -, -⟩ := reserved_facts h hpc
  have hcommit : Fifo.fifoWriteUpdate s.fifo k true = (0, (Fifo.commit s.fifo k true).2) := by
    rw [Fifo.fifoWriteUpdate, if_neg (by omega)]
    rfl
  refine ⟨s.committed t (Fifo.commit s.fifo k true).2, ?_, rfl, rfl, by simp [Fifo.Sys.committed]⟩
  simp only [Fifo.step, hpc, if_pos hk, howner, decide_true, hcommit]

theorem copy_step (h : Fifo.Inv S s) (hpc : s.pc t = .reserved n addr avail im) {bs : List UInt8}
    (hk : bs.length ≤ n) : ∃ s', Fifo.step s t (.copy bs) = some (.copy t bs, s') ∧
      s'.fifo.nreserved = 0 ∧ s'.writeMutex = none ∧ s'.pc t = .idle := by
  obtain ⟨howner, hn, -, -⟩ := reserved_facts h hpc
  have hcopy := Fifo.fifoCopy_eq (f := s.fifo) bs true (by omega)
  refine ⟨s.committed t (Fifo.fifoCopy s.fifo bs true).2, ?_, ?_, rfl, by simp [Fifo.Sys.committed]⟩
  · simp only [Fifo.step, hpc, if_pos hk, howner, decide_true, hcopy]
    rfl
  · change (Fifo.fifoCopy s.fifo bs true).2.nreserved = 0
    rw [hcopy]
    rfl

/-- Where `fifoWriteReserve` leaves a thread that asks for `m` bytes. -/
inductive Asked (m : Nat) : Fifo.Pc → Prop where
  | idle : Asked m .idle
  | reserving : Asked m (.reserving m)
  | reserveWait : Asked m (.reserveWait m)
  | reserved (addr size : Nat) (im : List UInt8) : Asked m (.reserved m addr size im)

theorem reserve_asked (hpc : s.pc t = .idle) (h : Fifo.step s t (.reserve n) = some (e, s')) :
    Asked n (s'.pc t) := by
  simp only [Fifo.step, hpc] at h
  split_ifs at h
  · cases h
    exact hpc ▸ .idle
  · cases h
    exact (Fifo.goto_pc_self (s := s) (t := t) _).symm ▸ .reserving

theorem reservePass_asked (hpc : s.pc t = .reserving n)
    (h : Fifo.step s t .reservePass = some (e, s')) : Asked n (s'.pc t) := by
  simp only [Fifo.step, hpc] at h
  split at h
  · cases h
    exact (Fifo.goto_pc_self (s := s) (t := t) _).symm ▸ .idle
  · cases h
    exact (Fifo.goto_pc_self (s := s) (t := t) _).symm ▸ .reserved ..
  · cases h
    exact (Fifo.goto_pc_self (s := s) (t := t) _).symm ▸ .reserveWait

theorem wake_asked (hpc : s.pc t = .reserveWait n) (h : Fifo.step s t .wake = some (e, s')) :
    Asked n (s'.pc t) := by
  simp only [Fifo.step, hpc] at h
  cases h
  exact (Fifo.goto_pc_self (s := s) (t := t) _).symm ▸ .reserving

theorem fill_step {i : Nat} {b : UInt8} (hpc : s.pc t = .reserved n addr avail im)
    (h : Fifo.step s t (.fill i b) = some (e, s')) :
    s'.pc t = .reserved n addr avail (im.set i b) := by
  simp only [Fifo.step, hpc] at h
  split_ifs at h
  cases h
  exact Fifo.goto_pc_self _

/-- Only a commit puts something into the FIFO. -/
theorem committed_eq_nil (h : Fifo.step s t a = some (e, s')) (hu : ∀ k, a ≠ .update k)
    (hc : ∀ bs, a ≠ .copy bs) : e.committed = [] := by
  unfold Fifo.step at h
  split at h
  · split_ifs at h <;> cases h <;> rfl
  · split at h <;> cases h <;> rfl
  · split_ifs at h
    cases h
    rfl
  · exact absurd rfl (hu _)
  · exact absurd rfl (hc _)
  · split_ifs at h <;> cases h <;> rfl
  · split at h <;> cases h <;> rfl
  · cases h
    rfl
  · cases h
    rfl
  · cases h
    rfl
  · cases h

end Others

section Frame
variable {Tid : Type*} [DecidableEq Tid] {me : Tid} {S m : Nat} {x x' : Sys Tid} {a : Act Tid}
  {c c' : Fifo.Pc} {p : At}

/-- How the place in the loop goes with the place in the FIFO's functions. -/
def At.Agrees (m : Nat) (c : Fifo.Pc) : At → Prop
  | .loop | .counting _ => c = .idle
  | .reserving => c = .reserving m ∨ c = .reserveWait m
  | .reserved size => ∃ addr image, c = .reserved m addr size image
  | .storing bs i => ∃ addr size image, c = .reserved m addr size image ∧ m ≤ size ∧
      1 ≤ bs.length ∧ bs.length ≤ m ∧ image.take i = bs.take i
  | .received internal bs => ∃ addr size image, c = .reserved m addr size image ∧
      1 ≤ bs.length ∧ bs.length ≤ m ∧ (internal = true ↔ size < m) ∧
      (internal = false → image.take bs.length = bs)
  | .ended _ => True

theorem At.Agrees.woken (h : p.Agrees m c) (hw : Woken c c') : p.Agrees m c' := by
  have hidle : c = .idle → c' = .idle := by
    rintro rfl
    cases hw <;> rfl
  have hheld : ∀ {addr size : Nat} {image : List UInt8}, c = .reserved m addr size image →
      c' = .reserved m addr size image := by
    rintro addr size image rfl
    cases hw <;> rfl
  cases p with
  | loop => exact hidle h
  | counting n => exact hidle h
  | reserving =>
    obtain rfl | rfl := h
    · left
      cases hw <;> rfl
    · cases hw
      · exact .inr rfl
      · exact .inr rfl
      · exact .inl rfl
      · exact .inl rfl
  | reserved size =>
    obtain ⟨addr, image, hc⟩ := h
    exact ⟨addr, image, hheld hc⟩
  | storing bs i =>
    obtain ⟨addr, size, image, hc, hrest⟩ := h
    exact ⟨addr, size, image, hheld hc, hrest⟩
  | received internal bs =>
    obtain ⟨addr, size, image, hc, hrest⟩ := h
    exact ⟨addr, size, image, hheld hc, hrest⟩
  | ended status => trivial

theorem Asked.agrees (h : Asked m c) : (At.ofReserve c).Agrees m c := by
  cases h with
  | idle => trivial
  | reserving => exact .inl rfl
  | reserveWait => exact .inr rfl
  | reserved addr size im => exact ⟨addr, im, rfl⟩

/-- What holds of the reader and the FIFO whatever is counted. -/
structure Linked (S : Nat) (me : Tid) (x : Sys Tid) : Prop where
  fifo : Fifo.Inv S x.fifo
  agrees : x.pc.Agrees x.reader.maxSize (x.fifo.pc me)

theorem Linked.call (h : Linked S me x) {b : Fifo.Act} {next : Fifo.Event Tid → Fifo.Sys Tid → At}
    (hx : x.call me b next = some x')
    (hnext : ∀ e fifo, Fifo.step x.fifo me b = some (e, fifo) →
      (next e fifo).Agrees x.reader.maxSize (fifo.pc me)) : Linked S me x' := by
  obtain ⟨r, hr, rfl⟩ := Option.map_eq_some_iff.1 hx
  exact ⟨(Fifo.step_refines r.1 h.fifo ⟨me, b, hr⟩).1, hnext r.1 r.2 hr⟩

theorem Linked.ofReserve (h : Linked S me x) {b : Fifo.Act}
    (hx : x.call me b (fun _ fifo => .ofReserve (fifo.pc me)) = some x')
    (hasked : ∀ e fifo, Fifo.step x.fifo me b = some (e, fifo) → Asked x.reader.maxSize (fifo.pc me)) :
    Linked S me x' :=
  h.call hx fun e fifo hstep => (hasked e fifo hstep).agrees

/-- One byte more is where it belongs. -/
theorem take_set_succ {image bs : List UInt8} {i : Nat} {b : UInt8} (hb : bs[i]? = some b)
    (hlen : bs.length ≤ image.length) (h : image.take i = bs.take i) :
    (image.set i b).take (i + 1) = bs.take (i + 1) := by
  obtain ⟨hi, -⟩ := List.getElem?_eq_some_iff.1 hb
  rw [List.take_add_one, List.take_add_one, hb, List.take_set_of_le (Nat.le_refl i), h,
    List.getElem?_set_self (by omega)]

theorem Linked.step (h : Linked S me x) (hx : ReaderLoop.step me a x = some x') : Linked S me x' := by
  have hagrees := h.agrees
  unfold ReaderLoop.step at hx
  split at hx
  · next u b =>
    split_ifs at hx with hu
    obtain ⟨r, hr, rfl⟩ := Option.map_eq_some_iff.1 hx
    exact ⟨(Fifo.step_refines r.1 h.fifo ⟨u, b, hr⟩).1, hagrees.woken (step_other hr hu)⟩
  · next hpc =>
    rw [hpc] at hagrees
    exact h.ofReserve hx fun _ _ hstep => reserve_asked hagrees hstep
  · next hpc =>
    rw [hpc] at hagrees
    refine h.ofReserve hx fun _ _ hstep => ?_
    obtain hc | hc := hagrees
    · exact reservePass_asked hc hstep
    · simp [Fifo.step, hc] at hstep
  · next hpc =>
    rw [hpc] at hagrees
    refine h.ofReserve hx fun _ _ hstep => ?_
    obtain hc | hc := hagrees
    · simp [Fifo.step, hc] at hstep
    · exact wake_asked hc hstep
  · next bs size hpc =>
    rw [hpc] at hagrees
    obtain ⟨addr, image, hc⟩ := hagrees
    split_ifs at hx with hlen hsize
    · cases hx
      exact ⟨h.fifo, addr, size, image, hc, hlen.1, hlen.2, ⟨fun _ => hsize, fun _ => rfl⟩, nofun⟩
    · cases hx
      exact ⟨h.fifo, addr, size, image, hc, Nat.le_of_not_lt hsize, hlen.1, hlen.2, rfl⟩
  · cases hx
    exact ⟨h.fifo, trivial⟩
  · cases hx
    exact ⟨h.fifo, trivial⟩
  · next bs i hpc =>
    rw [hpc] at hagrees
    obtain ⟨addr, size, image, hc, hsize, hpos, hle, htake⟩ := hagrees
    split at hx
    · next b hb =>
      refine h.call hx fun _ _ hstep => ?_
      exact ⟨addr, size, _, fill_step hc hstep, hsize, hpos, hle,
        take_set_succ hb (by rw [(reserved_facts h.fifo hc).2.2.2]; exact hle) htake⟩
    · next hnone =>
      cases hx
      have hi : bs.length ≤ i := List.getElem?_eq_none_iff.1 hnone
      have hroom : ¬ size < x.reader.maxSize := Nat.not_lt_of_le hsize
      refine ⟨h.fifo, addr, size, image, hc, hpos, hle, ⟨nofun, fun hlt => absurd hlt hroom⟩,
        fun _ => ?_⟩
      have hshort := congrArg (List.take bs.length) htake
      rwa [List.take_take, Nat.min_eq_left hi, List.take_take, Nat.min_eq_left hi,
        List.take_length] at hshort
  · next bs hpc =>
    rw [hpc] at hagrees
    obtain ⟨addr, size, image, hc, hpos, hle, -, -⟩ := hagrees
    obtain ⟨s', hs', -, -, hidle⟩ := copy_step h.fifo hc hle
    refine h.call hx fun e fifo hstep => ?_
    rw [hs'] at hstep
    cases hstep
    exact hidle
  · next bs hpc =>
    rw [hpc] at hagrees
    obtain ⟨addr, size, image, hc, hpos, hle, -, -⟩ := hagrees
    obtain ⟨s', hs', -, -, hidle⟩ := update_step h.fifo hc hle
    refine h.call hx fun e fifo hstep => ?_
    rw [hs'] at hstep
    cases hstep
    exact hidle
  · next n hpc =>
    rw [hpc] at hagrees
    cases hx
    exact ⟨h.fifo, hagrees⟩
  · cases hx
    exact ⟨h.fifo, hagrees⟩
  · cases hx

end Frame

section Counts
variable {Tid : Type*} [DecidableEq Tid] {me : Tid} {S : Nat} {x x' : Sys Tid} {a : Act Tid}
  {internal : Bool} {bs : List UInt8}

theorem commit_eq (x : Sys Tid) (hpc : x.pc = .received internal bs) :
    step me .commit x = x.call me (if internal then .copy bs else .update bs.length)
      fun e _ => if commits e then if internal then .loop else .counting bs.length else .ended 2 := by
  unfold step
  rw [hpc]
  cases internal <;> rfl

/-- Both ways the chunk comes to the end of the FIFO's content, and the reservation goes. -/
theorem commit_delivers (h : Linked S me x) (hpc : x.pc = .received internal bs) :
    ∃ x', step me .commit x = some x' ∧ Delivered x bs x' ∧ x'.reader = x.reader ∧
      x'.reported = x.reported ∧ x'.pc = if internal then .loop else .counting bs.length := by
  have hagrees := h.agrees
  rw [hpc] at hagrees
  obtain ⟨addr, size, image, hc, -, hle, -, himage⟩ := hagrees
  have hstep : ∃ e fifo, Fifo.step x.fifo me (if internal then .copy bs else .update bs.length) =
      some (e, fifo) ∧ commits e = true ∧ e.committed = bs ∧ e.delivered = [] ∧
      fifo.fifo.nreserved = 0 ∧ fifo.writeMutex = none := by
    cases internal with
    | true =>
      obtain ⟨fifo, hs, hn, hw, -⟩ := copy_step h.fifo hc hle
      exact ⟨_, fifo, hs, rfl, rfl, rfl, hn, hw⟩
    | false =>
      obtain ⟨fifo, hs, hn, hw, -⟩ := update_step h.fifo hc hle
      exact ⟨_, fifo, hs, rfl, himage rfl, rfl, hn, hw⟩
  obtain ⟨e, fifo, hs, hcommits, hcommitted, hdelivered, hn, hw⟩ := hstep
  have hbalanced := (Fifo.step_refines e h.fifo ⟨me, _, hs⟩).2.balanced
  rw [hcommitted, hdelivered, List.nil_append] at hbalanced
  refine ⟨{ x with fifo, pc := if internal then .loop else .counting bs.length, put := x.put + bs.length },
    ?_, ⟨hbalanced.symm, rfl, hn, hw, ?_⟩, rfl, rfl, rfl⟩
  · rw [commit_eq x hpc, Sys.call, hs, Option.map_some, if_pos hcommits, hcommitted]
  · cases internal <;> exact fun _ => nofun

/-- Only what has gone into the FIFO in place gets counted. -/
theorem commit_accounted_iff (h : Linked S me x) (hpc : x.pc = .received internal bs)
    (hacc : Accounted x) (hx : step me .commit x = some x') :
    Accounted x' ↔ x.reader.maxSize ≤ x.fifo.fifo.size - x.fifo.fifo.nextWrite := by
  obtain ⟨y, hy, hdel, hreader, hreported, hpc'⟩ := commit_delivers h hpc
  cases hy.symm.trans hx
  have hagrees := h.agrees
  rw [hpc] at hagrees
  obtain ⟨addr, size, image, hc, hpos, -, hinternal, -⟩ := hagrees
  obtain ⟨-, -, hsize, -⟩ := reserved_facts h.fifo hc
  have hput := hdel.put
  unfold Accounted at hacc ⊢
  rw [hpc] at hacc
  rw [hreader, hreported, hpc', hput, ← hacc, ← hsize]
  cases internal with
  | true =>
    have hlt := hinternal.1 rfl
    simp only [if_true, At.pending]
    omega
  | false =>
    have hge : ¬ size < x.reader.maxSize := fun hlt => nomatch hinternal.2 hlt
    simp only [At.pending]
    refine ⟨fun _ => Nat.le_of_not_lt hge, fun _ => ?_⟩
    simp

theorem count_step (me : Tid) {n : Nat} (hpc : x.pc = .counting n) (hacc : Accounted x) :
    ∃ x', step me .count x = some x' ∧
      (Accounted x' ↔ x.reader.byteCount.toNat + n < 2 ^ 64) := by
  have hlt := UInt64.toNat_lt x.reader.byteCount
  refine ⟨{ x with reader := { x.reader with byteCount := x.reader.byteCount + UInt64.ofNat n },
                   pc := .loop }, by simp only [step, hpc], ?_⟩
  unfold Accounted at hacc ⊢
  rw [hpc] at hacc
  simp only [At.pending, UInt64.toNat_add, UInt64.toNat_ofNat'] at hacc ⊢
  omega

/-- The other steps put nothing into the FIFO and take nothing from the count. -/
theorem Accounted.step (hacc : Accounted x) (hx : ReaderLoop.step me a x = some x')
    (hcommit : ∀ internal bs, a = .commit → x.pc ≠ .received internal bs)
    (hcount : ∀ n, a = .count → x.pc ≠ .counting n) : Accounted x' := by
  have hcall : ∀ {b : Fifo.Act} {next : Fifo.Event Tid → Fifo.Sys Tid → At},
      x.call me b next = some x' → (∀ k, b ≠ .update k) → (∀ bs, b ≠ .copy bs) →
      x.pc.pending = 0 → (∀ e fifo, (next e fifo).pending = 0) → Accounted x' := by
    intro b next hx hu hc hp hnext
    obtain ⟨r, hr, rfl⟩ := Option.map_eq_some_iff.1 hx
    unfold Accounted at hacc ⊢
    simp only [committed_eq_nil hr hu hc, hnext, List.length_nil]
    rw [hp] at hacc
    exact hacc
  have hask : ∀ c, (At.ofReserve c).pending = 0 := by
    intro c
    cases c <;> rfl
  unfold ReaderLoop.step at hx
  split at hx
  · split_ifs at hx
    obtain ⟨r, hr, rfl⟩ := Option.map_eq_some_iff.1 hx
    exact hacc
  · next hpc => exact hcall hx (fun _ => nofun) (fun _ => nofun) (hpc ▸ rfl) fun _ _ => hask _
  · next hpc => exact hcall hx (fun _ => nofun) (fun _ => nofun) (hpc ▸ rfl) fun _ _ => hask _
  · next hpc => exact hcall hx (fun _ => nofun) (fun _ => nofun) (hpc ▸ rfl) fun _ _ => hask _
  · next bs size hpc =>
    unfold Accounted at hacc
    rw [hpc] at hacc
    split_ifs at hx
    · cases hx
      exact hacc
    · cases hx
      exact hacc
  · next hpc =>
    unfold Accounted at hacc
    rw [hpc] at hacc
    cases hx
    exact hacc
  · next hpc =>
    unfold Accounted at hacc
    rw [hpc] at hacc
    cases hx
    exact hacc
  · next bs i hpc =>
    split at hx
    · exact hcall hx (fun _ => nofun) (fun _ => nofun) (hpc ▸ rfl) fun _ _ => rfl
    · unfold Accounted at hacc
      rw [hpc] at hacc
      cases hx
      exact hacc
  · next bs hpc => exact absurd hpc (hcommit true bs rfl)
  · next bs hpc => exact absurd hpc (hcommit false bs rfl)
  · next n hpc => exact absurd hpc (hcount n rfl)
  · cases hx
    unfold Accounted at hacc ⊢
    simp only [List.map_append, List.map_cons, List.map_nil, List.sum_append, List.sum_cons,
      List.sum_nil, UInt64.toNat_zero]
    omega
  · cases hx

/-- Each chunk comes to the end of the FIFO's content and releases the reservation, and
every byte is counted, exactly as long as no chunk is copied and the counter does not
overflow. -/
theorem delivery_iff (h : Fresh me S x) (acts : List (Act Tid)) :
    Throughout (step me) (Proper me) x acts ↔ Throughout (step me) InPlace x acts := by
  have hlinked : Linked S me x := ⟨h.fifo, by rw [h.loop]; exact h.idle⟩
  have hacc : Accounted x := by
    simp [Accounted, h.loop, h.byteCount, h.reported, h.put, At.pending]
  refine Throughout.iff_of_invariant (A := fun _ _ => True)
    (I := fun x => Linked S me x ∧ Accounted x) ?_ ?_ ⟨hlinked, hacc⟩ (.of_true x acts)
  · rintro x a ⟨hl, hacc⟩ -
    unfold Proper InPlace
    split
    · next internal bs hpc =>
      obtain ⟨y, hy, hdel, -⟩ := commit_delivers hl hpc
      have hiff := commit_accounted_iff hl hpc hacc hy
      simp only [hpc]
      constructor
      · exact fun hp => hiff.1 (hp.1 y hy)
      · refine fun hroom => ⟨fun x' hx' => ?_, y, hy, hdel⟩
        cases hy.symm.trans hx'
        exact hiff.2 hroom
    · next hother =>
      rw [and_true]
      split
      · next internal bs hpc => exact (hother internal bs rfl hpc).elim
      · next n hpc =>
        obtain ⟨y, hy, hiff⟩ := count_step me hpc hacc
        refine ⟨fun hp => hiff.1 (hp y hy), fun hlt x' hx' => ?_⟩
        cases hy.symm.trans hx'
        exact hiff.2 hlt
      · next hcommit hcount =>
        exact ⟨fun _ => trivial, fun _ x' hx' => hacc.step hx' hother hcount⟩
  · rintro x a x' ⟨hl, -⟩ - hp hx
    exact ⟨hl.step hx, hp.1 x' hx⟩

/-- Four bytes of FIFO, of which the reader asks for three at a time. -/
def started : Sys Nat where
  fifo := Fifo.Sys.init (fun _ => 0) 4
  reader := { byteCount := 0, maxSize := 3 }
  pc := .loop
  put := 0
  reported := []

theorem started_fresh : Fresh 0 4 started :=
  ⟨Fifo.Inv.init _ (by decide), rfl, rfl, rfl, rfl, rfl⟩

/-- Two bytes arrive and are counted, and one of them is taken out again. -/
def firstChunk : List (Act Nat) :=
  [.reserve, .reservePass, .read [1, 2], .store, .store, .store, .commit, .count,
    .other 1 (.read 1), .other 1 .readPass]

theorem delivery_iff_run : Throughout (step 0) (Proper 0) started firstChunk :=
  (delivery_iff started_fresh firstChunk).2 (by decide)

/-- What the calls make of it. -/
def after (acts : List (Act Nat)) : Option (Sys Nat) :=
  acts.foldlM (fun x a => step 0 a x) started

/-- The next one is near the end of the buffer. -/
def secondChunk : List (Act Nat) := firstChunk ++ [.reserve, .reservePass, .read [3]]

/-- It goes through the reader's own buffer, and is not counted. -/
theorem copied_chunk_not_counted :
    ((after secondChunk).bind (step 0 .commit)).map
        (fun x => (x.pc, x.put, x.reader.byteCount, x.reported)) = some (.loop, 3, 2, []) ∧
      ¬ Throughout (step 0) (Proper 0) started (secondChunk ++ [.commit]) := by
  have hval : ((after secondChunk).bind (step 0 .commit)).map
      (fun x => (x.pc, x.put, x.reader.byteCount, x.reported)) = some (.loop, 3, 2, []) := by
    decide
  refine ⟨hval, fun h => ?_⟩
  obtain ⟨x', hx', heq⟩ := Option.map_eq_some_iff.1 hval
  obtain ⟨x, hx, hcommit⟩ := Option.bind_eq_some_iff.1 hx'
  have hacc := (h.last hx).1 x' hcommit
  simp only [Prod.mk.injEq] at heq
  obtain ⟨hpc, hput, hcount, hreported⟩ := heq
  rw [Accounted, hpc, hput, hcount, hreported] at hacc
  exact absurd hacc (by decide)

end Counts
end Noaaport.ReaderLoop
