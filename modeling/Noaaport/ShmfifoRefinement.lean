import Noaaport.Shmfifo

/-! `shmfifo.c` refines a queue of records: header and data are two wrapping
copies, and together one cyclic block of the segment. -/
namespace Noaaport.Shmfifo
open Lib

section Header

theorem ofLe_le32 (n : Nat) : ofLe (le32 n) = n % 2 ^ 32 := by
  have h1 := Nat.mod_mul (x := n) (a := 256) (b := 256 * (256 * 256))
  have h2 := Nat.mod_mul (x := n / 256) (a := 256) (b := 256 * 256)
  have h3 := Nat.mod_mul (x := n / 256 / 256) (a := 256) (b := 256)
  calc ofLe (le32 n)
      = n % 256 + 256 * (n / 256 % 256 + 256 * (n / 256 / 256 % 256 +
          256 * (n / 256 / 256 / 256 % 256))) := by simp [ofLe, le32]
    _ = n % (256 * (256 * (256 * 256))) := by rw [← h3, ← h2, ← h1]

theorem Shmbh.ofBytes_bytes {n : Nat} (h : n < 2 ^ 31) :
    Shmbh.ofBytes (Shmbh.bytes n) = { sz := n, canary := deadbeef } := by
  have ht : (Shmbh.bytes n).take 4 = le32 n := rfl
  have hd : (Shmbh.bytes n).drop 4 = le32 deadbeef := rfl
  simp only [Shmbh.ofBytes, ht, hd, ofLe_le32]
  rw [Nat.mod_eq_of_lt (by omega), if_pos h]
  rfl

theorem Shmbh.length_bytes (n : Nat) : (Shmbh.bytes n).length = 8 := rfl

end Header

/-- What one record occupies. -/
def record (data : List UInt8) : List UInt8 := Shmbh.bytes data.length ++ data

theorem length_record (data : List UInt8) : (record data).length = 8 + data.length := by
  rw [record, List.length_append, Shmbh.length_bytes]

/-- The segment in offsets from the least record byte `l`: `c` cells, the data
from cell `r` on, `u` bytes of it. -/
structure At (shm : Shmhandle) (l c r u : Nat) (s : Segment) : Prop where
  low : shm.low = l
  sz : shm.sz = l + c
  r_lt : r < c
  u_lt : u < c
  read : s.p.read = l + r
  write : s.p.write = l + if r + u < c then r + u else r + u - c

section Low
variable {shm : Shmhandle} {l c r u : Nat} {s : Segment}

theorem At.write_mod (h : At shm l c r u s) : s.p.write = l + ((r + u) % c : Nat) := by
  have hr := h.r_lt
  have hu := h.u_lt
  rw [ring_index h.r_lt h.u_lt, h.write]

theorem At.of_write_mod {s' : Segment} {r' u' : Nat} (h : At shm l c r u s) (hr : r' < c)
    (hu : u' < c) (hread : s'.p.read = l + r') (hwrite : s'.p.write = l + ((r' + u') % c : Nat)) :
    At shm l c r' u' s' where
  low := h.low
  sz := h.sz
  r_lt := hr
  u_lt := hu
  read := hread
  write := by
    rw [hwrite, ring_index hr hu]

theorem At.write_lt (h : At shm l c r u s) : (l : Int) ≤ s.p.write ∧ s.p.write < shm.sz := by
  have hr := h.r_lt
  have hu := h.u_lt
  rw [h.write, h.sz]
  split_ifs <;> omega

/-- The two branch formulas count the same data, -/
theorem At.memused (h : At shm l c r u s) : shmfifoLlMemused shm s = u := by
  have hr := h.r_lt
  have hu := h.u_lt
  have hlow := h.low
  simp only [shmfifoLlMemused, h.read, h.write, h.sz, Shmhandle.low] at *
  split_ifs <;> omega

/-- and what they leave is free. -/
theorem At.memfree (h : At shm l c r u s) : shmfifoLlMemfree shm s = c - u := by
  have hr := h.r_lt
  have hu := h.u_lt
  have hlow := h.low
  simp only [shmfifoLlMemfree, h.read, h.write, h.sz, Shmhandle.low] at *
  split_ifs <;> omega

/-- One store, cyclic from the write position on. -/
theorem At.put (h : At shm l c r u s) (data : List UInt8) (hn : u + data.length < c) :
    ∃ s', shmfifoLlPut shm s data = ((data.length : Int), s') ∧ At shm l c r (u + data.length) s' ∧
      s'.mem = splitStore s.mem l c ((r + u) % c) data ∧
      s'.p.sz = s.p.sz ∧ s'.p.privsz = s.p.privsz := by
  have hr := h.r_lt
  have hu := h.u_lt
  have hlow := h.low
  obtain ⟨w, hw⟩ : ∃ w, w = (r + u) % c := ⟨_, rfl⟩
  have hwc : w < c := hw ▸ Nat.mod_lt _ (by omega)
  have hwrite : s.p.write = l + w := by rw [h.write_mod, hw]
  have hnext : (r + (u + data.length)) % c = (w + data.length) % c := by
    rw [hw, Nat.mod_add_mod, Nat.add_assoc]
  have hwn := ring_index hwc (show data.length < c by omega)
  rw [← hw]
  unfold shmfifoLlPut
  rw [h.memfree, if_neg (by omega)]
  simp only [hwrite, h.sz, Shmhandle.low] at hlow ⊢
  by_cases hc : w + data.length ≤ c
  · -- the data ends before the segment does, perhaps exactly at its end
    have hcopy : (if (l + c : Int) - (l + w) > data.length then (data.length : Int)
        else l + c - (l + w)) = data.length := by
      split_ifs <;> omega
    rw [hcopy, if_neg (by omega)]
    refine ⟨_, rfl, h.of_write_mod hr hn h.read ?_, ?_, rfl, rfl⟩
    · rw [hnext, hwn]
      simp only
      split_ifs <;> omega
    · simp only [splitStore]
      rw [Nat.min_eq_right (by omega), List.drop_length, store_nil, Int.toNat_natCast]
      rfl
  · have hcopy : (if (l + c : Int) - (l + w) > data.length then (data.length : Int)
        else l + c - (l + w)) = (c - w : Nat) := by
      split_ifs <;> omega
    have hwrap : (if (l + w : Int) + (c - w : Nat) = l + c then shm.privsz + sizeofShmprefix
        else l + w + (c - w : Nat)) = l := by
      split_ifs <;> omega
    rw [hcopy, hwrap, if_pos (by omega)]
    refine ⟨_, rfl, h.of_write_mod hr hn h.read ?_, ?_, rfl, rfl⟩
    · rw [hnext, hwn]
      simp only
      split_ifs <;> omega
    · simp only [splitStore]
      rw [Nat.min_eq_left (by omega), Int.toNat_natCast, Int.toNat_natCast]
      rfl

/-- One load, cyclic from the read position on. -/
theorem At.get (h : At shm l c r u s) {n : Nat} (h0 : 0 < n) (hn : n ≤ u) :
    ∃ s', shmfifoLlGet shm s n = .ret n (ringLoad s.mem l c r n) s' ∧
      At shm l c ((r + n) % c) (u - n) s' ∧ s'.mem = s.mem ∧
      s'.p.sz = s.p.sz ∧ s'.p.privsz = s.p.privsz := by
  have hr := h.r_lt
  have hu := h.u_lt
  have hlow := h.low
  have hrn := ring_index hr (show n < c by omega)
  have hr' : (r + n) % c < c := Nat.mod_lt _ (by omega)
  have hwrite : s.p.write = l + (((r + n) % c + (u - n)) % c : Nat) := by
    rw [h.write_mod, Nat.mod_add_mod, Nat.add_assoc, Nat.add_sub_cancel' hn]
  have hused : shmfifoLlMemused shm { s with p := { s.p with counter := s.p.counter + 1 } } = u :=
    h.memused
  unfold shmfifoLlGet
  simp only [hused]
  rw [if_neg (by omega), if_neg (by omega)]
  rw [← splitLoad_eq s.mem hr (by omega), splitLoad]
  simp only [h.read, h.sz, Shmhandle.low] at hlow ⊢
  by_cases hc : r + n ≤ c
  · have hcopy : (if (if s.p.write > l + r then s.p.write - (l + r) else (l + c : Int) - (l + r)) > n
        then (n : Int)
        else if s.p.write > l + r then s.p.write - (l + r) else (l + c : Int) - (l + r)) = n := by
      rw [h.write]
      split_ifs <;> omega
    rw [hcopy, if_neg (by omega), Nat.min_eq_right (by omega), Nat.sub_self, load_zero,
      List.append_nil, Int.toNat_natCast]
    refine ⟨_, rfl, h.of_write_mod hr' (by omega) ?_ hwrite, rfl, rfl, rfl⟩
    rw [hrn]
    simp only
    split_ifs <;> omega
  · have hcopy : (if (if s.p.write > l + r then s.p.write - (l + r) else (l + c : Int) - (l + r)) > n
        then (n : Int)
        else if s.p.write > l + r then s.p.write - (l + r) else (l + c : Int) - (l + r)) =
          (c - r : Nat) := by
      rw [h.write]
      split_ifs <;> omega
    have hwrap : (if (l + r : Int) + (c - r : Nat) = l + c then shm.privsz + sizeofShmprefix
        else l + r + (c - r : Nat)) = l := by
      split_ifs <;> omega
    rw [hcopy, hwrap, if_pos (by omega), Nat.min_eq_left (by omega), Int.toNat_natCast]
    have hrest : ((n : Int) - (c - r : Nat)).toNat = n - (c - r) := by omega
    rw [hrest]
    refine ⟨_, rfl, h.of_write_mod hr' (by omega) ?_ hwrite, rfl, rfl, rfl⟩
    rw [hrn]
    simp only
    split_ifs <;> omega

/-- Taking a header back, also across the end of the segment. -/
theorem At.hrewind (h : At shm l c ((r + 8) % c) (u - 8) s) (hr : r < c) (hu : u < c)
    (h8 : 8 ≤ u) : At shm l c r u (shmfifoLlHrewind shm s) := by
  have hlow := h.low
  have hrn := ring_index hr (show 8 < c by omega)
  have hread := h.read
  rw [hrn] at hread
  refine h.of_write_mod hr hu ?_ ?_
  · simp only [shmfifoLlHrewind, hread, h.sz, sizeofShmbh, Shmhandle.low] at hlow ⊢
    split_ifs <;> omega
  · change s.p.write = _
    rw [h.write_mod, Nat.mod_add_mod, Nat.add_assoc, Nat.add_sub_cancel' h8]

end Low

/-- What no operation touches: everything below the records, and the two sizes. -/
structure Kept (l : Nat) (s s' : Segment) : Prop where
  mem : ∀ a, a < l → s'.mem a = s.mem a
  sz : s'.p.sz = s.p.sz
  privsz : s'.p.privsz = s.p.privsz

theorem Kept.refl {l : Nat} (s : Segment) : Kept l s s := ⟨fun _ _ => rfl, rfl, rfl⟩

theorem Kept.trans {l : Nat} {s s' s'' : Segment} (h : Kept l s s') (h' : Kept l s' s'') :
    Kept l s s'' :=
  ⟨fun a ha => (h'.mem a ha).trans (h.mem a ha), h'.sz.trans h.sz, h'.privsz.trans h.privsz⟩

/-- The segment holds the records of `q`, oldest first, and nothing else. -/
def Queued (shm : Shmhandle) (l c : Nat) (s : Segment) (q : List (List UInt8)) : Prop :=
  ∃ r u, At shm l c r u s ∧ ringLoad s.mem l c r u = q.flatMap record ∧ ∀ d ∈ q, d ≠ []

/-- The same where a record may be empty. -/
def Held (shm : Shmhandle) (l c : Nat) (s : Segment) (q : List (List UInt8)) : Prop :=
  ∃ r u, At shm l c r u s ∧ ringLoad s.mem l c r u = q.flatMap record

section Held
variable {shm : Shmhandle} {l c : Nat} {s : Segment} {q : List (List UInt8)} {d : List UInt8}

theorem Held.used (h : Held shm l c s q) :
    shmfifoLlMemused shm s = (q.flatMap record).length := by
  obtain ⟨r, u, ha, hm⟩ := h
  rw [ha.memused, ← hm, length_ringLoad]

theorem Held.get_empty (h : Held shm l c s []) (sz : Int) : shmfifoGet shm s sz = .wait := by
  rw [shmfifoGet, if_pos (by simpa using h.used)]

/-- The header of the oldest record, wherever it wraps. -/
theorem Held.get_header (h : Held shm l c s (d :: q)) (hsz : shm.sz < 2 ^ 31) :
    ∃ r u s', At shm l c r u s ∧ 8 + d.length ≤ u ∧
      ringLoad s.mem l c r u = record d ++ q.flatMap record ∧
      shmfifoLlGet shm s sizeofShmbh = .ret 8 (Shmbh.bytes d.length) s' ∧
      Shmbh.ofBytes (Shmbh.bytes d.length) = ⟨d.length, deadbeef⟩ ∧
      At shm l c ((r + 8) % c) (u - 8) s' ∧ s'.mem = s.mem ∧ Kept l s s' := by
  obtain ⟨r, u, ha, hm⟩ := h
  have hlen := congrArg List.length hm
  rw [List.flatMap_cons, length_ringLoad, List.length_append, length_record] at hlen
  obtain ⟨s', hg, ha', hmem, h1, h2⟩ := ha.get (n := 8) (by decide) (by omega)
  have hbytes : ringLoad s.mem l c r 8 = Shmbh.bytes d.length := by
    rw [← ringLoad_take s.mem l c r u 8 (by omega), hm, List.flatMap_cons, record,
      List.append_assoc]
    rfl
  have hu := ha.u_lt
  have hc := ha.sz
  rw [hbytes] at hg
  exact ⟨r, u, s', ha, by omega, by rw [hm, List.flatMap_cons], hg,
    Shmbh.ofBytes_bytes (by omega), ha', hmem, fun _ _ => by rw [hmem], h1, h2⟩

/-- A get with room in the caller's buffer takes the oldest record, all of it. -/
theorem Held.get_head (h : Held shm l c s (d :: q)) (hne : d ≠ []) (hsz : shm.sz < 2 ^ 31)
    {sz : Int} (hbuf : d.length ≤ sz) :
    ∃ s', shmfifoGet shm s sz = .ret 0 (some d) s' ∧ Held shm l c s' q ∧ Kept l s s' := by
  obtain ⟨r, u, s₁, ha, hu, hm, hg, hh, ha₁, hmem₁, hk₁⟩ := h.get_header hsz
  have hd : 0 < d.length := List.length_pos_iff.2 hne
  obtain ⟨s₂, hg₂, ha₂, hmem₂, h1, h2⟩ := ha₁.get hd (by omega)
  have hdrop : ringLoad s.mem l c ((r + 8) % c) (u - 8) = d ++ q.flatMap record := by
    rw [← ringLoad_drop s.mem l c r u 8 (by omega), hm, record, List.append_assoc]
    rfl
  have hdata : ringLoad s₁.mem l c ((r + 8) % c) d.length = d := by
    rw [hmem₁, ← ringLoad_take s.mem l c _ (u - 8) _ (by omega), hdrop, List.take_left]
  rw [hdata] at hg₂
  refine ⟨s₂, ?_, ⟨_, _, ha₂, ?_⟩, hk₁.trans ⟨fun _ _ => by rw [hmem₂], h1, h2⟩⟩
  · rw [shmfifoGet, ha.memused, if_neg (by omega), if_neg (by rw [sizeofShmbh]; omega), hg]
    simp only [hh]
    rw [if_neg (by simp), ha₁.memused, if_neg (by omega), if_neg (by omega), hg₂]
  · rw [hmem₂, hmem₁, ← ringLoad_drop s.mem l c _ (u - 8) _ (by omega), hdrop, List.drop_left]

/-- The segment as it was, but for its counter of accesses. -/
structure Unmoved (s s' : Segment) : Prop where
  read : s'.p.read = s.p.read
  write : s'.p.write = s.p.write
  sz : s'.p.sz = s.p.sz
  privsz : s'.p.privsz = s.p.privsz
  mem : s'.mem = s.mem

theorem Unmoved.refl (s : Segment) : Unmoved s s := ⟨rfl, rfl, rfl, rfl, rfl⟩

theorem Unmoved.trans {s'' : Segment} (h : Unmoved s s') (h' : Unmoved s' s'') : Unmoved s s'' :=
  ⟨h'.read.trans h.read, h'.write.trans h.write, h'.sz.trans h.sz, h'.privsz.trans h.privsz,
    h'.mem.trans h.mem⟩

theorem Unmoved.kept (h : Unmoved s s') : Kept l s s' :=
  ⟨fun _ _ => by rw [h.mem], h.sz, h.privsz⟩

/-- The rewind takes back the header, wherever that wraps. -/
theorem Held.rewind_unmoved (h : Held shm l c s (d :: q)) (hsz : shm.sz < 2 ^ 31) :
    ∃ s₁, shmfifoLlGet shm s sizeofShmbh = .ret 8 (Shmbh.bytes d.length) s₁ ∧
      Unmoved s (shmfifoLlHrewind shm s₁) ∧ Held shm l c (shmfifoLlHrewind shm s₁) (d :: q) := by
  obtain ⟨r, u, s₁, ha, hu, hm, hg, -, ha₁, hmem, hk⟩ := h.get_header hsz
  have hback := ha₁.hrewind ha.r_lt ha.u_lt (by omega)
  refine ⟨s₁, hg, ⟨?_, ?_, hk.sz, hk.privsz, hmem⟩, r, u, hback, ?_⟩
  · rw [hback.read, ha.read]
  · rw [hback.write, ha.write]
  · change ringLoad s₁.mem l c r u = _
    rw [hmem, hm, List.flatMap_cons]

/-- With a smaller buffer the record stays where it is. -/
theorem Held.get_unmoved (h : Held shm l c s (d :: q)) (hsz : shm.sz < 2 ^ 31) {sz : Int}
    (hbuf : sz < d.length) :
    ∃ s', shmfifoGet shm s sz = .ret EINVAL none s' ∧ Unmoved s s' ∧
      Held shm l c s' (d :: q) := by
  obtain ⟨s₁, hg, hun, hq⟩ := h.rewind_unmoved hsz
  obtain ⟨r, u, s₂, ha, hu, -, hg₂, hh, ha₂, -⟩ := h.get_header hsz
  rw [hg] at hg₂
  cases hg₂
  refine ⟨_, ?_, hun, hq⟩
  rw [shmfifoGet, ha.memused, if_neg (by omega), if_neg (by rw [sizeofShmbh]; omega), hg]
  simp only [hh]
  rw [if_neg (by simp), ha₂.memused, if_neg (by omega), if_pos hbuf]

/-- A put that finds room appends one record. -/
theorem Held.put_append (h : Held shm l c s q)
    (hroom : d.length + sizeofShmbh < shmfifoLlMemfree shm s) :
    ∃ s', putRetry shm s d = .ret 0 s' ∧ Held shm l c s' (q ++ [d]) ∧ Kept l s s' := by
  obtain ⟨r, u, ha, hm⟩ := h
  rw [ha.memfree, sizeofShmbh] at hroom
  have hl := Shmbh.length_bytes d.length
  obtain ⟨s₁, hp₁, ha₁, hmem₁, h1, h2⟩ := ha.put (Shmbh.bytes d.length) (by omega)
  obtain ⟨s₂, hp₂, ha₂, hmem₂, h3, h4⟩ := ha₁.put d (by omega)
  have hr := ha.r_lt
  have hw : ∀ n, (r + n) % c < c := fun n => Nat.mod_lt _ (by omega)
  refine ⟨s₂, ?_, ⟨r, _, ha₂, ?_⟩, ?_, h3.trans h1, h4.trans h2⟩
  · rw [putRetry, ha.memfree, sizeofShmbh, if_neg (by omega)]
    simp only [hp₁, hp₂]
  · rw [hmem₂, ringLoad_splitStore_append hr (by omega), hmem₁,
      ringLoad_splitStore_append hr (by omega), hm, List.flatMap_append, List.flatMap_singleton,
      record, List.append_assoc]
  · intro a hlt
    rw [hmem₂, splitStore_frame (hw _) (by omega) (.inl hlt), hmem₁,
      splitStore_frame (hw _) (by omega) (.inl hlt)]

end Held

section Records
variable {shm : Shmhandle} {l c : Nat} {s : Segment} {q : List (List UInt8)} {d : List UInt8}

theorem Queued.held (h : Queued shm l c s q) : Held shm l c s q := by
  obtain ⟨r, u, ha, hm, -⟩ := h
  exact ⟨r, u, ha, hm⟩

theorem Queued.sized (h : Queued shm l c s q) : ∀ d ∈ q, d ≠ [] := by
  obtain ⟨_, _, _, _, hne⟩ := h
  exact hne

theorem Held.queued (h : Held shm l c s q) (hne : ∀ d ∈ q, d ≠ []) : Queued shm l c s q := by
  obtain ⟨r, u, ha, hm⟩ := h
  exact ⟨r, u, ha, hm, hne⟩

theorem Queued.used (h : Queued shm l c s q) :
    shmfifoLlMemused shm s = (q.flatMap record).length := h.held.used

theorem Queued.free (h : Queued shm l c s q) :
    shmfifoLlMemused shm s + shmfifoLlMemfree shm s = c := by
  obtain ⟨r, u, ha, -, -⟩ := h
  rw [ha.memused, ha.memfree]
  omega

theorem get_empty (h : Queued shm l c s []) (sz : Int) : shmfifoGet shm s sz = .wait :=
  h.held.get_empty sz

theorem get_header (h : Queued shm l c s (d :: q)) (hsz : shm.sz < 2 ^ 31) :
    ∃ r u s', At shm l c r u s ∧ 8 + d.length ≤ u ∧
      ringLoad s.mem l c r u = record d ++ q.flatMap record ∧
      shmfifoLlGet shm s sizeofShmbh = .ret 8 (Shmbh.bytes d.length) s' ∧
      Shmbh.ofBytes (Shmbh.bytes d.length) = ⟨d.length, deadbeef⟩ ∧
      At shm l c ((r + 8) % c) (u - 8) s' ∧ s'.mem = s.mem ∧ Kept l s s' :=
  h.held.get_header hsz

theorem get_head (h : Queued shm l c s (d :: q)) (hsz : shm.sz < 2 ^ 31) {sz : Int}
    (hbuf : d.length ≤ sz) :
    ∃ s', shmfifoGet shm s sz = .ret 0 (some d) s' ∧ Queued shm l c s' q ∧ Kept l s s' := by
  have hne := h.sized
  obtain ⟨s', hget, hq, hk⟩ := h.held.get_head (hne d List.mem_cons_self) hsz hbuf
  exact ⟨s', hget, hq.queued fun d' hd' => hne d' (List.mem_cons_of_mem _ hd'), hk⟩

theorem rewind_unmoved (h : Queued shm l c s (d :: q)) (hsz : shm.sz < 2 ^ 31) :
    ∃ s₁, shmfifoLlGet shm s sizeofShmbh = .ret 8 (Shmbh.bytes d.length) s₁ ∧
      Unmoved s (shmfifoLlHrewind shm s₁) ∧ Queued shm l c (shmfifoLlHrewind shm s₁) (d :: q) := by
  obtain ⟨s₁, hg, hun, hq⟩ := h.held.rewind_unmoved hsz
  exact ⟨s₁, hg, hun, hq.queued h.sized⟩

theorem get_unmoved (h : Queued shm l c s (d :: q)) (hsz : shm.sz < 2 ^ 31) {sz : Int}
    (hbuf : sz < d.length) :
    ∃ s', shmfifoGet shm s sz = .ret EINVAL none s' ∧ Unmoved s s' ∧
      Queued shm l c s' (d :: q) := by
  obtain ⟨s', hget, hun, hq⟩ := h.held.get_unmoved hsz hbuf
  exact ⟨s', hget, hun, hq.queued h.sized⟩

theorem get_small (h : Queued shm l c s (d :: q)) (hsz : shm.sz < 2 ^ 31) {sz : Int}
    (hbuf : sz < d.length) :
    ∃ s', shmfifoGet shm s sz = .ret EINVAL none s' ∧ Queued shm l c s' (d :: q) ∧
      Kept l s s' := by
  obtain ⟨s', hget, hun, hq⟩ := get_unmoved h hsz hbuf
  exact ⟨s', hget, hq, hun.kept⟩

theorem put_wait (h : shmfifoLlMemfree shm s ≤ d.length + sizeofShmbh) :
    putRetry shm s d = .wait := by
  rw [putRetry, if_pos h]

theorem put_append (h : Queued shm l c s q) (hd : d ≠ [])
    (hroom : d.length + sizeofShmbh < shmfifoLlMemfree shm s) :
    ∃ s', putRetry shm s d = .ret 0 s' ∧ Queued shm l c s' (q ++ [d]) ∧ Kept l s s' := by
  obtain ⟨s', hp, hq, hk⟩ := h.held.put_append hroom
  refine ⟨s', hp, hq.queued fun d' hd' => ?_, hk⟩
  rcases List.mem_append.1 hd' with hold | hnew
  · exact h.sized d' hold
  · rwa [List.mem_singleton.1 hnew]

end Records

/-- The specification: records in the order they were put. -/
inductive RecordQueue.Step : List (List UInt8) → Event → List (List UInt8) → Prop where
  | quiet (q : List (List UInt8)) : Step q .quiet q
  | put (q : List (List UInt8)) (data : List UInt8) : Step q (.put data) (q ++ [data])
  | get (q : List (List UInt8)) (data : List UInt8) : Step (data :: q) (.get data) q

theorem RecordQueue.Step.balanced {q q' : List (List UInt8)} {e : Event}
    (h : RecordQueue.Step q e q') : q ++ e.added = e.removed ++ q' := by
  cases h <;> simp [Event.added, Event.removed]

section Refinement
variable {shm : Shmhandle} {l c : Nat} {s₀ : Segment} {s s' : Sys} {q : List (List UInt8)}

/-- What ties a reachable state to its queue. -/
structure Inv (shm : Shmhandle) (l c : Nat) (s₀ : Segment) (s : Sys) (q : List (List UInt8)) :
    Prop where
  queued : Queued shm l c s.seg q
  kept : Kept l s₀ s.seg
  putting : ∀ data, s.putting = some data → data ≠ []

theorem Inv.putPass (h : Inv shm l c s₀ s q) {d : List UInt8} (hd : d ≠ []) {pass : PutPass}
    (hpass : pass = putRetry shm s.seg d ∨ pass = .ret E2BIG s.seg) {e : Event}
    (hs : some (afterPut s d pass) = some (e, s')) :
    ∃ q', RecordQueue.Step q e q' ∧ Inv shm l c s₀ s' q' := by
  rcases hpass with rfl | rfl
  · by_cases hf : shmfifoLlMemfree shm s.seg ≤ d.length + sizeofShmbh
    · rw [put_wait hf] at hs
      cases hs
      exact ⟨q, .quiet q, h.queued, h.kept, fun data hdata => Option.some.inj hdata ▸ hd⟩
    · obtain ⟨seg, hp, hq, hk⟩ := put_append h.queued hd (not_le.1 hf)
      rw [hp] at hs
      cases hs
      exact ⟨q ++ [d], .put q d, hq, h.kept.trans hk, fun _ hdata => by cases hdata⟩
  · cases hs
    exact ⟨q, .quiet q, h.queued, h.kept, fun _ hdata => by cases hdata⟩

theorem shmfifoPut_eq (s : Segment) (d : List UInt8) :
    shmfifoPut shm s d = putRetry shm s d ∨ shmfifoPut shm s d = .ret E2BIG s := by
  rw [shmfifoPut]
  split_ifs
  · exact .inr rfl
  · exact .inl rfl

theorem Inv.getPass (h : Inv shm l c s₀ s q) (hsz : shm.sz < 2 ^ 31) {sz : Int} {e : Event}
    (hs : afterGet s sz (shmfifoGet shm s.seg sz) = some (e, s')) :
    ∃ q', RecordQueue.Step q e q' ∧ Inv shm l c s₀ s' q' := by
  cases q with
  | nil =>
    rw [get_empty h.queued] at hs
    cases hs
    exact ⟨[], .quiet _, h.queued, h.kept, h.putting⟩
  | cons d q =>
    by_cases hb : (d.length : Int) ≤ sz
    · obtain ⟨seg, hg, hq, hk⟩ := get_head h.queued hsz hb
      rw [hg] at hs
      cases hs
      exact ⟨q, .get q d, hq, h.kept.trans hk, h.putting⟩
    · obtain ⟨seg, hg, hq, hk⟩ := get_small h.queued hsz (not_le.1 hb)
      rw [hg] at hs
      cases hs
      exact ⟨d :: q, .quiet _, hq, h.kept.trans hk, h.putting⟩

/-- Every locked section of the writer or of the reader is a queue step. -/
theorem step_refines (h : Inv shm l c s₀ s q) (hsz : shm.sz < 2 ^ 31) {e : Event}
    (hs : Step shm s e s') : ∃ q', RecordQueue.Step q e q' ∧ Inv shm l c s₀ s' q' := by
  obtain ⟨a, hs⟩ := hs
  cases a with
  | put data =>
    simp only [step] at hs
    split at hs
    · next hc =>
      exact h.putPass hc.2 (shmfifoPut_eq s.seg data) hs
    · cases hs
  | putRetry =>
    simp only [step] at hs
    split at hs
    · next data hdata =>
      exact h.putPass (h.putting data hdata) (.inl rfl) hs
    · cases hs
  | get sz =>
    simp only [step] at hs
    split at hs
    · split at hs
      · cases hs
        exact ⟨q, .quiet q, h⟩
      · exact h.getPass hsz hs
    · cases hs
  | getRetry =>
    simp only [step] at hs
    split at hs
    · exact h.getPass hsz hs
    · cases hs

theorem queued_create (mem : Mem UInt8) (counter : Int) (hlow : shm.low = l)
    (hsz : shm.sz = l + c) (hc : 0 < c) :
    Queued shm l c (shmfifoCreate mem counter shm.sz shm.privsz) [] :=
  ⟨0, 0, ⟨hlow, hsz, hc, hc, by simpa [shmfifoCreate, Shmhandle.low] using hlow,
    by simpa [shmfifoCreate, Shmhandle.low, hc] using hlow⟩, rfl, fun _ h => by cases h⟩

/-- The segment as created, with no call under way. -/
def Sys.init (shm : Shmhandle) (mem : Mem UInt8) (counter : Int) : Sys where
  seg := shmfifoCreate mem counter shm.sz shm.privsz
  putting := none
  getting := none

/-- Every reachable state holds the records put and not yet got. -/
theorem trace_inv {mem : Mem UInt8} {counter : Int} (hpriv : 0 ≤ shm.privsz) (hcap : 0 < shm.capacity)
    (hsz : shm.sz < 2 ^ 31) {es : List Event}
    (h : Trace (Step shm) (Sys.init shm mem counter) es s) :
    ∃ (l c : Nat) (q : List (List UInt8)), shm.low = l ∧ shm.capacity = c ∧ shm.sz = l + c ∧
      Trace RecordQueue.Step [] es q ∧ Inv shm l c (Sys.init shm mem counter).seg s q := by
  obtain ⟨l, hl⟩ : ∃ l : Nat, shm.low = l := ⟨shm.low.toNat, by
    simp only [Shmhandle.low, sizeofShmprefix]; omega⟩
  obtain ⟨c, hc⟩ : ∃ c : Nat, shm.capacity = c := ⟨shm.capacity.toNat, by omega⟩
  have hlc : shm.sz = l + c := by
    simp only [Shmhandle.capacity] at hc
    omega
  obtain ⟨q, hq, hi⟩ := h.simulate RecordQueue.Step (Inv shm l c _)
    (fun s e s' q hr hs => step_refines hr hsz hs)
    ⟨queued_create mem counter hl hlc (by omega), .refl _, fun _ hd => by cases hd⟩
  exact ⟨l, c, q, hl, hc, hlc, hq, hi⟩

/-- From `shmfifo_create` on, in every interleaving of the writer and the reader:
positions and counts are in range, the segment holds exactly the records put and
not yet got, a get with room takes the oldest of them, and the private area and
the two sizes stay. -/
theorem shmfifo_refines_records (mem : Mem UInt8) (counter : Int) (hpriv : 0 ≤ shm.privsz)
    (hcap : 8 < shm.capacity) (hsz : shm.sz < 2 ^ 31) {es : List Event}
    (h : Trace (Step shm) (Sys.init shm mem counter) es s) :
    (shm.low ≤ s.seg.p.read ∧ s.seg.p.read < shm.sz) ∧
    (shm.low ≤ s.seg.p.write ∧ s.seg.p.write < shm.sz) ∧
    shmfifoLlMemused shm s.seg + shmfifoLlMemfree shm s.seg = shm.capacity ∧
    Kept shm.low.toNat (Sys.init shm mem counter).seg s.seg ∧
    ∃ q, Trace RecordQueue.Step [] es q ∧
      es.flatMap Event.added = es.flatMap Event.removed ++ q ∧
      ringLoad s.seg.mem shm.low.toNat shm.capacity.toNat (s.seg.p.read - shm.low).toNat
        (shmfifoLlMemused shm s.seg).toNat = q.flatMap record ∧
      (∀ d q', q = d :: q' → ∀ sz : Int, d.length ≤ sz →
        ∃ seg, shmfifoGet shm s.seg sz = .ret 0 (some d) seg ∧
          Queued shm shm.low.toNat shm.capacity.toNat seg q') ∧
      ∀ e s', Step shm s e s' → ∃ q', RecordQueue.Step q e q' ∧
        Queued shm shm.low.toNat shm.capacity.toNat s'.seg q' := by
  obtain ⟨l, c, q, hl, hc, hlc, hq, hi⟩ := trace_inv hpriv (by omega) hsz h
  obtain ⟨r, u, ha, hm, hne⟩ := hi.queued
  have hr := ha.r_lt
  rw [hl, hc, Int.toNat_natCast, Int.toNat_natCast]
  refine ⟨by rw [ha.read, hlc]; omega, ha.write_lt, hi.queued.free, hi.kept, q, hq, ?_, ?_, ?_, ?_⟩
  · simpa using hq.balance id (fun _ _ _ hs => hs.balanced)
  · rw [ha.read, ha.memused, add_sub_cancel_left, Int.toNat_natCast, Int.toNat_natCast, hm]
  · rintro d q' rfl sz hb
    obtain ⟨seg, hg, hq', -⟩ := get_head hi.queued hsz hb
    exact ⟨seg, hg, hq'⟩
  · intro e s' hs
    obtain ⟨q', hq', hi'⟩ := step_refines hi hsz hs
    exact ⟨q', hq', hi'.queued⟩

/-- Sixteen record bytes: the second header wraps around the end. -/
theorem shmfifo_refines_records_run :
    ∃ (es : List Event) (s : Sys),
      Trace (Step ⟨0, 36⟩) (Sys.init ⟨0, 36⟩ (fun _ => 0) 0) es s ∧
      es.flatMap Event.added = [[1, 2], [3, 4]] ∧ es.flatMap Event.removed = [[1, 2]] ∧
      shmfifoLlMemused ⟨0, 36⟩ s.seg + shmfifoLlMemfree ⟨0, 36⟩ s.seg =
        Shmhandle.capacity ⟨0, 36⟩ := by
  have h : Trace (Step ⟨0, 36⟩) (Sys.init ⟨0, 36⟩ (fun _ => 0) 0) _ _ :=
    .cons ⟨.get 8, rfl⟩ <| .cons ⟨.put [1, 2], rfl⟩ <| .cons ⟨.getRetry, rfl⟩ <|
      .cons ⟨.put [3, 4], rfl⟩ <| .cons ⟨.get 1, rfl⟩ <| .nil _
  exact ⟨_, _, h, rfl, rfl,
    (shmfifo_refines_records _ _ (by decide) (by decide) (by decide) h).2.2.1⟩

end Refinement
end Noaaport.Shmfifo
