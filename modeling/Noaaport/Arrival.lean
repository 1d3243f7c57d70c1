import Mathlib.Data.List.GetD
import Noaaport.Phases
import Noaaport.Products

/-! A well-formed packet at the head of the stream: what the loop has in its
buffer and its variables when it comes to "Get the data". -/
namespace Noaaport
open Lib

/-- Reads of at most `max` bytes succeed whenever that many are there. -/
def Program.ServesAll (p : Program) (max : Nat) : Prop :=
  ∀ (want : Int) (rest : List UInt8), 0 ≤ want → want ≤ max → want.toNat ≤ rest.length →
    p.reader.read want rest = .ok

theorem Program.ServesAll.serves {p : Program} {max n : Nat} (hp : p.ServesAll max) (hn : n ≤ max) :
    p.Serves n := fun want rest h0 h1 h2 _ => hp want rest h0 (by omega) h2

theorem readnoaaport_servesAll (max : Nat) : readnoaaport.ServesAll max := by
  intro want rest h0 _ hle
  simp only [readnoaaport, shmBufread]
  rw [if_neg (by omega), if_pos hle]

theorem pmStart_servesAll {size max : Nat} (h : max ≤ size) : (pmStart size false).ServesAll max := by
  intro want rest h0 hmax hle
  simp only [pmStart, fifoReader]
  rw [if_neg (by omega), if_neg (by simp), if_pos hle]

theorem State.read_go {p : Program} {max n off : Nat} {onFail : Exit} {s : State}
    (hp : p.ServesAll max) (hmax : n ≤ max) (hle : n ≤ s.inp.rest.length) :
    s.read p off n onFail = .go (s.setInp (s.inp.take off n)) := by
  simp only [State.read, Input.read, hp n s.inp.rest (by omega) (by omega) (by simpa using hle),
    Int.toNat_natCast, Flow.within_go]

section Holds

/-- The buffer begins with `bs`. -/
def Holds (buf : Buffer) (bs : List UInt8) : Prop := ∀ i (h : i < bs.length), buf i = bs[i]

variable {buf : Buffer} {bs cs : List UInt8}

theorem Holds.of_load (h : load buf 0 bs.length = bs) : Holds buf bs := by
  intro i hi
  have hc := load_eq_iff.1 h i hi
  rwa [Nat.zero_add] at hc

/-- What is read behind it extends it. -/
theorem Holds.store {a : Nat} (h : Holds buf bs) (ha : a = bs.length) :
    Holds (store buf a cs) (bs ++ cs) := by
  subst ha
  intro i hi
  by_cases hlt : i < bs.length
  · rw [store_before _ _ _ _ hlt, List.getElem_append_left hlt]
    exact h i hlt
  · obtain ⟨j, rfl⟩ := Nat.exists_eq_add_of_le (not_lt.1 hlt)
    rw [List.length_append] at hi
    rw [store_inside _ _ _ _ (by omega), List.getElem_append_right (by omega)]
    simp only [Nat.add_sub_cancel_left]

theorem Holds.prefix (h : Holds buf (bs ++ cs)) : Holds buf bs := by
  intro i hi
  have hi' : i < (bs ++ cs).length := by
    rw [List.length_append]
    omega
  rw [h i hi', List.getElem_append_left hi]

theorem Holds.load_back (bs cs : List UInt8) (h : Holds buf (bs ++ cs)) : load buf bs.length cs.length = cs := by
  rw [load_eq_iff]
  intro i hi
  rw [h (bs.length + i) (by rw [List.length_append]; omega), List.getElem_append_right (by omega)]
  simp only [Nat.add_sub_cancel_left]

end Holds

section Congr
variable {buf buf' : Buffer} {a : Nat}

theorem be32_congr (h : ∀ i, i < 4 → buf (a + i) = buf' (a + i)) : be32 buf a = be32 buf' a := by
  have h1 : be16 buf a = be16 buf' a := be16_congr fun i hi => h i (by omega)
  have h2 : be16 buf (a + 2) = be16 buf' (a + 2) :=
    be16_congr fun i hi => by rw [Nat.add_assoc]; exact h (2 + i) (by omega)
  simp only [be32, h1, h2]

/-- Once `readsbn` accepts, its fields are those of the sixteen bytes. -/
theorem readsbn_congr (h : ∀ i, i < 16 → buf i = buf' i) (o o' : Sbn)
    (hok : (readsbn buf o).1 = true) : (readsbn buf o).2 = (readsbn buf' o').2 := by
  have hsum : csum buf = csum buf' := by
    unfold csum
    have hload : load buf 0 14 = load buf' 0 14 := load_congr fun i hi => h (0 + i) (by omega)
    rw [hload]
  have h14 : be16 buf 14 = be16 buf' 14 := be16_congr fun i hi => h (14 + i) (by omega)
  have h12 : be16 buf 12 = be16 buf' 12 := be16_congr fun i hi => h (12 + i) (by omega)
  have h8 : be32 buf 8 = be32 buf' 8 := be32_congr fun i hi => h (8 + i) (by omega)
  have h0 := h 0 (by decide)
  have h2 := h 2 (by decide)
  have h4 := h 4 (by decide)
  have h5 := h 5 (by decide)
  unfold readsbn at hok ⊢
  simp only [← hsum, ← h14, ← h12, ← h8, ← h0, ← h2, ← h4, ← h5]
  generalize csum buf = c, be16 buf 14 = n at hok ⊢
  by_cases h1 : c ≠ n
  · rw [if_pos h1] at hok
    cases hok
  by_cases h2 : buf 0 ≠ 255
  · rw [if_neg h1, if_pos h2] at hok
    cases hok
  rw [if_neg h1, if_neg h2] at hok ⊢
  rw [if_neg h1, if_neg h2]
  by_cases h3 : (buf 4).toNat ≠ 3 ∧ (buf 4).toNat ≠ 5 ∧ (buf 4).toNat ≠ 10
  · rw [if_pos h3] at hok
    cases hok
  · rw [if_neg h3, if_neg h3]

theorem readpdh_congr (h : ∀ i, i < 16 → buf (a + i) = buf' (a + i)) :
    readpdh buf a = readpdh buf' a := by
  have h0 : buf a = buf' a := h 0 (by decide)
  have h2 : be16 buf (a + 2) = be16 buf' (a + 2) :=
    be16_congr fun i hi => by rw [Nat.add_assoc]; exact h (2 + i) (by omega)
  have h4 : be16 buf (a + 4) = be16 buf' (a + 4) :=
    be16_congr fun i hi => by rw [Nat.add_assoc]; exact h (4 + i) (by omega)
  have h6 : be16 buf (a + 6) = be16 buf' (a + 6) :=
    be16_congr fun i hi => by rw [Nat.add_assoc]; exact h (6 + i) (by omega)
  have h8 : be16 buf (a + 8) = be16 buf' (a + 8) :=
    be16_congr fun i hi => by rw [Nat.add_assoc]; exact h (8 + i) (by omega)
  have h12 : be32 buf (a + 12) = be32 buf' (a + 12) :=
    be32_congr fun i hi => by rw [Nat.add_assoc]; exact h (12 + i) (by omega)
  unfold readpdh
  rw [h0, h2, h4, h6, h8, h12, h 1 (by decide), h 10 (by decide), h 11 (by decide)]

theorem readpsh_olen (buf : Buffer) (a : Nat) (psh : Psh) :
    (readpsh buf a psh).olen = be16 buf (a + 2) := by
  unfold readpsh
  rfl

theorem readpsh_frags (buf : Buffer) (a : Nat) (psh : Psh) :
    (readpsh buf a psh).frags = be16 buf (a + 14) := by
  unfold readpsh
  rfl

theorem readccb_len (lib : Library) (buf : Buffer) (a : Nat) (ccb : Ccb) (psh : Psh) (blen : Nat) :
    (readccb lib buf a ccb psh blen).2.1.len = if ccbLen buf a > blen then 0 else ccbLen buf a := by
  unfold readccb
  split_ifs <;> rfl

theorem dataType_frags (buf : Buffer) (a user1 user2 : Nat) (title : Text) (psh : Psh) :
    (dataType buf a user1 user2 title psh).frags = psh.frags := by
  unfold dataType
  split_ifs <;> rfl

theorem wmoName_frags (buf : Buffer) (a : Nat) (wmo : WmoHeader) (psh : Psh) :
    (wmoName buf a wmo psh).frags = psh.frags := by
  unfold wmoName
  split_ifs <;> rfl

theorem readccb_frags (lib : Library) (buf : Buffer) (a : Nat) (ccb : Ccb) (psh : Psh) (blen : Nat) :
    (readccb lib buf a ccb psh blen).2.2.frags = psh.frags := by
  unfold readccb
  split_ifs
  · rfl
  · simp only [ccbPsh, createMetadata, dataType_frags, wmoName_frags]

end Congr

section Arrive
variable {p : Program} {lib : Library} {k : Packet} {tail : List UInt8}

theorem HeaderAt.append {s : List UInt8} {q : Nat} (h : HeaderAt s q) (t : List UInt8) :
    HeaderAt (s ++ t) q := by
  obtain ⟨hlen, h0, hsum, hcmd⟩ := h
  have hget (j : Nat) (hj : j < s.length) : (s ++ t).getD j 0 = s.getD j 0 :=
    List.getD_append s t 0 j hj
  have hbyte (j : Nat) (hj : j < s.length) : byteAt (s ++ t) j = byteAt s j := by
    rw [byteAt, hget j hj, byteAt]
  refine ⟨by rw [List.length_append]; omega, ?_, ?_, ?_⟩
  · rw [hget q (by omega), h0]
  · rw [hbyte _ (by omega), hbyte _ (by omega), ← hsum, List.drop_append_of_le_length (by omega),
      List.take_append_of_le_length (by rw [List.length_drop]; omega)]
  · rw [hbyte _ (by omega)]
    exact hcmd

/-- What has been read of a packet is as in the packet. -/
theorem Packet.buf_eq {buf : Buffer} {bs : List UInt8} (h : Holds buf bs)
    (cs : List UInt8) (hb : k.bytes = bs ++ cs) {i : Nat} (hi : i < bs.length) : buf i = k.buf i := by
  rw [h i hi, Packet.buf, hb, List.getD_append _ _ _ _ hi, List.getD_eq_getElem _ _ hi]

theorem Packet.bytes_eq (k : Packet) : k.bytes = k.sbn ++ (k.pdh ++ (k.psh ++ k.block)) := by
  simp only [Packet.bytes, List.append_assoc]

theorem Packet.Headed.length_bytes (hk : k.Headed) :
    k.bytes.length = 32 + k.psh.length + k.block.length := by
  rw [k.bytes_eq]
  simp only [List.length_append, hk.sbn_length, hk.pdh_length]
  omega

theorem Packet.WellFormed.length_bytes (hk : k.WellFormed) :
    k.bytes.length = 32 + k.psh.length + k.block.length := hk.headed.length_bytes

/-- The accepted header is the one in the buffer. -/
def Accepted (j : Input) : Prop := ∃ o, (readsbn j.buf o).1 = true ∧ j.sbn = (readsbn j.buf o).2

theorem syncLoop_accepted (fuel : Nat) (i : Input) :
    (syncLoop p fuel i).Ends Accepted (fun _ _ => True) := by
  induction fuel generalizing i with
  | zero => trivial
  | succ fuel ih =>
    rw [syncLoop]
    refine Flow.ends_ite (fun hr => ⟨i.sbn, hr, rfl⟩) fun _ => ?_
    refine Flow.ends_ite (fun _ => trivial) fun _ => ?_
    exact Flow.Ends.bind (P := fun _ => True) ((Input.read_ends ..).mono (fun _ _ => trivial)
      fun _ _ _ => trivial) fun j _ => ih j

theorem sync_accepted (i : Input) : (sync p i).Ends Accepted (fun _ _ => True) := by
  refine Flow.Ends.bind (P := fun _ => True)
    ((Input.read_ends ..).mono (fun _ _ => trivial) fun _ _ _ => trivial) fun j _ => ?_
  refine Flow.ends_ite (fun _ => trivial) fun _ => ?_
  exact Flow.Ends.bind (P := fun _ => True) ((Input.read_ends ..).mono (fun _ _ => trivial)
    fun _ _ _ => trivial) fun j _ => syncLoop_accepted _ j

/-- The SBN header has been read. -/
structure AtPdh (k : Packet) (tail : List UInt8) (j : Input) : Prop where
  sbn : j.sbn = k.sbnFields
  holds : Holds j.buf k.sbn
  rest : j.rest = k.pdh ++ k.psh ++ k.block ++ tail

theorem sync_packet (hp : p.ServesAll 10000) (hk : k.Headed) {i : Input}
    (hi : i.rest = k.bytes ++ tail) : (sync p i).Ends (AtPdh k tail) (fun _ _ => False) := by
  have hq : HeaderAt (k.bytes ++ tail) 0 := hk.sbn_valid.append tail
  have hends := sync_ends (hp.serves (by decide)) hq i (Nat.le_refl 0) (fun j _ hj => by omega)
    (by rw [List.drop_zero, hi])
  refine (hends.and (sync_accepted i)).mono ?_ ?_
  · rintro j ⟨hw, o, hok, hsbn⟩
    have hparts : k.bytes ++ tail = k.sbn ++ (k.pdh ++ k.psh ++ k.block ++ tail) := by
      simp only [k.bytes_eq, List.append_assoc]
    have htake : load j.buf 0 k.sbn.length = k.sbn := by
      rw [hk.sbn_length, hw.bytes, List.drop_zero, hparts, List.take_left' hk.sbn_length]
    have hholds := Holds.of_load htake
    refine ⟨?_, hholds, ?_⟩
    · rw [hsbn]
      exact readsbn_congr (fun n hn => k.buf_eq hholds _ k.bytes_eq (hk.sbn_length ▸ hn)) _ _ hok
    · rw [hw.rest, hparts, List.drop_left' hk.sbn_length]
  · rintro e j ⟨⟨-, n, h1, h2, -⟩, -⟩
    omega

/-- The PDH has been read. -/
structure AtPsh (k : Packet) (tail : List UInt8) (s u : State) : Prop where
  asm : u.asm = s.asm
  vars : u.v = { s.v with nwstg := true, goes := false, prodCompressed := u.v.prodCompressed }
  sbn : u.inp.sbn = k.sbnFields
  pdh : u.inp.pdh = k.pdhFields
  holds : Holds u.inp.buf (k.sbn ++ k.pdh)
  rest : u.inp.rest = k.psh ++ k.block ++ tail

theorem isNwstg_not_goes {d : Nat} (h : isNwstg d = true) : isGoes d = false ∧ d ≠ 4 := by
  simp only [isNwstg, decide_eq_true_eq] at h
  rcases h with rfl | rfl | rfl <;> decide

/-- Up to the PDH a packet of either kind of channel is read as it stands. -/
theorem definition_headed (hp : p.ServesAll 10000) (hk : k.Headed)
    (hchannel : isNwstg k.sbnFields.datastream = true ∨ isGoes k.sbnFields.datastream = true)
    (hkind : k.psh ≠ [] ∨ k.pdhFields.transtype ≠ 0) {s : State} (hs : AtPdh k tail s.inp) :
    (definition p s).Ends
      (fun u => Defined s u ∧ u.inp.sbn = k.sbnFields ∧ u.inp.pdh = k.pdhFields ∧
        Holds u.inp.buf (k.sbn ++ k.pdh) ∧ u.inp.rest = k.psh ++ k.block ++ tail)
      (fun _ _ => False) := by
  obtain ⟨hversion, hlen, hcmd⟩ := hk.sbn
  have htake : s.inp.rest.take 16 = k.pdh := by
    rw [hs.rest, List.append_assoc, List.append_assoc, List.take_left' hk.pdh_length]
  have hdrop : s.inp.rest.drop 16 = k.psh ++ k.block ++ tail := by
    rw [hs.rest, List.append_assoc, List.append_assoc, List.drop_left' hk.pdh_length,
      List.append_assoc]
  have h16 : 16 ≤ s.inp.rest.length := by
    rw [hs.rest]
    simp only [List.length_append, hk.pdh_length]
    omega
  have hholds : Holds (store s.inp.buf 16 (s.inp.rest.take 16)) (k.sbn ++ k.pdh) := by
    rw [htake]
    exact hs.holds.store hk.sbn_length.symm
  have hpdh : readpdh (store s.inp.buf 16 (s.inp.rest.take 16)) s.inp.sbn.len = k.pdhFields := by
    rw [hs.sbn, hlen]
    refine readpdh_congr fun i hi => k.buf_eq hholds (k.psh ++ k.block) ?_ ?_
    · simp only [k.bytes_eq, List.append_assoc]
    · rw [List.length_append, hk.sbn_length, hk.pdh_length]
      omega
  have hgo : (definition p s).Ends (fun _ => True) (fun _ _ => False) := by
    unfold definition
    rw [show (16 : Int) = (16 : Nat) from rfl, State.read_go hp (by decide) h16, Flow.bind_go]
    refine Flow.ends_ite (fun hbad => ?_) fun _ => ?_
    · change (s.inp.sbn.command ≠ 3 ∧ s.inp.sbn.command ≠ 5) ∨ s.inp.sbn.version ≠ 1 at hbad
      rw [hs.sbn, hversion, hcmd] at hbad
      omega
    refine Flow.ends_ite (fun hbad => ?_) fun _ => ?_
    · change ¬ isNwstg s.inp.sbn.datastream = true ∧ ¬ isGoes s.inp.sbn.datastream = true at hbad
      rw [hs.sbn] at hbad
      exact hchannel.elim hbad.1 hbad.2
    have hlong : ¬ (readpdh (store s.inp.buf 16 (s.inp.rest.take 16)) s.inp.sbn.len).len > 16 := by
      rw [hpdh, hk.pdh.2]
      omega
    refine Flow.Ends.bind (P := fun t => t.inp.pdh = k.pdhFields) ?_ fun t ht => ?_
    · refine Flow.ends_ite (fun h => absurd h hlong) fun _ => ?_
      exact hpdh
    refine Flow.ends_ite (fun hbad => ?_) fun _ => ?_
    · rw [ht] at hbad
      exact hbad hk.pdh.1
    refine Flow.ends_ite (fun hbad => ?_) fun _ => trivial
    have hbad' : t.inp.pdh.pshlen = 0 ∧ t.inp.pdh.transtype = 0 := hbad
    rw [ht, hk.pshlen] at hbad'
    rcases hkind with hpsh | htt
    · exact hpsh (List.eq_nil_of_length_eq_zero (by omega))
    · exact htt hbad'.2
  refine ((definition_ends p s).and hgo).mono ?_ fun _ _ h => h.2
  rintro u ⟨hd, -⟩
  have hu : u.inp.pdh = k.pdhFields := hd.pdh.trans hpdh
  have h0 : u.inp.pdh.len - 16 = 0 := by rw [hu, hk.pdh.2]
  refine ⟨hd, hd.sbn.trans hs.sbn, hu, ?_, ?_⟩
  · rw [hd.buf, h0, List.take_zero, store_nil]
    exact hholds
  · rw [hd.rest, h0, List.drop_zero, hdrop]

theorem definition_packet (hp : p.ServesAll 10000) (hk : k.WellFormed)
    (hkind : k.psh ≠ [] ∨ k.pdhFields.transtype ≠ 0) {s : State} (hs : AtPdh k tail s.inp) :
    (definition p s).Ends (AtPsh k tail s) (fun _ _ => False) := by
  refine (definition_headed hp hk.headed (.inl hk.channel) hkind hs).mono ?_ fun _ _ h => h
  rintro u ⟨hd, hsbn, hpdh, hholds, hrest⟩
  refine ⟨hd.asm, ?_, hsbn, hpdh, hholds, hrest⟩
  rw [hd.vars, hs.sbn, hk.channel, (isNwstg_not_goes hk.channel).1]

/-- The packet is in the buffer, and its product goes the NWSTG way. -/
structure AtData (k : Packet) (tail : List UInt8) (t : State) : Prop where
  rest : t.inp.rest = tail
  holds : Holds t.inp.buf k.bytes
  sbnLen : t.inp.sbn.len = 16
  pdh : t.inp.pdh = k.pdhFields
  goes : t.v.goes = false
  nwstg : t.v.nwstg = true

/-- A product has been begun from what `abandon` left. -/
structure Begun (k : Packet) (a : Asm) (t : State) : Prop where
  prod : t.asm.prod = { seqno := k.pdhFields.seqno, nfrag := k.pshFields.frags, frags := [] }
  allocated : t.asm.dataheap.allocated = true
  nextfrag : t.asm.dataheap.nextfrag = 0
  maxfrags : k.pshFields.frags < t.asm.dataheap.maxfrags
  ccb : t.asm.ccb.len = k.ccbBytes
  heapcount : t.v.heapcount = 11
  heapsize : t.v.heapsize = (if k.pshFields.frags = 0 then 1 else k.pshFields.frags) * 4015 + 32
  md5 : t.asm.out.md5 = []
  calls : t.asm.calls = a.calls
  pnginit : t.asm.pnginit = a.pnginit

theorem dsInit_spec (lib : Library) (d : Dataheap) (nfrags : Nat) :
    (dsInit lib d nfrags).allocated = true ∧ (dsInit lib d nfrags).nextfrag = 0 ∧
      nfrags < (dsInit lib d nfrags).maxfrags := by
  unfold dsInit
  simp only
  split_ifs with h
  · exact ⟨rfl, trivial, Nat.lt_succ_self nfrags⟩
  · exact ⟨rfl, trivial, not_le.1 h⟩

/-- The two bytes of the CCB length are in the block, or the CCB is empty. -/
theorem readccb_packet (lib : Library) {buf : Buffer} (hh : Holds buf k.bytes) (hk : k.WellFormed)
    (hccb : k.ccbBytes ≤ k.block.length) (ccb : Ccb) (psh : Psh) :
    (readccb lib buf (32 + k.psh.length) ccb psh k.block.length).2.1.len = k.ccbBytes := by
  rw [readccb_len]
  have hlen := hk.length_bytes
  have hbuf (i : Nat) (hi : i < k.block.length) :
      buf (32 + k.psh.length + i) = k.buf (32 + k.psh.length + i) :=
    k.buf_eq hh [] (List.append_nil _).symm (by omega)
  by_cases h2 : 2 ≤ k.block.length
  · have he : ccbLen buf (32 + k.psh.length) = k.ccbBytes := by
      have h0 : buf (32 + k.psh.length) = k.buf (32 + k.psh.length) := hbuf 0 (by omega)
      rw [Packet.ccbBytes, ccbLen, ccbLen, h0, hbuf 1 (by omega)]
    rw [he, if_neg (by omega)]
  · have heven : ∀ b, ∃ n, ccbLen b (32 + k.psh.length) = 2 * n := fun b => ⟨_, rfl⟩
    obtain ⟨n, hn⟩ := heven buf
    obtain ⟨m, hm⟩ := heven k.buf
    have hm' : k.ccbBytes = 2 * m := hm
    rw [hn]
    split_ifs <;> omega

/-- The block of a header record and what is opened for it. -/
theorem openBlock_packet (hp : p.ServesAll 10000) {n : Int} {m : Nat} (hk : k.First n m)
    {w : State} {v : LoopVars} (a : Asm) (psh : Psh) (hfr : a.prod.frags = [])
    (hasm : w.asm = Asm.start lib { a with psh } k.pdhFields.seqno)
    (hv : w.v = { v with nwstg := true, goes := false, prodCompressed := w.v.prodCompressed })
    (hfrags : psh.frags = k.pshFields.frags) (hsbn : w.inp.sbn = k.sbnFields)
    (hpdh : w.inp.pdh = k.pdhFields) (hoff : w.inp.dataOff = 32 + k.psh.length)
    (hh : Holds w.inp.buf (k.sbn ++ k.pdh ++ k.psh)) (hrest : w.inp.rest = k.block ++ tail) :
    ((w.readBlock p (.again .blockRead)).bind
      fun s => openProduct lib s.rerouteChannel4.resetHeap).Ends
        (fun t => AtData k tail t ∧ Begun k a t) (fun _ _ => False) := by
  have hwf := hk.toWellFormed
  have hlens := hwf.length_bytes
  have hsize := hwf.size
  have hdb : w.inp.pdh.dbsize = k.block.length := by rw [hpdh, hwf.dbsize]
  have hread : w.readBlock p (.again .blockRead) =
      .go (w.setInp (w.inp.take (32 + k.psh.length) k.block.length)) := by
    rw [State.readBlock, hoff, hdb]
    exact State.read_go hp (by omega) (by rw [hrest, List.length_append]; omega)
  have hreroute : (w.setInp (w.inp.take (32 + k.psh.length) k.block.length)).rerouteChannel4 =
      w.setInp (w.inp.take (32 + k.psh.length) k.block.length) := by
    refine if_neg fun h => ?_
    have h4 : w.inp.sbn.datastream = 4 := h.1
    rw [hsbn] at h4
    exact (isNwstg_not_goes hwf.channel).2 h4
  have hg : w.v.goes = false := by rw [hv]
  have hn : w.v.nwstg = true := by rw [hv]
  rw [hread, Flow.bind_go, hreroute]
  generalize hx : (w.setInp (w.inp.take (32 + k.psh.length) k.block.length)).resetHeap = x
  have hxg : x.v.goes = false := by rw [← hx]; exact hg
  have hxn : x.markImage.v.nwstg = true := by rw [← hx]; exact hn
  have hxa : x.asm = { w.asm with out := { w.asm.out with md5 := [] } } := by rw [← hx]; rfl
  have hxi : x.inp = w.inp.take (32 + k.psh.length) k.block.length := by rw [← hx]; rfl
  unfold openProduct
  simp only [hxg, hxn, Bool.false_eq_true, ↓reduceIte, Flow.bind_go, Flow.ends_go]
  have hbuf : Holds x.inp.buf k.bytes := by
    rw [hxi, Input.take_buf, hrest, List.take_left' rfl]
    refine hh.store ?_
    simp only [List.length_append, hwf.sbn_length, hwf.pdh_length]
  have hxoff : x.inp.dataOff = 32 + k.psh.length := by
    rw [hxi]
    exact hoff
  have hxdb : x.inp.pdh.dbsize = k.block.length := by
    rw [hxi]
    exact hdb
  have hxpsh : x.asm.psh = psh := by
    rw [hxa, hasm]
    rfl
  obtain ⟨hal, hnext, hmax⟩ := dsInit_spec lib a.dataheap psh.frags
  have hpool : (nwstgHeader lib x.markImage).asm.dataheap = dsInit lib a.dataheap psh.frags := by
    change x.asm.dataheap = _
    rw [hxa, hasm]
    rfl
  refine ⟨⟨?_, hbuf, ?_, ?_, hxg, hxn⟩, ⟨?_, ?_, ?_, ?_, ?_, ?_, ?_, ?_, ?_, ?_⟩⟩
  · change x.inp.rest = tail
    rw [hxi, Input.take_rest, hrest, List.drop_left' rfl]
  · change x.inp.sbn.len = 16
    rw [hxi]
    change w.inp.sbn.len = 16
    rw [hsbn, hwf.sbn.2.1]
  · change x.inp.pdh = _
    rw [hxi]
    exact hpdh
  · change x.asm.prod = _
    rw [hxa, hasm, ← hfrags, ← hfr]
    rfl
  · rw [hpool, hal]
  · rw [hpool, hnext]
  · rw [hpool, ← hfrags]
    exact hmax
  · have hccb := readccb_packet lib hbuf hwf hk.ccb x.asm.ccb { x.asm.psh with pname := [] }
    rw [← hxoff, ← hxdb] at hccb
    exact hccb
  · rw [← hx]
    rfl
  · change (prodalloc lib (readccb lib x.inp.buf x.inp.dataOff x.asm.ccb
      { x.asm.psh with pname := [] } x.inp.pdh.dbsize).2.2.frags 4015 _).1 = _
    rw [prodalloc_fst, readccb_frags, hxpsh, ← hfrags]
  · change x.asm.out.md5 = []
    rw [hxa]
  · change x.asm.calls = _
    rw [hxa, hasm]
    rfl
  · change x.asm.pnginit = _
    rw [hxa, hasm]
    rfl

theorem headerRecord_packet (hp : p.ServesAll 10000) {n : Int} {m : Nat} (hk : k.First n m)
    {s u : State} (hu : AtPsh k tail s u) {a : Asm} (ha : s.asm.abandon lib = some a) :
    (headerRecord p lib u).Ends (fun t => AtData k tail t ∧ Begun k a t) (fun _ _ => False) := by
  have hwf := hk.toWellFormed
  obtain ⟨hversion, hlen, hcmd⟩ := hwf.sbn
  have hlens := hwf.length_bytes
  have hsize := hwf.size
  have hoff : u.inp.pshOff = 32 := by rw [Input.pshOff, hu.sbn, hu.pdh, hlen, hwf.pdh.2]
  have hpshlen : u.inp.pdh.pshlen = (k.psh.length : Nat) := by rw [hu.pdh, hwf.pshlen]
  have hdata : u.inp.dataOff = 32 + k.psh.length := by
    rw [Input.dataOff, hoff, hpshlen, Int.toNat_natCast]
  have hdb : u.inp.pdh.dbsize = k.block.length := by rw [hu.pdh, hwf.dbsize]
  have htake : u.inp.rest.take k.psh.length = k.psh := by
    rw [hu.rest, List.append_assoc, List.take_left' rfl]
  have hdrop : u.inp.rest.drop k.psh.length = k.block ++ tail := by
    rw [hu.rest, List.append_assoc, List.drop_left' rfl]
  have hrestlen : u.inp.rest.length = k.psh.length + k.block.length + tail.length := by
    rw [hu.rest]
    simp only [List.length_append]
  have hh : Holds (store u.inp.buf 32 k.psh) (k.sbn ++ k.pdh ++ k.psh) := by
    refine hu.holds.store ?_
    rw [List.length_append, hwf.sbn_length, hwf.pdh_length]
  have hbuf (i : Nat) (hi : i < 32 + k.psh.length) : store u.inp.buf 32 k.psh i = k.buf i := by
    refine k.buf_eq hh k.block rfl ?_
    simp only [List.length_append, hwf.sbn_length, hwf.pdh_length]
    omega
  have h36 := hk.psh_length
  have holen : (readpsh (store u.inp.buf u.inp.pshOff (u.inp.rest.take k.psh.length)) u.inp.pshOff
      u.asm.psh).olen = k.psh.length := by
    rw [hoff, htake, ← hk.olen, Packet.pshFields, readpsh_olen, readpsh_olen]
    exact be16_congr fun i hi => hbuf (32 + 2 + i) (by omega)
  have hfrags : (readpsh (store u.inp.buf u.inp.pshOff (u.inp.rest.take k.psh.length)) u.inp.pshOff
      u.asm.psh).frags = k.pshFields.frags := by
    rw [hoff, htake, Packet.pshFields, readpsh_frags, readpsh_frags]
    exact be16_congr fun i hi => hbuf (32 + 14 + i) (by omega)
  unfold headerRecord
  rw [hpshlen, State.read_go hp (by omega) (by omega), Flow.bind_go]
  refine Flow.ends_ite (fun hbad => ?_) fun _ => ?_
  · have hbad' : u.inp.sbn.command = 5 := hbad
    rw [hu.sbn, hcmd] at hbad'
    omega
  refine Flow.ends_ite (fun hbad => ?_) fun _ => ?_
  · refine absurd ?_ hbad
    have : u.inp.pdh.pshlen = ((readpsh (store u.inp.buf u.inp.pshOff
        (u.inp.rest.take k.psh.length)) u.inp.pshOff u.asm.psh).olen : Nat) := by rw [holen, hpshlen]
    exact this.symm
  set psh := readpsh (store u.inp.buf u.inp.pshOff (u.inp.rest.take k.psh.length)) u.inp.pshOff
    u.asm.psh with hpsh
  have hab : ((u.setInp (u.inp.take u.inp.pshOff k.psh.length)).decodePsh).asm.abandon lib =
      some { a with psh } := by
    have h : Asm.abandon lib { u.asm with psh } = _ := Asm.abandon_withPsh u.asm psh
    rw [hu.asm, ha] at h
    rw [← hu.asm] at h
    exact h
  rw [hab]
  refine openBlock_packet hp hk a psh (Asm.abandon_frags ha) ?_ hu.vars hfrags ?_ ?_ ?_ ?_ ?_
  · change Asm.start lib _ u.inp.pdh.seqno = _
    rw [hu.pdh]
  · exact hu.sbn
  · exact hu.pdh
  · exact hdata
  · change Holds (store u.inp.buf u.inp.pshOff (u.inp.rest.take k.psh.length)) _
    rwa [hoff, htake]
  · exact hdrop

/-- What a continuation record leaves of the product in progress: everything. -/
structure Resumed (s t : State) : Prop where
  prod : t.asm.prod = s.asm.prod
  dataheap : t.asm.dataheap = s.asm.dataheap
  out : t.asm.out = s.asm.out
  calls : t.asm.calls = s.asm.calls
  pnginit : t.asm.pnginit = s.asm.pnginit
  ccb : t.asm.ccb.len = 0
  heapcount : t.v.heapcount = s.v.heapcount
  heapsize : t.v.heapsize = s.v.heapsize

/-- A block without a product. -/
structure Orphaned (s : State) (tail : List UInt8) (e : Exit) (t : State) : Prop where
  exit : e = .again .noHeader
  idle : s.asm.prod.frags = []
  rest : t.inp.rest = tail
  resumed : Resumed s t

theorem continuationRecord_packet (hp : p.ServesAll 10000) {n : Int} {j : Nat}
    (hk : k.Continues n j) {s u : State} (hu : AtPsh k tail s u) :
    (continuationRecord p u).Ends
      (fun t => s.asm.prod.frags ≠ [] ∧ AtData k tail t ∧ Resumed s t) (Orphaned s tail) := by
  have hwf := hk.toWellFormed
  obtain ⟨hversion, hlen, hcmd⟩ := hwf.sbn
  have hlens := hwf.length_bytes
  have hsize := hwf.size
  rw [hk.psh_length, List.length_nil] at hlens
  have hrest : u.inp.rest = k.block ++ tail := by
    rw [hu.rest, hk.psh_length, List.nil_append]
  have hreroute : u.rerouteChannel4 = u := by
    refine if_neg fun h => ?_
    have h4 := h.1
    rw [hu.sbn] at h4
    exact (isNwstg_not_goes hwf.channel).2 h4
  have hoff : u.continued.inp.dataOff = 32 := by
    change u.inp.dataOff = 32
    rw [Input.dataOff, Input.pshOff, hu.sbn, hu.pdh, hlen, hwf.pdh.2, hwf.pshlen, hk.psh_length]
    rfl
  have hdb : u.continued.inp.pdh.dbsize = k.block.length := by
    change u.inp.pdh.dbsize = _
    rw [hu.pdh, hwf.dbsize]
  have hread : u.continued.readBlock p (.again .contRead) =
      .go (u.continued.setInp (u.inp.take 32 k.block.length)) := by
    rw [State.readBlock, hoff, hdb]
    refine State.read_go hp (by omega) ?_
    change k.block.length ≤ u.inp.rest.length
    rw [hrest, List.length_append]
    omega
  have hresumed : Resumed s (u.continued.setInp (u.inp.take 32 k.block.length)) := by
    have ha : u.continued.asm.prod = s.asm.prod := by rw [← hu.asm]; rfl
    refine ⟨ha, ?_, ?_, ?_, ?_, rfl, ?_, ?_⟩
    · rw [← hu.asm]
      rfl
    · rw [← hu.asm]
      rfl
    · rw [← hu.asm]
      rfl
    · rw [← hu.asm]
      rfl
    · change u.v.heapcount = _
      rw [hu.vars]
    · change u.v.heapsize = _
      rw [hu.vars]
  have htail : (u.continued.setInp (u.inp.take 32 k.block.length)).inp.rest = tail := by
    change u.inp.rest.drop k.block.length = tail
    rw [hrest, List.drop_left' rfl]
  unfold continuationRecord
  rw [hreroute, hread, Flow.bind_go]
  refine Flow.ends_ite (fun hnil => ?_) fun hne => ?_
  · exact ⟨rfl, hresumed.prod ▸ hnil, htail, hresumed⟩
  · refine ⟨hresumed.prod ▸ hne, ⟨htail, ?_, ?_, hu.pdh, ?_, ?_⟩, hresumed⟩
    · change Holds (store u.inp.buf 32 (u.inp.rest.take k.block.length)) k.bytes
      rw [hrest, List.take_left' rfl]
      have hb : k.bytes = k.sbn ++ k.pdh ++ k.block := by
        rw [Packet.bytes, hk.psh_length, List.append_nil]
      rw [hb]
      refine hu.holds.store ?_
      rw [List.length_append, hwf.sbn_length, hwf.pdh_length]
    · change u.inp.sbn.len = 16
      rw [hu.sbn, hlen]
    · change u.v.goes = false
      rw [hu.vars]
    · change u.v.nwstg = true
      rw [hu.vars]

/-- Up to the PDH both kinds of packets go the same way. -/
theorem front_described (hp : p.ServesAll 10000) (hk : k.WellFormed)
    (hkind : k.psh ≠ [] ∨ k.pdhFields.transtype ≠ 0) {s : State}
    (hs : s.inp.rest = k.bytes ++ tail) :
    (((sync p s.inp).within s.setInp).bind (definition p)).Ends (AtPsh k tail s)
      (fun _ _ => False) := by
  have hsync : ((sync p s.inp).within s.setInp).Ends
      (fun t => t.asm = s.asm ∧ t.v = s.v ∧ AtPdh k tail t.inp) (fun _ _ => False) :=
    Flow.Ends.within ((sync_packet hp hk.headed hs).mono (fun _ h => ⟨rfl, rfl, h⟩) fun _ _ h => h)
  refine hsync.bind fun t ht => ?_
  obtain ⟨ha, hv, hpdh⟩ := ht
  refine (definition_packet hp hk hkind hpdh).mono (fun u hu => ?_) fun _ _ h => h
  exact ⟨hu.asm.trans ha, hv ▸ hu.vars, hu.sbn, hu.pdh, hu.holds, hu.rest⟩

/-- A first packet begins its product, whatever there was before. -/
theorem front_first (hp : p.ServesAll 10000) {n : Int} {m : Nat} (hk : k.First n m) {s : State}
    (hs : s.inp.rest = k.bytes ++ tail) {a : Asm} (ha : s.asm.abandon lib = some a) :
    (front p lib s).Ends (fun t => AtData k tail t ∧ Begun k a t) (fun _ _ => False) := by
  have hwf := hk.toWellFormed
  have h36 := hk.psh_length
  have hne : k.psh ≠ [] := List.ne_nil_of_length_pos (by omega)
  refine (front_described hp hwf (.inl hne) hs).bind fun u hu => ?_
  have hpsh : u.inp.pdh.pshlen ≠ 0 := by
    rw [hu.pdh, hwf.pshlen]
    omega
  rw [if_pos hpsh]
  exact headerRecord_packet hp hk hu ha

/-- A later packet takes up the product in progress, if there is one. -/
theorem front_continues (hp : p.ServesAll 10000) {n : Int} {j : Nat} (hk : k.Continues n j)
    {s : State} (hs : s.inp.rest = k.bytes ++ tail) :
    (front p lib s).Ends (fun t => s.asm.prod.frags ≠ [] ∧ AtData k tail t ∧ Resumed s t)
      (Orphaned s tail) := by
  have hwf := hk.toWellFormed
  refine Flow.Ends.bind (E := Orphaned s tail)
    ((front_described hp hwf (.inr hk.transtype) hs).mono (fun _ h => h) fun _ _ h => h.elim)
    fun u hu => ?_
  have hpsh : ¬ u.inp.pdh.pshlen ≠ 0 := by
    rw [hu.pdh, hwf.pshlen, hk.psh_length]
    simp
  rw [if_neg hpsh]
  exact continuationRecord_packet hp hk hu

end Arrive
end Noaaport
