import Noaaport.Arrival
import Noaaport.DataPhase
import Noaaport.FosText
import Noaaport.Fragments
import Noaaport.PacketBuffer

/-! What the MD5 context has absorbed of a text product: the heap behind the first
eleven bytes of the FOS header. -/
namespace Noaaport
open Lib

/-- The first `n` bytes of the heap are the header and what has been absorbed; the
sequence number in the header is one of `N`. -/
def Covered (N : Int → Prop) (n : Nat) (s : State) : Prop :=
  load s.asm.out.memheap.mem 0 n = (fosHeader s.asm.prod.seqno).take 11 ++ s.asm.out.md5 ∧
    N s.asm.prod.seqno

/-- Nothing has been handed over. -/
structure Silent (s t : State) : Prop where
  calls : t.asm.calls = s.asm.calls
  inserts : t.asm.inserts = s.asm.inserts

/-- The product in progress is as it was. -/
structure Untold (s t : State) : Prop where
  prod : t.asm.prod = s.asm.prod
  out : t.asm.out = s.asm.out
  heapcount : t.v.heapcount = s.v.heapcount

/-- A product handed over, or inserted. -/
structure Call.Signed (N : Int → Prop) (c : Call) : Prop where
  heap : c.heap = (fosHeader c.prod.seqno).take 11 ++ c.md5
  seqno : N c.prod.seqno

def Product.Signed (q : Product) : Prop := q.data = (fosHeader q.seqno).take 11 ++ q.md5

/-- What has gone to `process_prod` and to the product-queue since `a`. -/
structure Signed (N : Int → Prop) (a : Asm) (calls : List Call) (inserts : List Product) :
    Prop where
  calls : ∃ cs, calls = a.calls ++ cs ∧ ∀ c ∈ cs, c.Signed N
  inserts : ∃ qs, inserts = a.inserts ++ qs ∧ ∀ q ∈ qs, q.Signed

/-- What holds at the top of the loop. -/
structure CoverInv (N : Int → Prop) (a : Asm) (s : State) : Prop where
  progress : s.asm.prod.frags ≠ [] → Covered N s.v.heapcount s
  signed : Signed N a s.asm.calls s.asm.inserts

section Rules
variable {N : Int → Prop} {a : Asm} {n : Nat} {s t u : State}

theorem Quiet.silent (h : Quiet s t) : Silent s t := ⟨h.calls, h.inserts⟩

theorem Silent.signed (h : Silent s t) (hs : Signed N a s.asm.calls s.asm.inserts) :
    Signed N a t.asm.calls t.asm.inserts :=
  ⟨by rw [h.calls]; exact hs.calls, by rw [h.inserts]; exact hs.inserts⟩

theorem Covered.untold (h : Covered N n s) (hu : Untold s t) : Covered N n t := by
  refine ⟨?_, by rw [hu.prod]; exact h.2⟩
  rw [hu.out, hu.prod]
  exact h.1

theorem Covered.length (h : Covered N n s) : n = 11 + s.asm.out.md5.length := by
  have hlen := congrArg List.length h.1
  have h11 := length_fosHeader s.asm.prod.seqno
  rw [length_load, List.length_append, List.length_take, Nat.min_eq_left h11] at hlen
  exact hlen

theorem Covered.md5 (h : Covered N n s) :
    11 ≤ n ∧ s.asm.out.md5 = load s.asm.out.memheap.mem 11 (n - 11) := by
  have hlen := h.length
  have h11 := length_fosHeader s.asm.prod.seqno
  have hdrop := congrArg (List.drop 11) h.1
  rw [hlen, Nat.add_comm, Nat.add_comm _ 11, load_drop, List.drop_left' (by simp [h11])] at hdrop
  refine ⟨by omega, ?_⟩
  rw [hlen, Nat.add_sub_cancel_left]
  simpa using hdrop.symm

/-- Bytes copied behind the heap's end and absorbed. -/
theorem Covered.append (h : Covered N n s) (bs : List UInt8) :
    Covered N (n + bs.length) (s.setOut (s.asm.out.append n bs)) := by
  refine ⟨?_, h.2⟩
  change load (store s.asm.out.memheap.mem n bs) 0 (n + bs.length) =
    _ ++ (s.asm.out.md5 ++ bs)
  rw [load_extend, h.1, List.append_assoc]
  rfl

end Rules

section Front
variable {p : Program} {lib : Library} {N : Int → Prop} {a : Asm} {s t : State}

theorem reroute_goes (h : s.v.goes = false) : s.rerouteChannel4.v.goes = false := by
  unfold State.rerouteChannel4
  split_ifs
  · rfl
  · exact h

/-- Behind `MD5Init` the NWSTG half writes the header. -/
theorem openProduct_covered (hk : s.OneKind) (h0 : s.v.heapcount = 0) (hm : s.asm.out.md5 = [])
    (hq : s.asm.prod.seqno = s.inp.pdh.seqno) :
    (openProduct lib s).Ends
      (fun t => s.v.goes = false → N s.inp.pdh.seqno →
        t.v.goes = false ∧ Covered N t.v.heapcount t)
      (fun _ t => t.asm.prod = s.asm.prod) := by
  cases hg : s.v.goes with
  | true =>
    have hn : s.v.nwstg = false := by rwa [State.OneKind, hg] at hk
    unfold openProduct
    rw [if_pos hg]
    refine Flow.Ends.bind (P := fun t => t.v.nwstg = false) ?_ fun t ht => ?_
    · exact Flow.ends_ite (fun _ => rfl) fun _ => hn
    · rw [ht]
      intro hf
      cases hf
  | false =>
    have hn : s.markImage.v.nwstg = true := by rwa [State.OneKind, hg] at hk
    unfold openProduct
    simp only [hg, hn, Bool.false_eq_true, ↓reduceIte, Flow.bind_go, Flow.ends_go]
    refine fun _ hn => ⟨hg, ?_, hq ▸ hn⟩
    change load (store (prodalloc lib _ 4015 s.asm.out.memheap).2.mem 0
      (fosHeader s.inp.pdh.seqno ++ [0])) 0 (s.v.heapcount + 11) =
        (fosHeader s.asm.prod.seqno).take 11 ++ s.asm.out.md5
    have h11 := length_fosHeader s.inp.pdh.seqno
    rw [h0, hm, hq, List.append_nil, Nat.zero_add,
      ← load_take _ _ (fosHeader s.inp.pdh.seqno ++ [0]).length _ (by simp; omega), load_store,
      List.take_append_of_le_length h11]

/-- A header record: the product in progress is left, and a new one begins. -/
theorem headerRecord_covered (hk : s.OneKind) :
    (headerRecord p lib s).Ends
      (fun t => s.v.goes = false → N s.inp.pdh.seqno →
        t.v.goes = false ∧ Covered N t.v.heapcount t)
      (fun _ t => t.asm.prod.frags = [] ∨ Untold s t) := by
  refine Flow.Ends.bind ((State.read_ends ..).mono (fun _ h => h) ?_) ?_
  · rintro e t ⟨rfl, -⟩
    exact .inr ⟨rfl, rfl, rfl⟩
  rintro u ⟨rfl, -⟩
  refine Flow.ends_ite (fun _ => .inr ⟨rfl, rfl, rfl⟩) fun _ => ?_
  refine Flow.ends_ite (fun _ => .inr ⟨rfl, rfl, rfl⟩) fun _ => ?_
  split
  · exact .inr ⟨rfl, rfl, rfl⟩
  next a ha =>
  have hnil := Asm.abandon_frags ha
  refine Flow.Ends.bind ((State.read_ends ..).mono (fun _ h => h) ?_) ?_
  · rintro e t ⟨rfl, -⟩
    exact .inl hnil
  rintro u ⟨rfl, -⟩
  generalize hw : State.setInp _ _ = w
  have hwnil : w.asm.prod.frags = [] := by rw [← hw]; exact hnil
  have hwseqno : w.asm.prod.seqno = w.inp.pdh.seqno := by rw [← hw]; rfl
  have hwkind : w.OneKind := by rw [← hw]; exact hk
  have hwpdh : w.inp.pdh = s.inp.pdh := by rw [← hw]; rfl
  have hwgoes : w.v.goes = s.v.goes := by rw [← hw]; rfl
  have hasm := rerouteChannel4_asm w
  refine (openProduct_covered (s := w.rerouteChannel4.resetHeap) (N := N)
    (State.OneKind.reroute hwkind) rfl rfl ?_).mono ?_ ?_
  · simp only [State.resetHeap, hasm, rerouteChannel4_inp, hwseqno]
  · intro t ht
    refine fun hg hn => ht (reroute_goes (hwgoes.trans hg)) ?_
    rwa [resetHeap_inp, hwpdh]
  · intro e t ht
    left
    rw [ht]
    simp only [State.resetHeap, hasm, hwnil]

theorem continuationRecord_covered :
    (continuationRecord p s).Ends (Untold s) (fun _ => Untold s) := by
  have hcount : s.rerouteChannel4.v.heapcount = s.v.heapcount := by
    unfold State.rerouteChannel4
    split_ifs <;> rfl
  have hasm : s.rerouteChannel4.continued.asm = s.continued.asm := continued_asm s
  have hkept : Untold s s.rerouteChannel4.continued :=
    ⟨by rw [hasm]; rfl, by rw [hasm]; rfl, hcount⟩
  refine Flow.Ends.bind ((State.read_ends ..).mono (fun _ h => h) ?_) ?_
  · rintro e t ⟨rfl, -⟩
    exact hkept
  · rintro t ⟨rfl, -⟩
    exact Flow.ends_ite (fun _ => ⟨hkept.prod, hkept.out, hkept.heapcount⟩)
      fun _ => ⟨hkept.prod, hkept.out, hkept.heapcount⟩

theorem CoverInv.untold (h : CoverInv N a s) (hs : Silent s t) (hu : Untold s t) :
    CoverInv N a t := by
  refine ⟨fun hne => ?_, hs.signed h.signed⟩
  rw [hu.prod] at hne
  rw [hu.heapcount]
  exact (h.progress hne).untold hu

/-- A block of a text product is due. -/
structure TextAhead (N : Int → Prop) (t : State) : Prop where
  goes : t.v.goes = false
  nwstg : t.v.nwstg = true
  covered : Covered N t.v.heapcount t

/-- Up to "Get the data". -/
theorem front_covered (hi : CoverInv N a s) :
    (front p lib s).Ends
      (fun t => Signed N a t.asm.calls t.asm.inserts ∧ (isNwstg t.inp.sbn.datastream = true →
        N t.inp.pdh.seqno → TextAhead N t))
      (fun _ t => CoverInv N a t) := by
  have hdef : (((sync p s.inp).within s.setInp).bind (definition p)).Ends
      (fun u => CoverInv N a u ∧ u.OneKind ∧ u.v.goes = isGoes u.inp.sbn.datastream)
      (fun _ t => CoverInv N a t) := by
    refine Flow.Ends.bind (P := fun u => ∃ i, u = s.setInp i) ?_ ?_
    · cases sync p s.inp with
      | go i => exact ⟨i, rfl⟩
      | exit e i => exact hi.untold ⟨rfl, rfl⟩ ⟨rfl, rfl, rfl⟩
    · rintro w ⟨i, rfl⟩
      refine (definition_ends p (s.setInp i)).mono (fun u hu => ⟨?_, hu.oneKind, ?_⟩) fun e t ht => ?_
      · have hv := hu.untouched.heapcount
        exact hi.untold ⟨by rw [hu.asm]; rfl, by rw [hu.asm]; rfl⟩
          ⟨by rw [hu.asm]; rfl, by rw [hu.asm]; rfl, hv⟩
      · rw [hu.vars, hu.sbn]
      · exact hi.untold ⟨by rw [ht.asm]; rfl, by rw [ht.asm]; rfl⟩
          ⟨by rw [ht.asm]; rfl, by rw [ht.asm]; rfl, ht.heapcount⟩
  refine Flow.Ends.bind hdef fun u hu => ?_
  obtain ⟨hu, hk, hg⟩ := hu
  refine Flow.ends_ite (fun _ => ?_) fun hp => ?_
  · refine ((headerRecord_ends hk).and (headerRecord_quiet.and (headerRecord_covered (N := N) hk))).mono ?_ ?_
    · intro t ht
      obtain ⟨hgo, hquiet, hcov⟩ := ht
      refine ⟨hquiet.silent.signed hu.signed, fun hn hseq => ?_⟩
      rw [hgo.block.sbn] at hn
      rw [hgo.block.pdh] at hseq
      obtain ⟨hgoes, hcov⟩ := hcov (hg.trans (isNwstg_not_goes hn).1) hseq
      have hkind := hgo.oneKind
      rw [State.OneKind, hgoes] at hkind
      exact ⟨hgoes, hkind, hcov⟩
    · intro e t ht
      obtain ⟨-, hquiet, hnil | huntold⟩ := ht
      · exact ⟨fun hne => absurd hnil hne, hquiet.silent.signed hu.signed⟩
      · exact hu.untold hquiet.silent huntold
  · have hlinked := continuationRecord_ends (p := p) (s := u) (not_not.1 hp)
    refine (hlinked.and (continuationRecord_quiet.and continuationRecord_covered)).mono ?_ ?_
    · intro t ht
      obtain ⟨hgo, hquiet, huntold⟩ := ht
      have ht := hu.untold hquiet.silent huntold
      refine ⟨ht.signed, fun hn _ => ?_⟩
      rw [hgo.block.sbn] at hn
      have hgoes : t.v.goes = false := by
        rw [hgo.vars]
        exact reroute_goes (hg.trans (isNwstg_not_goes hn).1)
      have hkind : t.OneKind := by
        have hr := hk.reroute
        rwa [State.OneKind, ← hgo.vars] at hr
      rw [State.OneKind, hgoes] at hkind
      refine ⟨hgoes, hkind, ht.progress ?_⟩
      rw [huntold.prod]
      exact hgo.linked
    · intro e t ht
      exact hu.untold ht.2.1.silent ht.2.2

end Front

section Data
variable {lib : Library} {N : Int → Prop} {a : Asm} {pfrag : Datastore} {s : State}

/-- The block has been copied and absorbed, and is to be counted. -/
structure Absorbed (N : Int → Prop) (a : Asm) (t : State) : Prop where
  goes : t.v.goes = false
  nwstg : t.v.nwstg = true
  covered : Covered N (t.v.heapcount + t.v.deflen) t
  signed : Signed N a t.asm.calls t.asm.inserts

theorem nwstgCopy_covered (h : TextAhead N s) (hs : Signed N a s.asm.calls s.asm.inserts) :
    (nwstgCopy pfrag s).Ends (Absorbed N a) (fun _ t => CoverInv N a t) := by
  refine Flow.ends_ite (fun _ => ⟨fun _ => h.covered, hs⟩) fun _ => ?_
  have hblock := h.covered.append (s.setDatalen (s.strippedLen pfrag)).block
  rw [State.block, length_load] at hblock
  exact ⟨h.goes, h.nwstg, hblock, hs⟩

theorem nwstgData_covered (h : TextAhead N s) (hs : Signed N a s.asm.calls s.asm.inserts) :
    (nwstgData pfrag s).Ends (Absorbed N a) (fun e t => ∀ r, e = .again r → CoverInv N a t) := by
  have hcopy : (nwstgCopy pfrag s).Ends (Absorbed N a) (fun e t => ∀ r, e = .again r → CoverInv N a t) :=
    (nwstgCopy_covered h hs).mono (fun _ h => h) fun _ _ h _ _ => h
  unfold nwstgData
  split
  · exact hcopy
  refine Flow.ends_ite (fun _ => hcopy) fun _ => ?_
  refine Flow.ends_ite (fun _ => nofun) fun _ => ?_
  exact Flow.ends_ite (fun _ _ _ => ⟨fun hne => absurd rfl hne, hs⟩) fun _ => hcopy

theorem link_covered (h : Absorbed N a s) :
    (link pfrag s).Ends (fun t => TextAhead N t ∧ Signed N a t.asm.calls t.asm.inserts)
      (fun e t => ∀ r, e = .again r → CoverInv N a t) := by
  unfold link
  split
  · exact ⟨⟨h.goes, h.nwstg, h.covered⟩, h.signed⟩
  · exact Flow.ends_ite (fun _ => ⟨⟨h.goes, h.nwstg, h.covered⟩, h.signed⟩) fun _ => nofun

theorem nwstgEnd_covered (h : Covered N s.v.heapcount s) :
    Covered N (nwstgEnd s).v.heapcount (nwstgEnd s) := by
  have hlen := h.length
  unfold nwstgEnd
  rw [if_pos (by omega)]
  exact h.append fosTrailer

theorem Signed.append {cs : List Call} {qs : List Product} (h : Signed N a cs qs) {c : Call}
    (hc : c.Signed N) {q : Option Product} (hq : ∀ x ∈ q, x.Signed) :
    Signed N a (cs ++ [c]) (qs ++ q.toList) := by
  obtain ⟨new, hnew, hcs⟩ := h.calls
  obtain ⟨newer, hnewer, hqs⟩ := h.inserts
  refine ⟨⟨new ++ [c], by rw [hnew, List.append_assoc], ?_⟩,
    ⟨newer ++ q.toList, by rw [hnewer, List.append_assoc], ?_⟩⟩
  · intro d hd
    obtain hd | hd := List.mem_append.1 hd
    · exact hcs d hd
    · rw [List.mem_singleton.1 hd]
      exact hc
  · intro d hd
    obtain hd | hd := List.mem_append.1 hd
    · exact hqs d hd
    · exact hq d (Option.mem_toList.1 hd)

/-- `process_prod` gets and inserts the bytes that the signature covers. -/
theorem process_covered (h : Covered N s.v.heapcount s)
    (hs : Signed N a s.asm.calls s.asm.inserts) : CoverInv N a (s.process lib) := by
  refine ⟨fun hne => absurd rfl hne, hs.append ⟨h.1, h.2⟩ fun q hq => ?_⟩
  have hlen := h.length
  have hpos : s.v.heapcount ≠ 0 := by omega
  simp only [processProd, if_neg hpos, Option.mem_some_iff] at hq
  rw [← hq]
  exact h.1

theorem data_covered (h : TextAhead N s) (hs : Signed N a s.asm.calls s.asm.inserts) :
    (data lib s).Ends (CoverInv N a) (fun e t => ∀ r, e = .again r → CoverInv N a t) := by
  have hg : (s.getData lib).v.goes = false := h.goes
  unfold data
  simp only [hg, Bool.false_eq_true, ↓reduceIte]
  have hahead : TextAhead N (s.getData lib) := ⟨h.goes, h.nwstg, h.covered⟩
  refine Flow.Ends.bind (nwstgData_covered hahead hs) fun m hm => ?_
  refine Flow.Ends.bind (link_covered hm) fun l hl => ?_
  obtain ⟨hl, hls⟩ := hl
  refine Flow.ends_ite (fun _ => ?_) fun _ => ⟨fun _ => hl.covered, hls⟩
  simp only [hl.goes, hl.nwstg, Bool.false_eq_true, ↓reduceIte, Flow.bind_go, Flow.ends_go]
  refine process_covered (nwstgEnd_covered hl.covered) ?_
  unfold nwstgEnd
  split_ifs <;> exact hls

end Data

section Run
variable {p : Program} {lib : Library} {N : Int → Prop} {a : Asm} {s t : State}
  {es : List Event}

/-- A packet that is accepted is on an NWSTG channel, with a number of `N`. -/
def Carries (p : Program) (lib : Library) (N : Int → Prop) (s : State) : Prop :=
  (front p lib s).Ends (fun t => isNwstg t.inp.sbn.datastream = true ∧ N t.inp.pdh.seqno)
    (fun _ _ => True)

def NwstgOnly (p : Program) (lib : Library) (s : State) : Prop :=
  (front p lib s).Ends (fun t => isNwstg t.inp.sbn.datastream = true) (fun _ _ => True)

/-- A well-formed packet at the head of the stream. -/
theorem carries_packet (hp : p.ServesAll 10000) {k : Packet} (hk : k.WellFormed)
    (hkind : k.psh ≠ [] ∨ k.pdhFields.transtype ≠ 0) {tail : List UInt8}
    (hs : s.inp.rest = k.bytes ++ tail) (hn : N k.pdhFields.seqno) : Carries p lib N s := by
  refine Flow.Ends.bind ((front_described hp hk hkind hs).mono (fun _ h => h)
    fun _ _ h => h.elim) fun u hu => ?_
  have hone : u.OneKind := by rw [State.OneKind, hu.vars]; rfl
  refine Flow.ends_ite (fun _ => ?_) fun hpsh => ?_
  · refine (headerRecord_ends hone).mono (fun t ht => ⟨?_, ?_⟩) fun _ _ _ => trivial
    · rw [ht.block.sbn, hu.sbn]
      exact hk.channel
    · rw [ht.block.pdh, hu.pdh]
      exact hn
  · refine (continuationRecord_ends (not_not.1 hpsh)).mono (fun t ht => ⟨?_, ?_⟩)
      fun _ _ _ => trivial
    · rw [ht.block.sbn, hu.sbn]
      exact hk.channel
    · rw [ht.block.pdh, hu.pdh]
      exact hn

/-- One iteration, to the end of the body. -/
theorem CoverInv.iteration {e : Event} (hi : CoverInv N a s) (hc : Carries p lib N s)
    (h : iteration p lib s = .go t ∧ e = .taken ∨
      ∃ r, iteration p lib s = .exit (.again r) t ∧ e = .skipped r) : CoverInv N a t := by
  have hit : (Noaaport.iteration p lib s).Ends (CoverInv N a)
      (fun e t => ∀ r, e = .again r → CoverInv N a t) := by
    refine Flow.Ends.bind ((front_covered hi).and hc |>.mono (fun _ h => h) ?_) fun u hu => ?_
    · exact fun e t h r _ => h.1
    · exact data_covered (hu.1.2 hu.2.1 hu.2.2) hu.1.1
  obtain ⟨hgo, -⟩ | ⟨r, hexit, -⟩ := h
  · exact hit.go hgo
  · exact hit.exit hexit r rfl

theorem CoverInv.step (hk : p.keepsVars = true) {e : Event} (hi : CoverInv N a s)
    (hc : Carries p lib N s) (h : Step p lib s e t) : CoverInv N a t := by
  obtain ⟨s', hor, ht, hv⟩ := h
  rw [ht, hv hk]
  exact hi.iteration hc hor

/-- From a state without a product on. -/
theorem coverInv_run (hk : p.keepsVars = true) (hidle : s.asm.prod.frags = [])
    (h : Trace (Guarded (Carries p lib N) (Step p lib)) s es t) : CoverInv N s.asm t := by
  refine h.invariant (P := CoverInv N s.asm) (fun s e t hi hs => hi.step hk hs.1 hs.2) ?_
  exact ⟨fun hne => absurd hidle hne,
    ⟨[], (List.append_nil _).symm, nofun⟩, ⟨[], (List.append_nil _).symm, nofun⟩⟩

/-- Bytes that have been read to behind the packet buffer. -/
inductive Overruns (p : Program) (lib : Library) (s : State) : Prop where
  | psh (t u : State) (onFail : Exit) (h : packet p s = .go t) (hpsh : t.inp.pdh.pshlen ≠ 0)
      (hread : t.read p t.inp.pshOff t.inp.pdh.pshlen onFail = .go u)
      (hend : bufSize < t.inp.pshOff + t.inp.pdh.pshlen)
  | block (t u : State) (onFail : Exit) (h : BlockAt p lib s t)
      (hread : t.readBlock p onFail = .go u) (hend : bufSize < t.inp.dataOff + t.inp.pdh.dbsize)

/-- Both programs allocate the MD5 context right behind the packet buffer: what runs past the
buffer leaves anything in it. -/
inductive MemStep (p : Program) (lib : Library) (s : State) (e : Event) : State → Prop where
  | inside (t : State) (h : Step p lib s e t) : MemStep p lib s e t
  | past (t : State) (md5 : List UInt8) (h : Step p lib s e t) (hover : Overruns p lib s) :
      MemStep p lib s e (t.setOut { t.asm.out with md5 })

theorem PacketFits.not_overruns (h : PacketFits p lib s) : ¬ Overruns p lib s := by
  intro hover
  cases hover with
  | psh t u onFail ht hpsh hread hend =>
    have hle := (h.psh t ht hpsh).2
    simp only [Input.pshOff] at hend
    omega
  | block t u onFail ht hread hend =>
    have hle := h.block t ht
    simp only [Input.dataOff, Input.pshOff] at hend
    omega

theorem MemStep.step {e : Event} (hf : PacketFits p lib s) (h : MemStep p lib s e t) :
    Step p lib s e t := by
  cases h with
  | inside _ h => exact h
  | past _ _ _ hover => exact absurd hover hf.not_overruns

/-- All packets that are accepted are on NWSTG channels and fit the buffer. -/
def FittingNwstg (p : Program) (lib : Library) (s : State) : Prop :=
  NwstgOnly p lib s ∧ PacketFits p lib s

/-- The signature covers the heap behind the first eleven bytes, while a product is in progress
and of what has been handed over. -/
structure Md5Covers (t : State) : Prop where
  progress : t.asm.prod.frags ≠ [] → 11 ≤ t.v.heapcount ∧
    t.asm.out.md5 = load t.asm.out.memheap.mem 11 (t.v.heapcount - 11)
  calls : ∀ c ∈ t.asm.calls, c.heap = (fosHeader c.prod.seqno).take 11 ++ c.md5
  inserts : ∀ q ∈ t.asm.inserts, q.data = (fosHeader q.seqno).take 11 ++ q.md5

theorem guarded_carries (h : Trace (Guarded (FittingNwstg p lib) (MemStep p lib)) s es t) :
    Trace (Guarded (Carries p lib fun _ => True) (Step p lib)) s es t := by
  refine h.mono fun s e t hs => ⟨?_, hs.2.step hs.1.2⟩
  exact hs.1.1.mono (fun _ h => ⟨h, trivial⟩) fun _ _ h => h

/-- Where all packets fit the buffer, in every state of every run over text packets. -/
theorem md5_covers (hk : p.keepsVars = true) (h0 : Initial s)
    (h : Trace (Guarded (FittingNwstg p lib) (MemStep p lib)) s es t) : Md5Covers t := by
  have hi := coverInv_run hk h0.frags (guarded_carries h)
  obtain ⟨cs, hcs, hcalls⟩ := hi.signed.calls
  obtain ⟨qs, hqs, hinserts⟩ := hi.signed.inserts
  rw [h0.calls.1, List.nil_append] at hcs
  rw [h0.calls.2.1, List.nil_append] at hqs
  refine ⟨fun hne => (hi.progress hne).md5, ?_, ?_⟩
  · rw [hcs]
    exact fun c hc => (hcalls c hc).heap
  · rw [hqs]
    exact hinserts

end Run

/-- The lengths of a header record that is read to its block. -/
def fitsBuffer (p : Program) (s : State) : Bool :=
  match packet p s with
  | .exit _ _ => true
  | .go t => 0 ≤ t.inp.pdh.pshlen ∧
      t.inp.sbn.len + t.inp.pdh.len + t.inp.pdh.pshlen + t.inp.pdh.dbsize ≤ bufSize

theorem BlockAt.lengths {p : Program} {lib : Library} {s t : State} (h : BlockAt p lib s t) :
    ∃ u, packet p s = .go u ∧ t.inp.sbn = u.inp.sbn ∧ t.inp.pdh = u.inp.pdh := by
  cases h with
  | header u v asm hu hpsh haccept habandon =>
    refine ⟨u, hu, ?_⟩
    obtain ⟨w, hw, hv⟩ := Flow.bind_eq_go.1 haccept
    obtain ⟨rfl, -⟩ := (State.read_ends ..).go hw
    dsimp only at hv
    split_ifs at hv
    cases hv
    exact ⟨rfl, rfl⟩
  | continuation u hu hpsh =>
    refine ⟨u, hu, ?_, ?_⟩ <;> simp only [State.continued, rerouteChannel4_inp]

theorem packetFits_of {p : Program} {lib : Library} {s : State} (h : fitsBuffer p s = true) :
    PacketFits p lib s := by
  unfold fitsBuffer at h
  refine ⟨fun t ht _ => ?_, fun t ht => ?_⟩
  · rw [ht] at h
    have hle := of_decide_eq_true h
    omega
  · obtain ⟨u, hu, hsbn, hpdh⟩ := ht.lengths
    rw [hu] at h
    have hle := of_decide_eq_true h
    rw [hsbn, hpdh]
    omega

/-- The two blocks of a text product. -/
theorem md5_covers_run :
    ∃ t : State, t.asm.calls.map (fun c => c.prod.frags.length) = [2] ∧ Md5Covers t := by
  have hnwstg : ∀ k < 2, (front readnoaaport .plain
      (iterate readnoaaport .plain k (State.fresh twoBlockStream .blank))).Ends
        (fun t => isNwstg t.inp.sbn.datastream = true) (fun _ _ => True) := by
    decide +kernel
  have hfits : ∀ k < 2, fitsBuffer readnoaaport
      (iterate readnoaaport .plain k (State.fresh twoBlockStream .blank)) = true := by
    decide +kernel
  obtain ⟨es, h⟩ := iterate_guarded (C := FittingNwstg readnoaaport .plain) readnoaaport .plain
    fun k hk => ⟨hnwstg k hk, packetFits_of (hfits k hk)⟩
  have hmem : Trace (Guarded (FittingNwstg readnoaaport .plain) (MemStep readnoaaport .plain)) _ es _ :=
    h.mono fun s e t hs => ⟨hs.1, MemStep.inside t hs.2⟩
  exact ⟨_, by decide +kernel, md5_covers rfl (State.fresh_initial ..) hmem⟩

/-- A block of 10000 bytes in the second packet of a text product of three. -/
def overrunStream : List UInt8 :=
  [255, 0, 20, 0, 3, 5, 0, 0, 0, 0, 0, 1, 0, 1, 1, 29] ++
    [20, 0, 0, 52, 0, 0, 0, 0, 0, 1, 1, 1, 0, 0, 0, 7] ++
    [0, 0, 0, 36] ++ List.replicate 10 0 ++ [0, 3] ++ List.replicate 20 0 ++ [65] ++
  ([255, 0, 20, 0, 3, 5, 0, 0, 0, 0, 0, 2, 0, 1, 1, 30] ++
    [20, 2, 0, 16, 0, 1, 0, 0, 39, 16, 1, 1, 0, 0, 0, 7] ++ List.replicate 10000 66)

/-- What the second packet does to the state behind the first. -/
def overrun (s : State) : Prop :=
  (front readnoaaport .plain s).Ends (fun t => isNwstg t.inp.sbn.datastream = true) (fun _ _ => False) ∧
    (packet readnoaaport s).Ends (fun u => u.inp.pdh.pshlen = 0 ∧
      bufSize < u.rerouteChannel4.continued.inp.dataOff + u.rerouteChannel4.continued.inp.pdh.dbsize ∧
      (u.rerouteChannel4.continued.readBlock readnoaaport (.again .contRead)).Ends (fun _ => True)
        (fun _ _ => False)) (fun _ _ => False) ∧
    (iteration readnoaaport .plain s).Ends
      (fun t => t.asm.prod.frags.length = 2 ∧ t.v.heapcount = 10012) (fun _ _ => False)

instance (s : State) : Decidable (overrun s) := inferInstanceAs (Decidable (_ ∧ _))

/-- A packet, and another that runs past the buffer. -/
theorem overrun_uncovered (s₀ : State)
    (hfront : (front readnoaaport .plain s₀).Ends (fun t => isNwstg t.inp.sbn.datastream = true)
      (fun _ _ => False))
    (hiter : (iteration readnoaaport .plain s₀).Ends overrun (fun _ _ => False)) :
    ∃ es t, Trace (Guarded (NwstgOnly readnoaaport .plain) (MemStep readnoaaport .plain)) s₀ es t ∧
      ¬ Md5Covers t := by
  obtain ⟨s, hs, hfront', hpacket, hiter'⟩ | ⟨e, s, hs, hf⟩ := hiter.cases
  case inr => exact hf.elim
  obtain ⟨u, hu, hpsh, hend, hread⟩ | ⟨e, u, hu, hf⟩ := hpacket.cases
  case inr => exact hf.elim
  obtain ⟨w, hw, -⟩ | ⟨e, w, hw, hf⟩ := hread.cases
  case inr => exact hf.elim
  obtain ⟨t, ht, hfrags, hcount⟩ | ⟨e, t, ht, hf⟩ := hiter'.cases
  case inr => exact hf.elim
  have hfirst : MemStep readnoaaport .plain s₀ .taken s :=
    .inside s ⟨s, .inl ⟨hs, rfl⟩, rfl, fun _ => rfl⟩
  have hstep : MemStep readnoaaport .plain s .taken (t.setOut { t.asm.out with md5 := [] }) :=
    .past t [] ⟨t, .inl ⟨ht, rfl⟩, rfl, fun _ => rfl⟩
      (.block _ w _ (.continuation u hu hpsh) hw hend)
  refine ⟨_, _, .cons ⟨hfront.mono (fun _ h => h) fun _ _ _ => trivial, hfirst⟩
    (.cons ⟨hfront'.mono (fun _ h => h) fun _ _ _ => trivial, hstep⟩ (.nil _)), fun hcovers => ?_⟩
  have hne : t.asm.prod.frags ≠ [] := by
    intro hnil
    rw [hnil] at hfrags
    cases hfrags
  have hlen := congrArg List.length (hcovers.progress hne).2
  rw [length_load] at hlen
  change 0 = t.v.heapcount - 11 at hlen
  omega

theorem md5_overrun :
    ¬ ∀ es t, Trace (Guarded (NwstgOnly readnoaaport .plain) (MemStep readnoaaport .plain))
      (State.fresh overrunStream .blank) es t → Md5Covers t := by
  intro h
  obtain ⟨es, t, htr, hlost⟩ := overrun_uncovered (State.fresh overrunStream .blank)
    (by decide +kernel) (by decide +kernel)
  exact hlost (h es t htr)

end Noaaport
