import Noaaport.Sync

/-! What each part of an iteration before "Get the data" can do, one statement
for going on and one for the ways out. -/
namespace Noaaport
open Lib

section Reading
variable {p : Program} {s t : State} {off : Nat} {want : Int} {onFail : Exit}

@[simp] theorem State.setInp_inp (s : State) (i : Input) : (s.setInp i).inp = i := rfl
@[simp] theorem State.setInp_v (s : State) (i : Input) : (s.setInp i).v = s.v := rfl
@[simp] theorem State.setInp_asm (s : State) (i : Input) : (s.setInp i).asm = s.asm := rfl

theorem State.read_ends (p : Program) (s : State) (off : Nat) (want : Int) (onFail : Exit) :
    (s.read p off want onFail).Ends
      (fun t => t = s.setInp (s.inp.take off want.toNat) ∧ 0 ≤ want ∧
        want.toNat ≤ s.inp.rest.length)
      (fun e t => t = s ∧ (e = onFail ∨ e = .blocked)) := by
  refine Flow.Ends.within ((Input.read_ends ..).mono ?_ ?_)
  · rintro j ⟨rfl, h⟩
    exact ⟨rfl, h⟩
  · rintro e j ⟨rfl, h⟩
    exact ⟨rfl, h⟩

/-- A read whose result is ignored goes well or blocks. -/
theorem State.read_unchecked (hp : p.checksExtra = false) (s : State) (off k : Nat)
    (onFail : Exit) :
    (s.read p off k onFail).Ends (fun _ => True) fun e _ => e = .blocked := by
  have hu := p.unchecked hp (k : Int) s.inp.rest
  refine Flow.Ends.within ?_
  unfold Input.read
  split
  · trivial
  · next m hm => exact absurd hm (hu m (Int.natCast_nonneg k))
  · rfl

/-- The extra bytes of a long PDH are there whenever the loop goes on. -/
theorem readExtra_ends (p : Program) (s : State) :
    (readExtra p s).Ends
      (fun t => t = s.setInp (s.inp.take (s.inp.sbn.len + 16) (s.inp.pdh.len - 16)) ∧
        s.inp.pdh.len - 16 ≤ s.inp.rest.length)
      (fun _ t => t = s) := by
  unfold readExtra
  refine Flow.ends_ite (fun hlen => ?_) fun hlen => ?_
  · have hr := State.read_ends p s (s.inp.sbn.len + 16) (s.inp.pdh.len - 16 : Nat)
      (.again .pdhExtra)
    split
    · next r t heq =>
      obtain ⟨rfl, -⟩ := hr.exit heq
      refine Flow.ends_ite (fun _ => rfl) fun hc => ?_
      -- an unchecked read cannot have failed
      exact nomatch (State.read_unchecked (by simpa using hc) t _ _ _).exit heq
    · next x hx =>
      refine hr.mono ?_ fun e t h => h.1
      rintro t ⟨rfl, -, h⟩
      exact ⟨by rw [Int.toNat_natCast], by simpa using h⟩
  · have h0 : s.inp.pdh.len - 16 = 0 := by omega
    refine Flow.ends_go.2 ⟨?_, by omega⟩
    rw [h0]
    simp only [State.setInp, Input.take, List.take_zero, store_nil, List.drop_zero]

end Reading

/-- The state behind the PDH, as far as a packet decides it. -/
structure Defined (s t : State) : Prop where
  asm : t.asm = s.asm
  vars : t.v = { s.v with
    nwstg := isNwstg s.inp.sbn.datastream
    goes := isGoes s.inp.sbn.datastream
    prodCompressed := t.inp.pdh.transtype &&& 16 > 0 }
  sbn : t.inp.sbn = s.inp.sbn
  command : s.inp.sbn.command = 3 ∨ s.inp.sbn.command = 5
  version : s.inp.sbn.version = 1
  channel : isNwstg s.inp.sbn.datastream = true ∨ isGoes s.inp.sbn.datastream = true
  pdh : t.inp.pdh = readpdh (store s.inp.buf 16 (s.inp.rest.take 16)) s.inp.sbn.len
  pdhVersion : t.inp.pdh.version = 1
  psh : t.inp.pdh.pshlen ≠ 0 ∨ t.inp.pdh.transtype ≠ 0
  buf : t.inp.buf = store (store s.inp.buf 16 (s.inp.rest.take 16)) (s.inp.sbn.len + 16)
    ((s.inp.rest.drop 16).take (t.inp.pdh.len - 16))
  rest : t.inp.rest = (s.inp.rest.drop 16).drop (t.inp.pdh.len - 16)
  enough : 16 + (t.inp.pdh.len - 16) ≤ s.inp.rest.length

/-- An exit that has at most overwritten the channel variables. -/
structure Untouched (s t : State) : Prop where
  asm : t.asm = s.asm
  heapcount : t.v.heapcount = s.v.heapcount
  heapsize : t.v.heapsize = s.v.heapsize
  prodName : t.v.prodName = s.v.prodName

theorem Untouched.refl (s : State) : Untouched s s := ⟨rfl, rfl, rfl, rfl⟩

theorem Untouched.trans {s t u : State} (h : Untouched s t) (h' : Untouched t u) :
    Untouched s u :=
  ⟨h'.asm.trans h.asm, h'.heapcount.trans h.heapcount, h'.heapsize.trans h.heapsize,
    h'.prodName.trans h.prodName⟩

theorem Defined.untouched {s t : State} (h : Defined s t) : Untouched s t :=
  ⟨h.asm, by rw [h.vars], by rw [h.vars], by rw [h.vars]⟩

theorem definition_ends (p : Program) (s : State) :
    (definition p s).Ends (Defined s) (fun _ t => Untouched s t) := by
  refine Flow.Ends.bind ((State.read_ends ..).mono (fun _ h => h) ?_) ?_
  · rintro e t ⟨rfl, -⟩
    exact .refl t
  · rintro s₁ ⟨rfl, -, h16⟩
    refine Flow.ends_ite (fun _ => ⟨rfl, rfl, rfl, rfl⟩) fun hcmd => ?_
    refine Flow.ends_ite (fun _ => ⟨rfl, rfl, rfl, rfl⟩) fun hch => ?_
    refine Flow.Ends.bind ((readExtra_ends p _).mono (fun _ h => h) ?_) ?_
    · rintro e t rfl
      exact ⟨rfl, rfl, rfl, rfl⟩
    · rintro t ⟨rfl, hx⟩
      refine Flow.ends_ite (fun _ => ⟨rfl, rfl, rfl, rfl⟩) fun hv => ?_
      refine Flow.ends_ite (fun _ => ⟨rfl, rfl, rfl, rfl⟩) fun hpsh => ?_
      change ¬ ((s.inp.sbn.command ≠ 3 ∧ s.inp.sbn.command ≠ 5) ∨ s.inp.sbn.version ≠ 1) at hcmd
      change ¬ (¬ isNwstg s.inp.sbn.datastream = true ∧ ¬ isGoes s.inp.sbn.datastream = true) at hch
      exact
        { asm := rfl
          vars := rfl
          sbn := rfl
          command := by omega
          version := by omega
          channel := by tauto
          pdh := rfl
          pdhVersion := not_not.1 hv
          psh := not_and_or.1 hpsh
          buf := rfl
          rest := rfl
          enough := by
            have hx' : (readpdh (store s.inp.buf 16 (s.inp.rest.take 16)) s.inp.sbn.len).len - 16 ≤
                (s.inp.rest.drop 16).length := hx
            have h16' : 16 ≤ s.inp.rest.length := h16
            rw [List.length_drop] at hx'
            exact Nat.add_le_of_le_sub' h16' hx' }

theorem readpdb_buf (lib : Library) (buf : Buffer) (a : Nat) (psh : Psh) (pdb : Pdb)
    (uncompr : Mem UInt8) (zflag : Bool) :
    (readpdb lib buf a psh pdb uncompr zflag).buf = buf ∨
      zflag = false ∧ (readpdb lib buf a psh pdb uncompr zflag).buf =
        store buf (a + ((readpdb lib buf a psh pdb uncompr zflag).pdb.len - 512).toNat + 43) [128] := by
  unfold readpdb
  cases zflag with
  | true =>
    left
    simp only [↓reduceIte]
    split <;> rfl
  | false =>
    right
    refine ⟨rfl, ?_⟩
    simp only [Bool.false_eq_true, ↓reduceIte]
    exact congrArg (fun w => store buf w [128]) (by omega)

section Start
variable {lib : Library} {p : Program} {a b : Asm} {n : Int} {s t : State}

theorem Asm.abandon_frags (h : a.abandon lib = some b) : b.prod.frags = [] := by
  unfold Asm.abandon at h
  split_ifs at h with h1 h2
  · cases h
    exact h1
  · obtain ⟨out, -, rfl⟩ := Option.map_eq_some_iff.1 h
    rfl
  · cases h
    rfl

theorem Asm.abandon_handed (h : a.abandon lib = some b) :
    b.calls = a.calls ∧ b.inserts = a.inserts := by
  unfold Asm.abandon at h
  split_ifs at h with h1 h2
  · cases h
    exact ⟨rfl, rfl⟩
  · obtain ⟨out, -, rfl⟩ := Option.map_eq_some_iff.1 h
    exact ⟨rfl, rfl⟩
  · cases h
    exact ⟨rfl, rfl⟩

/-- A product has been started from what `abandon` left: what the blocks to come
are checked against, and what the writer of the product before has been left in. -/
structure Started (a : Asm) (n : Int) (t : State) : Prop where
  seqno : t.asm.prod.seqno = n
  frags : t.asm.prod.frags = []
  calls : t.asm.calls = a.calls
  pnginit : t.asm.pnginit = a.pnginit
  png : t.asm.out.png = a.out.png
  product : t.asm.out.product = a.out.product + 1
  opened : t.asm.out.opened = a.out.opened
  log : t.asm.out.pngLog = a.out.pngLog

theorem Started.begin (h : s.asm.abandon lib = some a) :
    Started a s.inp.pdh.seqno (s.begin lib a) :=
  ⟨rfl, (Asm.abandon_frags h :), rfl, rfl, rfl, rfl, rfl, rfl⟩

theorem Started.setInp (h : Started a n s) (i : Input) : Started a n (s.setInp i) :=
  ⟨h.seqno, h.frags, h.calls, h.pnginit, h.png, h.product, h.opened, h.log⟩

@[simp] theorem rerouteChannel4_asm (s : State) : s.rerouteChannel4.asm = s.asm := by
  unfold State.rerouteChannel4
  split_ifs <;> rfl

@[simp] theorem rerouteChannel4_inp (s : State) : s.rerouteChannel4.inp = s.inp := by
  unfold State.rerouteChannel4
  split_ifs <;> rfl

theorem Started.resetHeap (h : Started a n s) : Started a n s.rerouteChannel4.resetHeap := by
  have ha := rerouteChannel4_asm s
  constructor <;> simp only [State.resetHeap, ha]
  exacts [h.seqno, h.frags, h.calls, h.pnginit, h.png, h.product, h.opened, h.log]

theorem Started.nwstgHeader (h : Started a n s) : Started a n (nwstgHeader lib s) :=
  ⟨h.seqno, h.frags, h.calls, h.pnginit, h.png, h.product, h.opened, h.log⟩

end Start

/-- Exactly one of the two channel kinds. -/
def State.OneKind (s : State) : Prop := s.v.nwstg = !s.v.goes

theorem Defined.oneKind {s t : State} (h : Defined s t) : t.OneKind := by
  rw [State.OneKind, h.vars]
  have hc := h.channel
  simp only [isNwstg, isGoes, decide_eq_true_eq] at hc ⊢
  rcases hc with (hd | hd | hd) | (hd | hd | hd) <;> rw [hd] <;> rfl

theorem State.OneKind.reroute {s : State} (h : s.OneKind) : s.rerouteChannel4.OneKind := by
  unfold State.rerouteChannel4
  split_ifs
  · rfl
  · exact h

/-- The buffer is `b`, but for the octet of the image header that `readpdb` sets
in an uncompressed GOES header record. -/
def Octet43 (t : State) (b : Buffer) : Prop :=
  t.inp.buf = b ∨
    t.v.goes = true ∧ t.v.prodCompressed = false ∧
      t.inp.buf = store b (t.inp.dataOff + (t.asm.pdb.len - 512).toNat + 43) [128]

section Open
variable {lib : Library} {a : Asm} {n : Int} {s : State}

/-- What opening a product does to the input. -/
structure Opened (a : Asm) (n : Int) (s t : State) : Prop where
  started : Started a n t
  oneKind : t.OneKind
  sbn : t.inp.sbn = s.inp.sbn
  pdh : t.inp.pdh = s.inp.pdh
  rest : t.inp.rest = s.inp.rest
  buf : Octet43 t s.inp.buf
  image : t.asm.out.image = (t.v.goes && !t.v.prodCompressed)

theorem Started.markImage (h : Started a n s) : Started a n s.markImage :=
  ⟨h.seqno, h.frags, h.calls, h.pnginit, h.png, h.product, h.opened, h.log⟩

theorem goesHeader_ends (h : Started a n s) (hk : s.OneKind) (hg : s.v.goes = true)
    (hi : s.asm.out.image = (s.v.goes && !s.v.prodCompressed)) :
    (goesHeader lib s).Ends (fun t => Opened a n s t ∧ t.v.goes = true)
      (fun e t => e = .again .pdb ∧ Started a n t) := by
  refine Flow.ends_ite (fun _ => ⟨rfl, ?_⟩) fun _ => ⟨⟨?_, hk, rfl, rfl, rfl, ?_, hi⟩, hg⟩
  · exact ⟨h.seqno, h.frags, h.calls, h.pnginit, h.png, h.product, h.opened, h.log⟩
  · exact ⟨h.seqno, h.frags, h.calls, h.pnginit, h.png, h.product, h.opened, h.log⟩
  · rcases readpdb_buf lib s.inp.buf s.inp.dataOff s.asm.psh s.asm.pdb s.asm.uncompr
      s.v.prodCompressed with hb | ⟨hz, hb⟩
    · exact .inl hb
    · exact .inr ⟨hg, hz, hb⟩

theorem openProduct_ends (h : Started a n s) (hk : s.OneKind) :
    (openProduct lib s).Ends (Opened a n s) (fun e t => e = .again .pdb ∧ Started a n t) := by
  cases hg : s.v.goes with
  | true =>
    unfold openProduct
    rw [if_pos hg]
    refine (goesHeader_ends (s := s.markImage) h.markImage hk hg rfl).bind fun t ht => ?_
    have hn : t.v.nwstg = false := by
      have := ht.1.oneKind
      rwa [State.OneKind, ht.2] at this
    rw [hn]
    have ho := ht.1
    exact (⟨ho.started, ho.oneKind, ho.sbn, ho.pdh, ho.rest, ho.buf, ho.image⟩ : Opened a n s t)
  | false =>
    have hn : s.markImage.v.nwstg = true := by rwa [State.OneKind, hg] at hk
    unfold openProduct
    simp only [hg, hn, Bool.false_eq_true, ↓reduceIte, Flow.bind_go, Flow.ends_go]
    exact ⟨h.markImage.nwstgHeader, hk, rfl, rfl, rfl, .inl rfl, rfl⟩

end Open

/-- The PSH and the block have been read, each behind what came before it. -/
structure BlockRead (s t : State) : Prop where
  sbn : t.inp.sbn = s.inp.sbn
  pdh : t.inp.pdh = s.inp.pdh
  pshlen : 0 ≤ s.inp.pdh.pshlen
  enough : s.inp.pdh.pshlen.toNat + s.inp.pdh.dbsize ≤ s.inp.rest.length
  rest : t.inp.rest = (s.inp.rest.drop s.inp.pdh.pshlen.toNat).drop s.inp.pdh.dbsize
  buf : Octet43 t (store (store s.inp.buf s.inp.pshOff (s.inp.rest.take s.inp.pdh.pshlen.toNat))
    s.inp.dataOff ((s.inp.rest.drop s.inp.pdh.pshlen.toNat).take s.inp.pdh.dbsize))

section Header
variable {p : Program} {lib : Library} {s : State}

theorem Asm.abandon_withPsh (a : Asm) (psh : Psh) :
    ({ a with psh } : Asm).abandon lib = (a.abandon lib).map fun b => { b with psh } := by
  unfold Asm.abandon
  split_ifs
  · rfl
  · simp only [Option.map_map]
    rfl
  · rfl

/-- The PSH as this packet has it. -/
def State.readPsh (s : State) : Psh :=
  readpsh (store s.inp.buf s.inp.pshOff (s.inp.rest.take s.inp.pdh.pshlen.toNat)) s.inp.pshOff
    s.asm.psh

/-- The packet is refused for its PSH length, after the PSH has been decoded. -/
def PshRejected (p : Program) (s : State) : Prop :=
  p.reader.read s.inp.pdh.pshlen s.inp.rest = .ok ∧ s.inp.sbn.command ≠ 5 ∧
    (s.readPsh.olen : Int) ≠ s.inp.pdh.pshlen

theorem resetHeap_inp (s : State) : s.rerouteChannel4.resetHeap.inp = s.inp :=
  rerouteChannel4_inp s

/-- The block of a header record, from the start of the product on. -/
structure BlockOpened (a : Asm) (n : Int) (s t : State) : Prop where
  started : Started a n t
  oneKind : t.OneKind
  sbn : t.inp.sbn = s.inp.sbn
  pdh : t.inp.pdh = s.inp.pdh
  enough : s.inp.pdh.dbsize ≤ s.inp.rest.length
  rest : t.inp.rest = s.inp.rest.drop s.inp.pdh.dbsize
  buf : Octet43 t (store s.inp.buf s.inp.dataOff (s.inp.rest.take s.inp.pdh.dbsize))
  image : t.asm.out.image = (t.v.goes && !t.v.prodCompressed)

theorem openBlock_ends {a : Asm} {n : Int} (hst : Started a n s) (hk : s.OneKind) :
    ((s.readBlock p (.again .blockRead)).bind
      fun s => openProduct lib s.rerouteChannel4.resetHeap).Ends (BlockOpened a n s)
        (fun _ t => Started a n t) := by
  refine Flow.Ends.bind ((State.read_ends ..).mono (fun _ h => h) ?_) ?_
  · rintro e t ⟨rfl, -⟩
    exact hst
  · rintro u ⟨rfl, -, hblock⟩
    rw [Int.toNat_natCast] at hblock ⊢
    refine (openProduct_ends (hst.setInp _).resetHeap (State.OneKind.reroute ?_)).mono ?_ ?_
    · exact hk
    · intro t ht
      have hsbn := ht.sbn
      have hpdh := ht.pdh
      have hrest := ht.rest
      have hbuf := ht.buf
      rw [resetHeap_inp] at hsbn hpdh hrest hbuf
      exact ⟨ht.started, ht.oneKind, hsbn, hpdh, hblock, hrest, hbuf, ht.image⟩
    · exact fun e t ht => ht.2

structure HeaderGo (lib : Library) (s t : State) : Prop where
  block : BlockRead s t
  started : ∃ a, s.asm.abandon lib = some a ∧ Started a s.inp.pdh.seqno t
  oneKind : t.OneKind
  image : t.asm.out.image = (t.v.goes && !t.v.prodCompressed)

inductive HeaderExit (p : Program) (lib : Library) (s : State) (e : Exit) (t : State) : Prop where
  | untouched (h : Untouched s t) (hp : ¬ PshRejected p s)
  | rejected (he : e = .again .pshLen) (hp : PshRejected p s)
      (asm : t.asm = { s.asm with psh := s.readPsh }) (v : t.v = s.v)
  | fault (he : e = .fault)
  | started (a : Asm) (h : s.asm.abandon lib = some a) (ht : Started a s.inp.pdh.seqno t)

theorem headerRecord_ends (hk : s.OneKind) :
    (headerRecord p lib s).Ends (HeaderGo lib s) (HeaderExit p lib s) := by
  have hread := State.read_ends p s s.inp.pshOff s.inp.pdh.pshlen (.again .pshRead)
  cases hr : s.read p s.inp.pshOff s.inp.pdh.pshlen (.again .pshRead) with
  | exit e t =>
    rw [headerRecord, hr]
    obtain ⟨rfl, -⟩ := hread.exit hr
    refine .untouched (.refl t) fun hp => ?_
    simp only [State.read, Input.read, hp.1, Flow.within_go] at hr
    cases hr
  | go s₁ =>
    have hok : p.reader.read s.inp.pdh.pshlen s.inp.rest = .ok := by
      simp only [State.read, Input.read] at hr
      split at hr <;> first | assumption | cases hr
    obtain ⟨rfl, h0, hpsh⟩ := hread.go hr
    rw [headerRecord, hr]
    refine Flow.ends_ite (fun hc => ?_) fun hc => ?_
    · exact .untouched ⟨rfl, rfl, rfl, rfl⟩ fun hp => hp.2.1 hc
    refine Flow.ends_ite (fun hl => ?_) fun hl => ?_
    · exact .rejected rfl ⟨hok, hc, hl⟩ rfl rfl
    split
    · exact .fault rfl
    next b hb =>
    have hb' : Asm.abandon lib { s.asm with psh := s.readPsh } = some b := hb
    rw [Asm.abandon_withPsh] at hb'
    obtain ⟨a, ha, hab⟩ := Option.map_eq_some_iff.1 hb'
    have hst : Started a s.inp.pdh.seqno
        (((s.setInp (s.inp.take s.inp.pshOff s.inp.pdh.pshlen.toNat)).decodePsh).begin lib b) := by
      subst hab
      have hs := Started.begin hb
      exact ⟨hs.seqno, hs.frags, hs.calls, hs.pnginit, hs.png, hs.product, hs.opened, hs.log⟩
    refine (openBlock_ends hst hk).mono ?_ ?_
    · intro t ht
      have hblock : s.inp.pdh.dbsize ≤ (s.inp.rest.drop s.inp.pdh.pshlen.toNat).length := ht.enough
      rw [List.length_drop] at hblock
      exact ⟨⟨ht.sbn, ht.pdh, h0, by omega, ht.rest, ht.buf⟩, ⟨a, ha, ht.started⟩, ht.oneKind, ht.image⟩
    · exact fun e t ht => .started a ha ht

end Header

section Continuation
variable {p : Program} {lib : Library} {s : State}

structure ContinuationGo (s t : State) : Prop where
  block : BlockRead s t
  asm : t.asm = s.continued.asm
  vars : t.v = s.rerouteChannel4.v
  linked : s.asm.prod.frags ≠ []

structure ContinuationExit (s : State) (e : Exit) (t : State) : Prop where
  asm : t.asm = s.continued.asm
  vars : t.v = s.rerouteChannel4.v
  exit : e = .again .contRead ∨ e = .blocked ∨ e = .again .noHeader ∧ s.asm.prod.frags = []

theorem continued_asm (s : State) : s.rerouteChannel4.continued.asm = s.continued.asm := by
  simp only [State.continued, rerouteChannel4_asm, rerouteChannel4_inp]

theorem continuationRecord_ends (h0 : s.inp.pdh.pshlen = 0) :
    (continuationRecord p s).Ends (ContinuationGo s) (ContinuationExit s) := by
  have hinp : s.rerouteChannel4.continued.inp = s.inp := rerouteChannel4_inp s
  refine Flow.Ends.bind ((State.read_ends ..).mono (fun _ h => h) ?_) ?_
  · rintro e t ⟨rfl, rfl | rfl⟩
    · exact ⟨continued_asm s, rfl, .inl rfl⟩
    · exact ⟨continued_asm s, rfl, .inr (.inl rfl)⟩
  · rintro t ⟨rfl, -, hblock⟩
    rw [hinp, Int.toNat_natCast] at hblock ⊢
    have hfr : s.rerouteChannel4.continued.asm.prod.frags = s.asm.prod.frags := by
      rw [continued_asm]
      rfl
    refine Flow.ends_ite (fun hf => ?_) fun hf => ?_
    · exact ⟨continued_asm s, rfl, .inr (.inr ⟨rfl, hfr.symm.trans hf⟩)⟩
    · refine ⟨⟨rfl, rfl, ?_, ?_, ?_, .inl ?_⟩, continued_asm s, rfl, fun h => hf (hfr.trans h)⟩
      · exact Int.le_of_eq h0.symm
      · rw [h0]
        simpa using hblock
      · rw [h0]
        rfl
      · rw [h0]
        simp [Input.take]

end Continuation

section Front
variable {p : Program} {lib : Library} {s : State}

/-- How "Get the data" is reached. -/
inductive FrontGo (p : Program) (lib : Library) (s t : State) : Prop where
  | header (i : Input) (u : State) (hs : sync p s.inp = .go i)
      (hu : definition p (s.setInp i) = .go u) (hd : Defined (s.setInp i) u)
      (hp : u.inp.pdh.pshlen ≠ 0) (h : HeaderGo lib u t)
  | continuation (i : Input) (u : State) (hs : sync p s.inp = .go i)
      (hu : definition p (s.setInp i) = .go u) (hd : Defined (s.setInp i) u)
      (hp : u.inp.pdh.pshlen = 0) (h : ContinuationGo u t)

/-- And how it is not. -/
inductive FrontExit (p : Program) (lib : Library) (s : State) (e : Exit) (t : State) : Prop where
  | untouched (h : Untouched s t)
      (hx : ∀ i, sync p s.inp = .go i → ∀ u, definition p (s.setInp i) ≠ .go u)
  | header (i : Input) (u : State) (hs : sync p s.inp = .go i)
      (hu : definition p (s.setInp i) = .go u) (hd : Defined (s.setInp i) u)
      (hp : u.inp.pdh.pshlen ≠ 0) (h : HeaderExit p lib u e t)
  | continuation (i : Input) (u : State) (hs : sync p s.inp = .go i)
      (hu : definition p (s.setInp i) = .go u) (hd : Defined (s.setInp i) u)
      (hp : u.inp.pdh.pshlen = 0) (h : ContinuationExit u e t)

theorem front_ends (p : Program) (lib : Library) (s : State) :
    (front p lib s).Ends (FrontGo p lib s) (FrontExit p lib s) := by
  unfold front
  cases hs : sync p s.inp with
  | exit e i => exact .untouched ⟨rfl, rfl, rfl, rfl⟩ fun j hj => by rw [hs] at hj; cases hj
  | go i =>
    simp only [Flow.within_go, Flow.bind_go]
    have hdef := definition_ends p (s.setInp i)
    cases hu : definition p (s.setInp i) with
    | exit e u =>
      have h := hdef.exit hu
      refine .untouched ⟨h.asm, h.heapcount, h.heapsize, h.prodName⟩ fun j hj v hv => ?_
      cases Flow.go.inj (hs.symm.trans hj)
      rw [hu] at hv
      cases hv
    | go u =>
      have hd := hdef.go hu
      refine Flow.ends_ite (fun hp => ?_) fun hp => ?_
      · exact (headerRecord_ends hd.oneKind).mono (fun t h => .header i u hs hu hd hp h)
          fun e t h => .header i u hs hu hd hp h
      · have hp' := not_not.1 hp
        exact (continuationRecord_ends hp').mono (fun t h => .continuation i u hs hu hd hp' h)
          fun e t h => .continuation i u hs hu hd hp' h

end Front

section Quiet
variable {p : Program} {lib : Library} {s t u : State}

/-- Nothing is accounted and nothing handed over. -/
structure Quiet (s t : State) : Prop where
  stats : t.inp.stats = s.inp.stats
  calls : t.asm.calls = s.asm.calls
  inserts : t.asm.inserts = s.asm.inserts

theorem Quiet.refl (s : State) : Quiet s s := ⟨rfl, rfl, rfl⟩

theorem Quiet.trans (h : Quiet s t) (h' : Quiet t u) : Quiet s u :=
  ⟨h'.stats.trans h.stats, h'.calls.trans h.calls, h'.inserts.trans h.inserts⟩

theorem State.read_quiet {off : Nat} {want : Int} {onFail : Exit} :
    (s.read p off want onFail).Ends (Quiet s) (fun _ => Quiet s) := by
  refine (State.read_ends ..).mono ?_ ?_
  · rintro t ⟨rfl, -⟩
    exact ⟨rfl, rfl, rfl⟩
  · rintro e t ⟨rfl, -⟩
    exact .refl t

theorem openProduct_quiet : (openProduct lib s).Ends (Quiet s) (fun _ => Quiet s) := by
  unfold openProduct
  refine Flow.Ends.bind (P := Quiet s) ?_ fun t ht => ?_
  · refine Flow.ends_ite (fun _ => ?_) fun _ => ⟨rfl, rfl, rfl⟩
    exact Flow.ends_ite (fun _ => ⟨rfl, rfl, rfl⟩) fun _ => ⟨rfl, rfl, rfl⟩
  · split_ifs
    · exact ht.trans ⟨rfl, rfl, rfl⟩
    · exact ht

theorem reroute_quiet (s : State) : Quiet s s.rerouteChannel4 :=
  ⟨by rw [rerouteChannel4_inp], by rw [rerouteChannel4_asm], by rw [rerouteChannel4_asm]⟩

theorem headerRecord_quiet : (headerRecord p lib s).Ends (Quiet s) (fun _ => Quiet s) := by
  refine Flow.Ends.bind State.read_quiet fun u hu => ?_
  refine Flow.ends_ite (fun _ => hu) fun _ => ?_
  have hd : Quiet s u.decodePsh := hu.trans ⟨rfl, rfl, rfl⟩
  refine Flow.ends_ite (fun _ => hd) fun _ => ?_
  split
  · exact hd
  next a ha =>
  have hbegin : Quiet s (u.decodePsh.begin lib a) :=
    hd.trans ⟨rfl, (Asm.abandon_handed ha).1, (Asm.abandon_handed ha).2⟩
  refine Flow.Ends.bind (State.read_quiet.mono (fun _ h => hbegin.trans h)
    fun _ _ h => hbegin.trans h) fun w hw => ?_
  have hreset : Quiet s w.rerouteChannel4.resetHeap :=
    hw.trans ((reroute_quiet w).trans ⟨rfl, rfl, rfl⟩)
  exact openProduct_quiet.mono (fun _ h => hreset.trans h) fun _ _ h => hreset.trans h

theorem continuationRecord_quiet :
    (continuationRecord p s).Ends (Quiet s) (fun _ => Quiet s) := by
  have hc : Quiet s s.rerouteChannel4.continued := (reroute_quiet s).trans ⟨rfl, rfl, rfl⟩
  refine Flow.Ends.bind (State.read_quiet.mono (fun _ h => hc.trans h) fun _ _ h => hc.trans h)
    fun t ht => ?_
  exact Flow.ends_ite (fun _ => ht) fun _ => ht

theorem readExtra_quiet : (readExtra p s).Ends (Quiet s) (fun _ => Quiet s) := by
  refine (readExtra_ends p s).mono ?_ ?_
  · rintro t ⟨rfl, -⟩
    exact ⟨rfl, rfl, rfl⟩
  · rintro e t rfl
    exact .refl t

end Quiet

end Noaaport
